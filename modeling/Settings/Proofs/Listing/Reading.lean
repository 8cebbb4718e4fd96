import Settings.Listing
import Settings.Text.Path

/-!
# Reading a listing

A listing is meant for people and has no parser, yet nothing about an outline is lost in it. Reading
from the left, the next character always tells what comes: behind the indent of a scope a blank
stands for one more line in it and a brace for its end, a name goes to the first blank, behind the
sign of equality a brace stands for a scope, and a value goes to the first semicolon. How far a
comment is moved to the right depends only on what was read before it.

`pieces_inj` and `piecesAll_inj` say this of one outline and of a row of them, each followed by any
other text. The second needs that no line of the row begins in what follows (`Ends`), which is what
the indent is for.
-/

set_option autoImplicit false

namespace Settings

namespace Outline

/-- A name with none of the characters that a reader takes for the end of it. -/
def PlainName (name : String) : Prop :=
  ∀ c ∈ name.toList, isBlank c = false ∧ c ∉ ['=', ';', '\x7b', '\x7d']

def PlainText (text : String) : Prop := ∀ c ∈ text.toList, c ∉ [';', '\x7b', '\n']

def PlainDescription (description : String) : Prop := '\n' ∉ description.toList

mutual

/-- No name, value or description in the outline holds a character that could be taken for a part of
the listing itself. -/
def Plain : Outline → Prop
  | value name text description => PlainName name ∧ PlainText text ∧ PlainDescription description
  | group name description children =>
      PlainName name ∧ PlainDescription description ∧ PlainAll children

def PlainAll : List Outline → Prop
  | [] => True
  | x :: xs => Plain x ∧ PlainAll xs

end

theorem PlainName.no_blank {name : String} (h : PlainName name) : ' ' ∉ name.toList := by
  intro hm
  exact absurd (h ' ' hm).1 (by decide)

theorem PlainText.no_semicolon {text : String} (h : PlainText text) : ';' ∉ text.toList := by
  intro hm
  exact absurd (h ';' hm) (by simp)

theorem PlainText.no_brace {text : String} (h : PlainText text) : '\x7b' ∉ text.toList := by
  intro hm
  exact absurd (h '\x7b' hm) (by simp)

def name : Outline → String
  | value name _ _ => name
  | group name _ _ => name

theorem Plain.name {x : Outline} (h : x.Plain) : PlainName x.name := by
  cases x with
  | value name text description =>
    simp only [Plain] at h
    exact h.1
  | group name description children =>
    simp only [Plain] at h
    exact h.1

end Outline

namespace Listing

open Outline

/-- The characters of a row of pieces. -/
def chars (row : List String) : List Char := row.flatMap String.toList

theorem chars_append (row row' : List String) : chars (row ++ row') = chars row ++ chars row' :=
  List.flatMap_append

variable {indent : String} {column : Nat}

/-! ## Comments -/

theorem no_newline_comment {width : Nat} {description : String} (h : PlainDescription description) :
    '\n' ∉ chars (comment width column description) := by
  unfold comment
  split
  · simp [chars]
  · unfold PlainDescription at h
    simpa [chars] using h

theorem comment_inj {width : Nat} {d d' : String}
    (h : chars (comment width column d) = chars (comment width column d')) : d = d' := by
  unfold comment at h
  by_cases hd : d = ""
  · by_cases hd' : d' = ""
    · rw [hd, hd']
    · rw [if_pos hd, if_neg hd'] at h
      simp [chars] at h
  · by_cases hd' : d' = ""
    · rw [if_neg hd, if_pos hd'] at h
      simp [chars] at h
    · rw [if_neg hd, if_neg hd'] at h
      simpa [chars, String.toList_inj] using h

/-- A comment goes to the end of its line. -/
theorem comment_line_inj {width : Nat} {d d' : String} {rest rest' : List Char}
    (hd : PlainDescription d) (hd' : PlainDescription d')
    (h : chars (comment width column d) ++ '\n' :: rest =
      chars (comment width column d') ++ '\n' :: rest') : d = d' ∧ rest = rest' := by
  obtain ⟨hsame, hrest⟩ :=
    append_separator_inj (no_newline_comment hd) (no_newline_comment hd') h
  exact ⟨comment_inj hsame, hrest⟩

/-! ## Lines -/

/-- What follows the name on the line of an outline, and the lines after it that belong to it. -/
def tail (indent : String) (column : Nat) : Outline → List Char
  | .value name text description =>
      let width := indent.utf8ByteSize + name.utf8ByteSize + text.utf8ByteSize + 4
      text.toList ++ ';' :: (chars (comment width (max column (width + 1)) description) ++ ['\n'])
  | .group name description children =>
      let width := indent.utf8ByteSize + name.utf8ByteSize + 5
      '\x7b' :: ' ' :: (chars (comment width column description) ++
        '\n' :: (chars (piecesAll (indent ++ "  ") column children) ++
          (indent.toList ++ ['\x7d', '\n'])))

theorem chars_pieces (x : Outline) : chars (pieces indent column x) =
    indent.toList ++ (x.name.toList ++ ' ' :: '=' :: ' ' :: tail indent column x) := by
  cases x with
  | value name text description =>
    simp [pieces, chars, tail, Outline.name]
  | group name description children =>
    simp [pieces, chars, tail, Outline.name]

theorem chars_piecesAll_cons (x : Outline) (xs : List Outline) :
    chars (piecesAll indent column (x :: xs)) =
      chars (pieces indent column x) ++ chars (piecesAll indent column xs) := by
  simp [piecesAll, chars_append]

/-- The name of an outline, which goes to the first blank. -/
theorem name_inj {x y : Outline} {rest rest' : List Char} (hx : x.Plain) (hy : y.Plain)
    (h : chars (pieces indent column x) ++ rest = chars (pieces indent column y) ++ rest') :
    x.name = y.name ∧ tail indent column x ++ rest = tail indent column y ++ rest' := by
  simp only [chars_pieces, List.append_assoc, List.cons_append, List.append_cancel_left_eq] at h
  obtain ⟨hname, htail⟩ :=
    append_separator_inj hx.name.no_blank hy.name.no_blank h
  simp only [List.cons.injEq, true_and] at htail
  exact ⟨String.toList_inj.mp hname, htail⟩

/-- No line of an outline begins the text. -/
def Ends (indent : String) (column : Nat) (rest : List Char) : Prop :=
  ∀ x rest', rest ≠ chars (pieces indent column x) ++ rest'

theorem Ends.nil : Ends indent column [] := by
  intro x rest' h
  simp [chars_pieces] at h

/-- The end of a scope stands further to the left than the lines in it. -/
theorem Ends.brace (rest : List Char) :
    Ends (indent ++ "  ") column (indent.toList ++ ('\x7d' :: rest)) := by
  intro x rest' h
  simp [chars_pieces] at h

/-! ## Outlines -/

mutual

/-- One outline is told by its lines, whatever follows them. -/
theorem pieces_inj (indent : String) (column : Nat) : ∀ (x y : Outline) (rest rest' : List Char),
    x.Plain → y.Plain →
      chars (pieces indent column x) ++ rest = chars (pieces indent column y) ++ rest' →
        x = y ∧ rest = rest'
  | .value name text description, .value name' text' description', rest, rest', hx, hy, h => by
    obtain ⟨rfl, htail⟩ := name_inj hx hy h
    simp only [Plain] at hx hy
    simp only [tail, List.append_assoc, List.cons_append, List.nil_append] at htail
    obtain ⟨htext, hline⟩ :=
      append_separator_inj hx.2.1.no_semicolon hy.2.1.no_semicolon htail
    obtain rfl := String.toList_inj.mp htext
    obtain ⟨rfl, hrest⟩ := comment_line_inj hx.2.2 hy.2.2 hline
    exact ⟨rfl, hrest⟩
  | .value name text description, .group name' description' children', rest, rest', hx, hy, h => by
    obtain ⟨_, htail⟩ := name_inj hx hy h
    simp only [Plain] at hx
    -- a value does not begin with a brace
    have hbrace := hx.2.1.no_brace
    cases htext : text.toList with
    | nil => simp [tail, htext] at htail
    | cons c cs =>
      obtain ⟨rfl, _⟩ : c = '\x7b' ∧ _ := by simpa [tail, htext] using htail
      exact absurd (htext ▸ List.mem_cons_self) hbrace
  | .group name description children, .value name' text' description', rest, rest', hx, hy, h => by
    obtain ⟨_, htail⟩ := name_inj hx hy h
    simp only [Plain] at hy
    have hbrace := hy.2.1.no_brace
    cases htext : text'.toList with
    | nil => simp [tail, htext] at htail
    | cons c cs =>
      obtain ⟨rfl, _⟩ : '\x7b' = c ∧ _ := by simpa [tail, htext] using htail
      exact absurd (htext ▸ List.mem_cons_self) hbrace
  | .group name description children, .group name' description' children', rest, rest', hx, hy,
      h => by
    obtain ⟨rfl, htail⟩ := name_inj hx hy h
    simp only [Plain] at hx hy
    simp only [tail, List.append_assoc, List.cons_append, List.nil_append, List.cons.injEq,
      true_and] at htail
    obtain ⟨rfl, hlines⟩ := comment_line_inj hx.2.1 hy.2.1 htail
    obtain ⟨rfl, hend⟩ := piecesAll_inj (indent ++ "  ") column children children' _ _ hx.2.2 hy.2.2
      (.brace _) (.brace _) hlines
    simp only [List.append_cancel_left_eq, List.cons.injEq, true_and] at hend
    exact ⟨rfl, hend⟩

/-- A row of outlines is told by its lines, if no line can be taken to begin behind them. -/
theorem piecesAll_inj (indent : String) (column : Nat) :
    ∀ (xs ys : List Outline) (rest rest' : List Char), PlainAll xs → PlainAll ys →
      Ends indent column rest → Ends indent column rest' →
        chars (piecesAll indent column xs) ++ rest = chars (piecesAll indent column ys) ++ rest' →
          xs = ys ∧ rest = rest'
  | [], [], _, _, _, _, _, _, h => by
    simp only [piecesAll, chars, List.flatMap_nil, List.nil_append] at h
    exact ⟨rfl, h⟩
  | [], y :: ys, rest, rest', _, _, hrest, _, h => by
    rw [chars_piecesAll_cons, List.append_assoc] at h
    exact absurd h (hrest y _)
  | x :: xs, [], rest, rest', _, _, _, hrest', h => by
    rw [chars_piecesAll_cons, List.append_assoc] at h
    exact absurd h.symm (hrest' x _)
  | x :: xs, y :: ys, rest, rest', hxs, hys, hrest, hrest', h => by
    rw [chars_piecesAll_cons, chars_piecesAll_cons, List.append_assoc, List.append_assoc] at h
    simp only [PlainAll] at hxs hys
    obtain ⟨rfl, hmore⟩ := pieces_inj indent column x y _ _ hxs.1 hys.1 h
    obtain ⟨rfl, hsame⟩ :=
      piecesAll_inj indent column xs ys rest rest' hxs.2 hys.2 hrest hrest' hmore
    exact ⟨rfl, hsame⟩

end

/-- Rows of outlines with the same listing are the same. -/
theorem join_piecesAll_inj {xs ys : List Outline} (hxs : PlainAll xs) (hys : PlainAll ys)
    (h : String.join (piecesAll indent column xs) = String.join (piecesAll indent column ys)) :
    xs = ys := by
  have hchars : chars (piecesAll indent column xs) = chars (piecesAll indent column ys) := by
    rw [chars, chars, ← String.toList_join, ← String.toList_join, h]
  exact (piecesAll_inj indent column xs ys [] [] hxs hys .nil .nil (by rw [hchars])).1

end Listing

end Settings

import Settings.Proofs.Listing.Contents
import Settings.Proofs.Session.Validation

/-!
# Lines

A listing is made of lines, and each of them is about one entry. A value has one line. A scope has
two, one that opens it and one that closes it, and between them stand the lines of what is
registered in it, one level deeper. `Tree.lines` is this row of lines with their entries, and
`Table.Holds.mem_lines` says of a single line when it is in the row.

`join_outline` says that the text of a listing is that of its lines, whatever the indent and the
column of comments are. So an order of lines is an order of printing, and what is shown of one line
holds of the text.
-/

set_option autoImplicit false

namespace Settings

namespace Listing

/-- A line of a listing: the entry that it is about, how many scopes of the listing are around it,
and for a value its saved text. -/
inductive Line where
  | value (id : EntryId) (entry : Entry) (depth : Nat) (text : String)
  | opening (id : EntryId) (entry : Entry) (depth : Nat)
  | closing (id : EntryId) (entry : Entry) (depth : Nat)

/-- The indent of lines that are some levels deep. -/
def indentAt (indent : String) (depth : Nat) : String :=
  indent ++ String.ofList (List.replicate (2 * depth) ' ')

namespace Line

def id : Line → EntryId
  | value id .. | opening id .. | closing id .. => id

def depth : Line → Nat
  | value _ _ depth _ | opening _ _ depth | closing _ _ depth => depth

/-- The entry, for the line of a value. -/
def setting? : Line → Option (EntryId × Entry)
  | value id entry .. => some (id, entry)
  | opening .. | closing .. => none

/-- All of the line but the comment and the spaces before it. -/
def code (indent : String) : Line → String
  | value _ entry depth text => indentAt indent depth ++ entry.name ++ " = " ++ text ++ ";"
  | opening _ entry depth => indentAt indent depth ++ entry.name ++ " = \x7b "
  | closing _ _ depth => indentAt indent depth ++ "\x7d"

/-- What is said in the comment. The end of a scope has none. -/
def description : Line → String
  | value _ entry .. | opening _ entry _ => entry.description
  | closing .. => ""

/-- The least number of spaces before a comment. -/
def leastGap : Line → Nat
  | value .. => 1
  | opening .. | closing .. => 0

/-- How many spaces stand before a comment. -/
def gap (indent : String) (column : Nat) (l : Line) : Nat :=
  max (column - (l.code indent).utf8ByteSize) l.leastGap

def text (indent : String) (column : Nat) (l : Line) : String :=
  if l.description = "" then l.code indent
  else l.code indent ++ String.ofList (List.replicate (l.gap indent column) ' ') ++ "// " ++
    l.description

end Line

/-- The text of a row of lines, each of them ended. -/
def textOfLines (indent : String) (column : Nat) (lines : List Line) : String :=
  String.join (lines.map fun l => l.text indent column ++ "\n")

end Listing

open Listing

/-! ## The lines of a tree -/

namespace Tree

mutual

def lines (s : Store) (depth : Nat) : Tree → List Line
  | node id e es _ =>
      if e.isFunction then []
      else if e.isScope then
        .opening id e depth :: linesAll s (depth + 1) es ++ [.closing id e depth]
      else match e.serialized s with
        | .ok text => [.value id e depth text]
        | .error _ => []

def linesAll (s : Store) (depth : Nat) : List Tree → List Line
  | [] => []
  | x :: xs => lines s depth x ++ linesAll s depth xs

end

theorem linesAll_eq (s : Store) (depth : Nat) (xs : List Tree) :
    linesAll s depth xs = xs.flatMap (lines s depth) := by
  induction xs with
  | nil => simp [linesAll]
  | cons x xs ih => simp [linesAll, ih]

end Tree

namespace Listing

variable {s : Store} {indent : String} {column depth : Nat}

theorem indentAt_zero (indent : String) : indentAt indent 0 = indent := by
  simp [indentAt]

theorem indentAt_succ (indent : String) (depth : Nat) :
    indentAt indent depth ++ "  " = indentAt indent (depth + 1) := by
  apply String.toList_inj.mp
  have hspaces : List.replicate (2 * depth + 2) ' ' =
      List.replicate (2 * depth) ' ' ++ [' ', ' '] := List.replicate_add (2 * depth) 2 ' '
  simp [indentAt, Nat.mul_add, hspaces]

/-- A line is its code and its comment. -/
theorem toList_text (l : Line) {width start : Nat} (h : start - width = l.gap indent column) :
    (l.text indent column).toList =
      (l.code indent).toList ++ chars (comment width start l.description) := by
  unfold Line.text comment
  split
  · simp [chars]
  · simp [chars, h]

/-- The pieces of a value make one line. -/
theorem chars_value (indent : String) (column : Nat) (id : EntryId) (e : Entry) (depth : Nat)
    (text : String) :
    chars (pieces (indentAt indent depth) column (.value e.name text e.description)) =
      ((Line.value id e depth text).text indent column).toList ++ ['\n'] := by
  let l : Line := .value id e depth text
  let width := (indentAt indent depth).utf8ByteSize + e.name.utf8ByteSize + text.utf8ByteSize + 4
  have hwidth : (l.code indent).utf8ByteSize = width := by
    have hequals : " = ".utf8ByteSize = 3 := by decide
    have hend : ";".utf8ByteSize = 1 := by decide
    simp only [l, width, Line.code, String.utf8ByteSize_append, hequals, hend]
    omega
  have hgap : max column (width + 1) - width = l.gap indent column := by
    show _ = max (column - (l.code indent).utf8ByteSize) 1
    rw [hwidth]
    omega
  have hline := toList_text l hgap
  simp [pieces, chars, hline, l, Line.code, Line.description, width]

/-- What is written before the contents of a scope makes one line. -/
theorem chars_opening (indent : String) (column : Nat) (id : EntryId) (e : Entry) (depth : Nat) :
    let width := (indentAt indent depth).utf8ByteSize + e.name.utf8ByteSize + 5
    chars ([indentAt indent depth, e.name, " = \x7b "] ++ comment width column e.description ++
        ["\n"]) = ((Line.opening id e depth).text indent column).toList ++ ['\n'] := by
  intro width
  let l : Line := .opening id e depth
  have hwidth : (l.code indent).utf8ByteSize = width := by
    have hopen : " = \x7b ".utf8ByteSize = 5 := by decide
    simp only [l, width, Line.code, String.utf8ByteSize_append, hopen]
  have hgap : column - width = l.gap indent column := by
    show _ = max (column - (l.code indent).utf8ByteSize) 0
    rw [hwidth, Nat.max_zero]
  have hline := toList_text l hgap
  simp [chars, hline, l, Line.code, Line.description]

/-- The characters of a row of lines, each of them ended. -/
def charsOfLines (indent : String) (column : Nat) (lines : List Line) : List Char :=
  lines.flatMap fun l => (l.text indent column).toList ++ ['\n']

theorem charsOfLines_append (lines lines' : List Line) :
    charsOfLines indent column (lines ++ lines') =
      charsOfLines indent column lines ++ charsOfLines indent column lines' :=
  List.flatMap_append

theorem piecesAll_append (indent : String) (column : Nat) (xs ys : List Outline) :
    piecesAll indent column (xs ++ ys) =
      piecesAll indent column xs ++ piecesAll indent column ys := by
  induction xs with
  | nil => simp [piecesAll]
  | cons x xs ih => simp [piecesAll, ih]

mutual

theorem chars_outline (s : Store) (indent : String) (column : Nat) : ∀ (x : Tree) (depth : Nat),
    chars (piecesAll (indentAt indent depth) column (x.outline s)) =
      charsOfLines indent column (x.lines s depth)
  | .node id e es bs, depth => by
    unfold Tree.outline Tree.lines
    cases e.isFunction with
    | true => rfl
    | false =>
      cases e.isScope with
      | true =>
        have hinside := chars_outlineAll s indent column es (depth + 1)
        have hopening := chars_opening indent column id e depth
        simp only [Bool.false_eq_true, if_false, if_true, piecesAll, pieces, indentAt_succ,
          List.append_nil, charsOfLines_append]
        rw [chars_append, chars_append, hopening, hinside]
        simp [charsOfLines, chars, Line.text, Line.description, Line.code]
      | false =>
        cases e.serialized s with
        | error _ => rfl
        | ok text =>
          have hvalue := chars_value indent column id e depth text
          simpa [piecesAll, charsOfLines] using hvalue

theorem chars_outlineAll (s : Store) (indent : String) (column : Nat) :
    ∀ (xs : List Tree) (depth : Nat),
      chars (piecesAll (indentAt indent depth) column (Tree.outlineAll s xs)) =
        charsOfLines indent column (Tree.linesAll s depth xs)
  | [], _ => by simp [Tree.outlineAll, Tree.linesAll, piecesAll, charsOfLines, chars]
  | x :: xs, depth => by
    rw [Tree.outlineAll, Tree.linesAll, piecesAll_append, chars_append, charsOfLines_append,
      chars_outline s indent column x depth, chars_outlineAll s indent column xs depth]

end

theorem toList_textOfLines (indent : String) (column : Nat) (lines : List Line) :
    (textOfLines indent column lines).toList = charsOfLines indent column lines := by
  simp [textOfLines, charsOfLines, List.flatMap_map]

theorem join_eq_textOfLines {row : List String} {lines : List Line}
    (h : chars row = charsOfLines indent column lines) :
    String.join row = textOfLines indent column lines := by
  apply String.toList_inj.mp
  rw [toList_textOfLines, String.toList_join]
  exact h

/-- The text of a listing is that of its lines. -/
theorem join_outline (x : Tree) (s : Store) (indent : String) (column : Nat) :
    String.join (piecesAll indent column (x.outline s)) =
      textOfLines indent column (x.lines s 0) := by
  have hchars := chars_outline s indent column x 0
  rw [indentAt_zero] at hchars
  exact join_eq_textOfLines hchars

theorem join_outlineAll (xs : List Tree) (s : Store) (indent : String) (column : Nat) :
    String.join (piecesAll indent column (Tree.outlineAll s xs)) =
      textOfLines indent column (Tree.linesAll s 0 xs) := by
  have hchars := chars_outlineAll s indent column xs 0
  rw [indentAt_zero] at hchars
  exact join_eq_textOfLines hchars

end Listing

/-! ## What the lines are about -/

namespace Table

variable {t : Table} {s : Store} {id : EntryId} {x : Tree}

/-- Reached from an entry through so many steps, each of them to a registered child. -/
inductive RegistersAt (t : Table) : EntryId → Nat → EntryId → Prop
  | self {id : EntryId} : RegistersAt t id 0 id
  | under {top c id : EntryId} {ids : List EntryId} {n : Nat} (found : t.entries top = .ok ids)
      (mem : c ∈ ids) (rest : RegistersAt t c n id) : RegistersAt t top (n + 1) id

theorem registersAt_iff {top : EntryId} {ids : List EntryId} (found : t.entries top = .ok ids)
    {n : Nat} : t.RegistersAt top n id ↔
      (n = 0 ∧ id = top) ∨ ∃ m, n = m + 1 ∧ ∃ c ∈ ids, t.RegistersAt c m id := by
  constructor
  · intro h
    cases h with
    | self => exact Or.inl ⟨rfl, rfl⟩
    | @under _ c _ _ m found' mem rest =>
      obtain rfl := Except.ok.inj (found.symm.trans found')
      exact Or.inr ⟨m, rfl, c, mem, rest⟩
  · rintro (⟨rfl, rfl⟩ | ⟨m, rfl, c, mem, rest⟩)
    · exact .self
    · exact .under found mem rest

/-- The line says of its entry what the table has of it. -/
def Tells (t : Table) (s : Store) : Line → Prop
  | .value id e _ text => t.get? id = some e ∧ e.isScalar = true ∧ e.serialized s = .ok text
  | .opening id e _ | .closing id e _ => t.get? id = some e ∧ e.isScope = true

/-- A tree without children has a line if it is a value, and no other. -/
theorem mem_lines_leaf {e : Entry} (live : t.get? id = some e) (plain : e.scope? = none) {l : Line}
    {depth : Nat} : l ∈ (Tree.node id e [] []).lines s depth ↔
      l.id = id ∧ l.depth = depth ∧ t.Tells s l := by
  have hscope := isScope_of_plain plain
  unfold Tree.lines
  rw [hscope]
  constructor
  · intro hmem
    cases hf : e.isFunction with
    | true => simp [hf] at hmem
    | false =>
      obtain ⟨hscalar, text, htext⟩ := exists_serialized_of_plain hscope hf s
      obtain rfl : l = .value id e depth text := by simpa [hf, htext] using hmem
      exact ⟨rfl, rfl, live, hscalar, htext⟩
  · rintro ⟨rfl, rfl, htells⟩
    cases l with
    | value id e' depth text =>
      obtain ⟨live', hscalar, htext⟩ := htells
      obtain rfl := Option.mem_unique live live'
      have hf : e.isFunction = false := by simpa [Entry.isScalar, hscope] using hscalar
      simp [hf, htext, Line.id, Line.depth]
    | opening id e' depth | closing id e' depth =>
      obtain ⟨live', hscope'⟩ := htells
      obtain rfl := Option.mem_unique live live'
      exact absurd (hscope.symm.trans hscope') Bool.false_ne_true

/-- A scope has two lines, with those of its registered children between them. -/
theorem mem_lines_scope {e : Entry} {b : ScopeBody} {es bs : List Tree} (live : t.get? id = some e)
    (body : e.scope? = some b) {l : Line} {depth : Nat} :
    l ∈ (Tree.node id e es bs).lines s depth ↔
      (l.id = id ∧ l.depth = depth ∧ t.Tells s l) ∨ ∃ y ∈ es, l ∈ y.lines s (depth + 1) := by
  have hscope := isScope_of_scope? body
  have hown : l = .opening id e depth ∨ l = .closing id e depth ↔
      l.id = id ∧ l.depth = depth ∧ t.Tells s l := by
    constructor
    · rintro (rfl | rfl) <;> exact ⟨rfl, rfl, live, hscope⟩
    · rintro ⟨rfl, rfl, htells⟩
      cases l with
      | value id e' depth text =>
        obtain ⟨live', hscalar, -⟩ := htells
        obtain rfl := Option.mem_unique live live'
        simp [Entry.isScalar, hscope] at hscalar
      | opening id e' depth =>
        obtain rfl := Option.mem_unique live htells.1
        exact Or.inl rfl
      | closing id e' depth =>
        obtain rfl := Option.mem_unique live htells.1
        exact Or.inr rfl
  rw [← hown]
  simp only [Tree.lines, isFunction_of_scope? body, hscope, Bool.false_eq_true, if_false, if_true,
    Tree.linesAll_eq, List.cons_append, List.mem_cons, List.mem_append, List.mem_flatMap,
    List.not_mem_nil, or_false]
  rw [or_assoc, or_comm (b := l = .closing id e depth)]

/-- The lines of a tree are those of the values and scopes that are reached, as deep as there are
steps on the way. -/
theorem Holds.mem_lines (hx : t.Holds x) {l : Line} {depth : Nat} : l ∈ x.lines s depth ↔
    ∃ n, t.RegistersAt x.id n l.id ∧ l.depth = depth + n ∧ t.Tells s l := by
  have found := hx.entries_eq
  induction hx generalizing depth with
  | @leaf id e live plain =>
    simp only [mem_lines_leaf live plain, registersAt_iff found]
    constructor
    · rintro ⟨hid, hdepth, htells⟩
      exact ⟨0, Or.inl ⟨rfl, hid⟩, hdepth, htells⟩
    · rintro ⟨n, ⟨rfl, hid⟩ | ⟨_, _, c, hc, _⟩, hdepth, htells⟩
      · exact ⟨hid, hdepth, htells⟩
      · exact absurd hc List.not_mem_nil
  | @scope id e b es bs live body entries builtins held ih =>
    have inner (y : Tree) (hy : y ∈ es) : l ∈ y.lines s (depth + 1) ↔
        ∃ n, t.RegistersAt y.id n l.id ∧ l.depth = depth + 1 + n ∧ t.Tells s l :=
      have hmem := List.mem_append_left bs hy
      ih y hmem (held y hmem).entries_eq
    simp only [mem_lines_scope live body, registersAt_iff found]
    constructor
    · rintro (⟨hid, hdepth, htells⟩ | ⟨y, hy, hmem⟩)
      · exact ⟨0, Or.inl ⟨rfl, hid⟩, hdepth, htells⟩
      · obtain ⟨n, hreach, hdepth, htells⟩ := (inner y hy).mp hmem
        refine ⟨n + 1, Or.inr ⟨n, rfl, y.id, List.mem_map_of_mem hy, hreach⟩, ?_, htells⟩
        rw [hdepth, Nat.add_assoc, Nat.add_comm 1]
    · rintro ⟨n, ⟨rfl, hid⟩ | ⟨m, rfl, c, hc, hreach⟩, hdepth, htells⟩
      · exact Or.inl ⟨hid, hdepth, htells⟩
      · obtain ⟨y, hy, rfl⟩ := List.mem_map.mp hc
        refine Or.inr ⟨y, hy, (inner y hy).mpr ⟨m, hreach, ?_, htells⟩⟩
        rw [hdepth, Nat.add_assoc, Nat.add_comm 1]

/-- The lines of a row of trees tell what the table has. -/
theorem Holds.tells_of_mem_linesAll (hx : t.Holds x) {l : Line} {depth : Nat}
    (h : l ∈ Tree.linesAll s depth x.entries) : t.Tells s l := by
  cases x with
  | node id e es bs =>
    rw [Tree.linesAll_eq] at h
    obtain ⟨y, hy, hl⟩ := List.mem_flatMap.mp h
    obtain ⟨_, -, -, htells⟩ := (hx.held y (List.mem_append_left bs hy)).mem_lines.mp hl
    exact htells

theorem filterMap_linesAll {xs : List Tree} {depth : Nat}
    (h : ∀ y ∈ xs, (y.lines s depth).filterMap Line.setting? = y.settings) :
    (Tree.linesAll s depth xs).filterMap Line.setting? = Tree.settingsAll xs := by
  rw [Tree.linesAll_eq, Tree.settingsAll_eq, List.filterMap_flatMap]
  exact List.flatMap_congr h

/-- The lines of values are those of the settings of the tree, in the same order. -/
theorem Holds.settings_lines (hx : t.Holds x) (s : Store) (depth : Nat) :
    (x.lines s depth).filterMap Line.setting? = x.settings := by
  induction hx generalizing depth with
  | @leaf id e live plain =>
    have hscope := isScope_of_plain plain
    cases hf : e.isFunction with
    | true => simp [Tree.lines, Tree.settings, Tree.settingsAll, Entry.isScalar, hf]
    | false =>
      obtain ⟨hscalar, text, htext⟩ := exists_serialized_of_plain hscope hf s
      simp [Tree.lines, Tree.settings, Tree.settingsAll, hf, hscope, hscalar, htext, Line.setting?]
  | @scope id e b es bs live body entries builtins held ih =>
    have hscope := isScope_of_scope? body
    have hrow : (Tree.linesAll s (depth + 1) es).filterMap Line.setting? = Tree.settingsAll es :=
      filterMap_linesAll fun y hy => ih y (List.mem_append_left bs hy) (depth + 1)
    simp [Tree.lines, Tree.settings, isFunction_of_scope? body, hscope, Entry.isScalar, hrow,
      List.filterMap_cons, Line.setting?]

theorem Holds.settings_linesAll (hx : t.Holds x) (s : Store) (depth : Nat) :
    (Tree.linesAll s depth x.entries).filterMap Line.setting? = Tree.settingsAll x.entries := by
  cases x with
  | node id e es bs =>
    refine filterMap_linesAll fun y hy => ?_
    exact (hx.held y (List.mem_append_left bs hy)).settings_lines s depth

end Table

end Settings

import Settings.Proofs.Listing.Lines
import Settings.Text.Path

/-!
# Columns of comments

A comment is moved to its column by spaces, and how many it takes is reckoned from the bytes of the
code in front of it. `Line.Commented` says what comes of that. In bytes every comment starts at the
column, or right behind its code if that is too long. In characters it does so only as long as the
code has no character of more than one byte, or reaches the column anyway; behind other code it
starts too early, and the comments of a listing then do not stand in line.

This is shown of every line of a listing (`Table.comments_start_at_byte_columns`), and since what
is listed has no line breaks of its own, the lines are just those that the text has.
-/

set_option autoImplicit false

namespace Settings

/-! ## Bytes and characters -/

/-- No character takes more than one byte. -/
def Ascii (text : String) : Prop := ∀ c ∈ text.toList, c.val ≤ 127

instance (text : String) : Decidable (Ascii text) :=
  inferInstanceAs (Decidable (∀ c ∈ text.toList, c.val ≤ 127))

theorem utf8ByteSize_ofList_cons (c : Char) (cs : List Char) :
    (String.ofList (c :: cs)).utf8ByteSize = c.utf8Size + (String.ofList cs).utf8ByteSize := by
  rw [String.ofList_cons, String.utf8ByteSize_append, String.utf8ByteSize_singleton]

theorem length_le_utf8ByteSize_ofList (cs : List Char) :
    cs.length ≤ (String.ofList cs).utf8ByteSize := by
  induction cs with
  | nil => exact Nat.zero_le _
  | cons c cs ih =>
    have hc : 1 ≤ c.utf8Size := c.utf8Size_pos
    rw [utf8ByteSize_ofList_cons, List.length_cons, Nat.add_comm]
    exact Nat.add_le_add hc ih

theorem utf8ByteSize_ofList_eq_length (cs : List Char) :
    (String.ofList cs).utf8ByteSize = cs.length ↔ ∀ c ∈ cs, c.val ≤ 127 := by
  induction cs with
  | nil => simp
  | cons c cs ih =>
    have hc : 1 ≤ c.utf8Size := c.utf8Size_pos
    have hcs := length_le_utf8ByteSize_ofList cs
    have hparts : (String.ofList (c :: cs)).utf8ByteSize = (c :: cs).length ↔
        c.utf8Size = 1 ∧ (String.ofList cs).utf8ByteSize = cs.length := by
      rw [utf8ByteSize_ofList_cons, List.length_cons]
      omega
    rw [hparts, ih, Char.utf8Size_eq_one_iff, List.forall_mem_cons]

theorem length_le_utf8ByteSize (text : String) : text.length ≤ text.utf8ByteSize := by
  have h := length_le_utf8ByteSize_ofList text.toList
  rwa [String.ofList_toList, String.length_toList] at h

theorem utf8ByteSize_eq_length (text : String) :
    text.utf8ByteSize = text.length ↔ Ascii text := by
  have h := utf8ByteSize_ofList_eq_length text.toList
  rwa [String.ofList_toList, String.length_toList] at h

/-! ## Lines -/

/-- The entry has no line break in what is listed of it. -/
structure Entry.OneLine (s : Store) (e : Entry) : Prop where
  name : '\n' ∉ e.name.toList
  description : '\n' ∉ e.description.toList
  saved : e.isScalar = true → ∀ text ∈ (e.serialized s).toOption, '\n' ∉ text.toList

instance (s : Store) (e : Entry) : Decidable (e.OneLine s) :=
  decidable_of_iff ('\n' ∉ e.name.toList ∧ '\n' ∉ e.description.toList ∧
      (e.isScalar = true → ∀ text ∈ (e.serialized s).toOption, '\n' ∉ text.toList))
    ⟨fun ⟨name, description, saved⟩ => ⟨name, description, saved⟩,
      fun h => ⟨h.name, h.description, h.saved⟩⟩

namespace Listing

variable {indent : String} {column : Nat}

namespace Line

/-- Where the comment of a line starts. -/
structure Commented (indent : String) (column : Nat) (l : Line) : Prop where
  /-- Nothing but the code and spaces stands before the comment. -/
  parts : (l.text indent column).toList = (l.code indent).toList ++
    List.replicate (l.gap indent column) ' ' ++ "// ".toList ++ l.description.toList
  /-- In bytes it starts at the column, unless its code is too long. -/
  bytes : (l.code indent).utf8ByteSize + l.gap indent column =
    max column ((l.code indent).utf8ByteSize + l.leastGap)
  /-- In characters it does so if these are bytes, or the code is too long anyway. -/
  characters : (l.code indent).length + l.gap indent column =
      max column ((l.code indent).length + l.leastGap) ↔
    Ascii (l.code indent) ∨ column ≤ (l.code indent).length + l.leastGap
  /-- It is never too far to the right. -/
  early : (l.code indent).length + l.gap indent column ≤
    max column ((l.code indent).length + l.leastGap)

theorem commented (l : Line) (h : l.description ≠ "") (indent : String) (column : Nat) :
    l.Commented indent column := by
  have hsize := length_le_utf8ByteSize (l.code indent)
  have hgap : l.gap indent column =
      max (column - (l.code indent).utf8ByteSize) l.leastGap := rfl
  constructor
  case parts =>
    rw [text, if_neg h]
    simp
  case bytes =>
    rw [hgap]
    omega
  case characters =>
    -- every byte that is not a character of its own costs the comment a space
    rw [← utf8ByteSize_eq_length, hgap]
    omega
  case early =>
    rw [hgap]
    omega

end Line

/-- A text of lines without line breaks of their own is taken apart into just these lines. -/
theorem splitChars_textOfLines {lines : List Line}
    (h : ∀ l ∈ lines, '\n' ∉ (l.text indent column).toList) :
    splitChars '\n' (textOfLines indent column lines).toList =
      lines.map (fun l => (l.text indent column).toList) ++ [[]] := by
  rw [toList_textOfLines]
  induction lines with
  | nil => rfl
  | cons l lines ih =>
    obtain ⟨hl, hlines⟩ := List.forall_mem_cons.mp h
    have hchars : charsOfLines indent column (l :: lines) =
        (l.text indent column).toList ++ '\n' :: charsOfLines indent column lines := by
      simp [charsOfLines]
    rw [hchars, splitChars_append hl, ih hlines]
    rfl

theorem not_mem_indentAt (h : '\n' ∉ indent.toList) (depth : Nat) :
    '\n' ∉ (indentAt indent depth).toList := by
  simp [indentAt, h]

/-- What is listed of an entry without line breaks has none. -/
theorem not_mem_text {t : Table} {s : Store} {l : Line} (hindent : '\n' ∉ indent.toList)
    (htells : t.Tells s l) (hentry : ∀ e, t.get? l.id = some e → e.OneLine s) :
    '\n' ∉ (l.text indent column).toList := by
  have hcode : '\n' ∉ (l.code indent).toList ∧ '\n' ∉ l.description.toList := by
    cases l with
    | value id e depth text =>
      have hspace := not_mem_indentAt hindent depth
      obtain ⟨live, hscalar, htext⟩ := htells
      have he := hentry e live
      have hsaved := he.saved hscalar text (by simp [htext, Except.toOption])
      refine ⟨?_, he.description⟩
      simpa [Line.code, he.name, hsaved] using hspace
    | opening id e depth =>
      have hspace := not_mem_indentAt hindent depth
      have he := hentry e htells.1
      refine ⟨?_, he.description⟩
      simpa [Line.code, he.name] using hspace
    | closing id e depth =>
      have hspace := not_mem_indentAt hindent depth
      refine ⟨?_, by simp [Line.description]⟩
      simpa [Line.code] using hspace
  unfold Line.text
  split
  · exact hcode.1
  · simp [hcode.1, hcode.2]

end Listing

/-! ## The comments of a listing -/

namespace Table

open Listing

variable {t : Table} {s : Store}

/-- The lines of a listing: what each is about, the lines there are, and their comments. -/
structure ListsLines (t : Table) (s : Store) (top : EntryId) (indent : String) (column : Nat)
    (lines : List Line) : Prop where
  mem_lines : ∀ l, l ∈ lines ↔ t.RegistersAt top l.depth l.id ∧ t.Tells s l
  /-- What has a description and is a value or a scope has a line with a comment. -/
  described : ∀ n y e, t.RegistersAt top n y → t.get? y = some e → e.isFunction = false →
    e.description ≠ "" →
    ∃ l ∈ lines, l.id = y ∧ l.depth = n ∧ l.description = e.description
  commented : ∀ l ∈ lines, l.description ≠ "" → l.Commented indent column

/-- A value or a scope has a line that tells its description. -/
theorem exists_tells {y : EntryId} {e : Entry} (live : t.get? y = some e)
    (listed : e.isFunction = false) (s : Store) (n : Nat) :
    ∃ l, t.Tells s l ∧ l.id = y ∧ l.depth = n ∧ l.description = e.description := by
  cases hscope : e.isScope with
  | true => exact ⟨.opening y e n, ⟨live, hscope⟩, rfl, rfl, rfl⟩
  | false =>
    obtain ⟨hscalar, text, htext⟩ := exists_serialized_of_plain hscope listed s
    exact ⟨.value y e n text, ⟨live, hscalar, htext⟩, rfl, rfl, rfl⟩

theorem Holds.listsLines {x : Tree} (hx : t.Holds x) (s : Store) (indent : String) (column : Nat) :
    t.ListsLines s x.id indent column (x.lines s 0) := by
  have mem_lines (l : Line) : l ∈ x.lines s 0 ↔ t.RegistersAt x.id l.depth l.id ∧ t.Tells s l := by
    rw [hx.mem_lines]
    simp only [Nat.zero_add]
    constructor
    · rintro ⟨n, hreach, rfl, htells⟩
      exact ⟨hreach, htells⟩
    · rintro ⟨hreach, htells⟩
      exact ⟨_, hreach, rfl, htells⟩
  constructor
  case mem_lines => exact mem_lines
  case described =>
    intro n y e hreach live listed _
    obtain ⟨l, htells, rfl, rfl, hdescription⟩ := exists_tells live listed s n
    exact ⟨l, (mem_lines l).mpr ⟨hreach, htells⟩, rfl, rfl, hdescription⟩
  case commented => exact fun l _ h => l.commented h indent column

/-- A listing has one line for every value and two for every scope that is reached, and the comment
of a line starts at the column, or at the end of its code if that is further, where code is measured
in bytes. Measured in characters it starts there just if the code is ASCII or reaches the column. -/
theorem comments_start_at_byte_columns (h : t.Reachable) {top : EntryId} {e : Entry}
    (live : t.get? top = some e) {indent : String} (hindent : '\n' ∉ indent.toList)
    (hlines : ∀ n y e, t.RegistersAt top n y → t.get? y = some e → e.OneLine s) (column : Nat) :
    ∃ row lines, t.listing s top indent column = .ok row ∧
      splitChars '\n' (String.join row).toList =
        lines.map (fun l => (l.text indent column).toList) ++ [[]] ∧
      t.ListsLines s top indent column lines := by
  obtain ⟨x, htree⟩ := h.sound.exists_tree live
  obtain ⟨⟨hx, -⟩, rfl⟩ := tree_eq_ok_iff.mp htree
  have hlists := hx.listsLines s indent column
  refine ⟨_, x.lines s 0, listing_of_tree htree s indent column, ?_, hlists⟩
  rw [join_outline]
  apply splitChars_textOfLines
  intro l hl
  obtain ⟨hreach, htells⟩ := (hlists.mem_lines l).mp hl
  exact not_mem_text hindent htells fun e => hlines _ _ e hreach

end Table

/-- In a scope with a number that has a Greek name all comments start at the same byte. -/
theorem Session.comments_of_pop_start_at_byte_columns :
    let s := (fresh "root" "").after
      [.ask (.register Table.root "pop" "Population settings" (.scope "")),
        .ask (.register ⟨1⟩ "size" "Number of organisms" .number),
        .ask (.register ⟨1⟩ "β" "Selection strength" .number)]
    ∃ row lines, s.table.listing s.store ⟨1⟩ "> " 20 = .ok row ∧
      String.join row = "> pop = \x7b           // Population settings\n" ++
        ">   size = 0;       // Number of organisms\n" ++
        ">   β = 0;         // Selection strength\n" ++ "> \x7d\n" ∧
      splitChars '\n' (String.join row).toList =
        lines.map (fun l => (l.text "> " 20).toList) ++ [[]] ∧
      s.table.ListsLines s.store ⟨1⟩ "> " 20 lines := by
  intro s
  have h : s.table.Reachable := ⟨"root", "", _, rfl⟩
  obtain ⟨e, live⟩ : ∃ e, s.table.get? ⟨1⟩ = some e :=
    Option.isSome_iff_exists.mp (by decide +kernel)
  have hentries : ∀ i < s.table.slots.size, ∀ e ∈ s.table.get? ⟨i⟩, e.OneLine s.store := by
    decide +kernel
  have hindent : '\n' ∉ "> ".toList := by decide
  obtain ⟨row, lines, hrow, hlines, hlists⟩ :=
    Table.comments_start_at_byte_columns h live hindent
      (fun _ y e _ live => hentries y.index (Table.index_lt_of_get? live) e live) 20
  have htext : (s.table.listing s.store ⟨1⟩ "> " 20).map String.join =
      .ok ("> pop = \x7b           // Population settings\n" ++
        ">   size = 0;       // Number of organisms\n" ++
        ">   β = 0;         // Selection strength\n" ++ "> \x7d\n") := by
    decide +kernel
  rw [hrow] at htext
  exact ⟨row, lines, hrow, Except.ok.inj htext, hlines, hlists⟩

/-- A name with a character of two bytes moves its comment one column to the left of the column that
is asked for, and out of line with that of the same value under another name. -/
theorem Session.comment_of_beta_is_out_of_line :
    let s := (fresh "root" "").after
      [.ask (.register Table.root "b" "Selection strength" .number),
        .ask (.register Table.root "β" "Selection strength" .number)]
    let spaces (n : Nat) := String.ofList (List.replicate n ' ')
    (s.table.listing s.store ⟨1⟩ "" 40).map String.join =
        .ok ("b = 0;" ++ spaces 34 ++ "// Selection strength\n") ∧
      ("b = 0;" ++ spaces 34).length = max 40 ("b = 0;".length + 1) ∧
    (s.table.listing s.store ⟨2⟩ "" 40).map String.join =
        .ok ("β = 0;" ++ spaces 33 ++ "// Selection strength\n") ∧
      ("β = 0;" ++ spaces 33).length < max 40 ("β = 0;".length + 1) := by
  decide +kernel

end Settings

import Settings.Cli
import Settings.Proofs.Host.Arguments

/-!
# Options of the command line

The options of the command that prints the demonstration are read word by word. `Chosen` are the
words that are a row of well-formed options, with the columns and the assignments that they hold,
each in order. `Malformed` are the words that go well up to an option which is not, with what is
said of this one; nothing is said of the words behind it. All words are the one or the other
(`chosen_or_malformed`), and the reader answers accordingly. What a column is, is said in terms of
its digits (`SpellsColumn`) and not by the reader.
-/

set_option autoImplicit false

namespace Settings

namespace Cli

/-- Decimal digits, perhaps behind a plus sign, of a number that fits into a machine word. -/
def SpellsColumn (text : String) (n : Nat) : Prop :=
  ∃ digits, DigitRow digits ∧ (text.toList = digits ∨ text.toList = '+' :: digits) ∧
    digitsValue digits = n ∧ n < 2 ^ 64

theorem intNumeral?_false_eq_some_iff {cs : List Char} {k : Int} :
    intNumeral? false cs = some k ↔ ∃ digits, DigitRow digits ∧
      (cs = digits ∨ cs = '+' :: digits) ∧ (digitsValue digits : Int) = k := by
  constructor
  · intro h
    cases spells_of_intNumeral? h with
    | plain row => exact ⟨_, row, .inl rfl, rfl⟩
    | plus row => exact ⟨_, row, .inr rfl, rfl⟩
    | minus row => cases h
  · rintro ⟨digits, row, rfl | rfl, rfl⟩
    · exact intNumeral?_of_digitRow false row
    · simp [intNumeral?, natNumeral?_of_digitRow row]

/-- These are the texts that are read as columns. -/
theorem column?_eq_some_iff {text : String} {n : Nat} :
    column? text = some n ↔ SpellsColumn text n := by
  have inRange (m : Nat) : IntType.min .usize ≤ m ∧ (m : Int) ≤ IntType.max .usize ↔ m < 2 ^ 64 := by
    have hmin : IntType.min .usize = 0 := rfl
    have hmax : IntType.max .usize = 2 ^ 64 - 1 := rfl
    omega
  unfold column? SpellsColumn
  simp only [Option.map_eq_some_iff, Option.bind_eq_some_iff, intNumeral?_false_eq_some_iff]
  constructor
  · rintro ⟨v, ⟨_, ⟨digits, row, sign, rfl⟩, hv⟩, rfl⟩
    have hvalue : v.toInt = digitsValue digits := IntType.toInt_of_ofInt? hv
    have small := (inRange (digitsValue digits)).mp (hvalue ▸ v.2)
    exact ⟨digits, row, sign, by omega, by omega⟩
  · rintro ⟨digits, row, sign, rfl, small⟩
    have hrange := (inRange (digitsValue digits)).mpr small
    exact ⟨⟨digitsValue digits, hrange⟩, ⟨_, ⟨digits, row, sign, rfl⟩, dif_pos hrange⟩, rfl⟩

inductive Chosen : (words : List String) → (columns : List Nat) → (assignments : List String) → Prop
  | nil : Chosen [] [] []
  | column {text : String} {n : Nat} {words assignments : List String} {columns : List Nat}
      (number : SpellsColumn text n) (rest : Chosen words columns assignments) :
      Chosen ("--column" :: text :: words) (n :: columns) assignments
  | set {assignment : String} {words assignments : List String} {columns : List Nat}
      (rest : Chosen words columns assignments) :
      Chosen ("--set" :: assignment :: words) columns (assignment :: assignments)

inductive Malformed : (words : List String) → (messages : List String) → Prop
  | column {text : String} {words : List String} (number : ∀ n, ¬ SpellsColumn text n) :
      Malformed ("--column" :: text :: words)
        ["error: --column expects a number, found '" ++ text ++ "'"]
  /-- A word that is no option, or an option whose value is missing. -/
  | unexpected {word : String} {words : List String}
      (other : word ≠ "--column" ∧ word ≠ "--set" ∨ words = []) :
      Malformed (word :: words) ["error: unexpected argument '" ++ word ++ "'",
        "Usage: knob example [--column N] [--set path=value]..."]
  | behindColumn {text : String} {n : Nat} {words messages : List String}
      (number : SpellsColumn text n) (rest : Malformed words messages) :
      Malformed ("--column" :: text :: words) messages
  | behindSet {assignment : String} {words messages : List String}
      (rest : Malformed words messages) :
      Malformed ("--set" :: assignment :: words) messages

theorem chosen_or_malformed : ∀ words : List String,
    (∃ columns assignments, Chosen words columns assignments) ∨ ∃ messages, Malformed words messages
  | [] => .inl ⟨_, _, .nil⟩
  | [word] => .inr ⟨_, .unexpected (.inr rfl)⟩
  | word :: value :: words => by
    by_cases hcolumn : word = "--column"
    · subst hcolumn
      cases number : column? value with
      | none =>
        have malformed (n : Nat) (spells : SpellsColumn value n) : False :=
          absurd (number.symm.trans (column?_eq_some_iff.mpr spells)) nofun
        exact .inr ⟨_, .column malformed⟩
      | some n =>
        replace number := column?_eq_some_iff.mp number
        rcases chosen_or_malformed words with ⟨columns, assignments, rest⟩ | ⟨messages, rest⟩
        · exact .inl ⟨_, _, .column number rest⟩
        · exact .inr ⟨_, .behindColumn number rest⟩
    · by_cases hset : word = "--set"
      · subst hset
        rcases chosen_or_malformed words with ⟨columns, assignments, rest⟩ | ⟨messages, rest⟩
        · exact .inl ⟨_, _, .set rest⟩
        · exact .inr ⟨_, .behindSet rest⟩
      · exact .inr ⟨_, .unexpected (.inl ⟨hcolumn, hset⟩)⟩

/-- The last column counts, and every assignment. -/
theorem Chosen.options {words assignments : List String} {columns : List Nat}
    (h : Chosen words columns assignments) (so : Options) :
    options so words =
      .ok ⟨columns.getLast?.getD so.column, so.assignments ++ assignments⟩ := by
  induction h generalizing so with
  | nil => simp [Cli.options]
  | @column text n words assignments columns number rest ih =>
    simp only [Cli.options, column?_eq_some_iff.mpr number]
    rw [ih, List.getLast?_cons, Option.getD_some]
  | set rest ih =>
    simp only [Cli.options]
    rw [ih, List.append_assoc, List.singleton_append]

theorem Malformed.options {words messages : List String} (h : Malformed words messages)
    (so : Options) : options so words = .error messages := by
  induction h generalizing so with
  | @column text words number =>
    have unread : column? text = none := by
      refine Option.eq_none_iff_forall_ne_some.mpr fun n hread => ?_
      exact number n (column?_eq_some_iff.mp hread)
    simp only [Cli.options, unread]
  | @unexpected word words other =>
    unfold Cli.options
    split
    · rename_i hwords
      cases hwords
    · rename_i hwords
      obtain ⟨rfl, rfl⟩ := List.cons.inj hwords
      simp at other
    · rename_i hwords
      obtain ⟨rfl, rfl⟩ := List.cons.inj hwords
      simp at other
    · rename_i hwords
      obtain ⟨rfl, rfl⟩ := List.cons.inj hwords
      rfl
  | behindColumn number rest ih =>
    simp only [Cli.options, column?_eq_some_iff.mpr number]
    exact ih _
  | behindSet rest ih =>
    simp only [Cli.options]
    exact ih _

end Cli

end Settings

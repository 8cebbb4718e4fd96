import Settings.Proofs.Number.Nearest
import Settings.Proofs.Number.Numerals

/-!
# Texts that spell integers

An integer is spelled by decimal digits, as many as one likes, after an optional sign (`Spells`).
Where an integer is asked for, these are the texts that are read, and they are read as the integer;
where the type has no integers below zero, the minus sign is not read. Where a number is asked for,
such a text is read as the number nearest to the integer (`Spells.exists_number`).
-/

set_option autoImplicit false

namespace Settings

inductive Spells : List Char → Int → Prop
  | plain {cs : List Char} (row : DigitRow cs) : Spells cs (digitsValue cs)
  | plus {cs : List Char} (row : DigitRow cs) : Spells ('+' :: cs) (digitsValue cs)
  | minus {cs : List Char} (row : DigitRow cs) : Spells ('-' :: cs) (-(digitsValue cs : Int))

variable {cs : List Char} {n : Int}

theorem digitRow_of_natNumeral? {m : Nat} (h : natNumeral? cs = some m) :
    DigitRow cs ∧ m = digitsValue cs := by
  unfold natNumeral? at h
  split at h
  · rename_i hrow
    exact ⟨⟨hrow.1, List.all_eq_true.mp hrow.2⟩, (Option.some.inj h).symm⟩
  · exact absurd h (by simp)

/-- A text that is read as an integer spells it. -/
theorem spells_of_intNumeral? {minus : Bool} (h : intNumeral? minus cs = some n) : Spells cs n := by
  unfold intNumeral? at h
  split at h
  case h_1 =>
    obtain ⟨m, hm, rfl⟩ := Option.map_eq_some_iff.mp h
    obtain ⟨row, rfl⟩ := digitRow_of_natNumeral? hm
    exact .plus row
  case h_2 =>
    split at h
    · obtain ⟨m, hm, rfl⟩ : ∃ m : Nat, natNumeral? _ = some m ∧ -(m : Int) = n := by
        simpa [Option.bind_eq_some_iff] using h
      obtain ⟨row, rfl⟩ := digitRow_of_natNumeral? hm
      exact .minus row
    · exact absurd h (by simp)
  case h_3 =>
    obtain ⟨m, hm, rfl⟩ := Option.map_eq_some_iff.mp h
    obtain ⟨row, rfl⟩ := digitRow_of_natNumeral? hm
    exact .plain row

namespace Spells

/-- A text that spells an integer is read as the integer, if the minus sign is read. -/
theorem intNumeral? (h : Spells cs n) (minus : Bool) :
    Settings.intNumeral? minus cs = some n ∨
      (Settings.intNumeral? minus cs = none ∧ minus = false ∧ n ≤ 0) := by
  cases h with
  | plain row => exact Or.inl (intNumeral?_of_digitRow minus row)
  | plus row => exact Or.inl (by simp [Settings.intNumeral?, natNumeral?_of_digitRow row])
  | minus row =>
    cases minus with
    | true => exact Or.inl (by simp [Settings.intNumeral?, natNumeral?_of_digitRow row])
    | false => exact Or.inr ⟨rfl, rfl, by omega⟩

/-- As a numeral it has the sign and the magnitude of the integer. -/
theorem ofChars? (h : Spells cs n) :
    ∃ s m, Numeral.ofChars? cs = some (.decimal s m 0) ∧ Binary.signed s m = n := by
  cases h with
  | plain row =>
    obtain ⟨c, rest, rfl, hc⟩ := row.head
    exact ⟨false, _, ofChars?_of_unsigned hc (unsignedNumeral?_whole false row), rfl⟩
  | plus row =>
    refine ⟨false, _, ?_, rfl⟩
    unfold Numeral.ofChars?
    simp only [unsignedNumeral?_whole false row]
    rfl
  | minus row => exact ⟨true, _, ofChars?_minus (unsignedNumeral?_whole true row), rfl⟩

/-- Where a number is asked for, the text is read as the one that the integer is made into. -/
theorem exists_number {f : Format} {text : String} (h : Spells (trimBlanks text.toList) n) :
    ∃ x : Binary f, Binary.ofBlankText? text = some x ∧
      x.value? = (Binary.ofInt n : Binary f).value? := by
  obtain ⟨s, m, hread, rfl⟩ := h.ofChars?
  refine ⟨Binary.round s m 1, ?_, Binary.value?_round_signed s m⟩
  have hround : Binary.ofNumeral (.decimal s m 0) = (Binary.round s m 1 : Binary f) :=
    congrArg (Binary.round s · 1) (Nat.mul_one m)
  unfold Binary.ofBlankText?
  rw [hread, Option.map_some, hround]

end Spells

end Settings

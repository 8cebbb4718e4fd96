import Settings.Host.Type
import Settings.Proofs.Number.Numerals

/-!
# Values and their texts

The text of a value of a host type is read as that value: an integer exactly, however large, a
number with all of its digits, a flag by its word, and a text as it stands.
-/

set_option autoImplicit false

namespace Settings

theorem parseNumber_toText (x : Double) : parseNumber x.toText = .ok x := by
  unfold parseNumber
  rw [Binary.ofBlankText?_toText]

theorem IntType.ofInt?_toInt {t : IntType} (v : t.Value) : t.ofInt? v.toInt = some v :=
  dif_pos v.2

/-- The text of an integer is read as the integer, if the type has it. -/
theorem IntType.ofText?_eq_ofInt? (t : IntType) (n : Int) :
    t.ofText? (intText n) = t.ofInt? n := by
  unfold IntType.ofText?
  rw [trimBlanks_intText]
  by_cases hsign : 0 ≤ n ∨ t.isSigned = true
  · rw [intNumeral?_intText hsign]
    rfl
  · -- below zero, and a minus sign is not part of the numerals of the type
    obtain ⟨hneg, hunsigned⟩ := not_or.mp hsign
    have hmin : t.min = 0 := by simp [IntType.min, hunsigned]
    have hnone : t.ofInt? n = none := dif_neg (by omega)
    rw [intText_toList, if_pos (by omega), hnone]
    simp [intNumeral?, hunsigned]

theorem IntType.ofText?_intText {t : IntType} (v : t.Value) :
    t.ofText? (intText v.toInt) = some v := by
  rw [IntType.ofText?_eq_ofInt?, IntType.ofInt?_toInt]

namespace HostType

/-- What a value is printed as is read as the value. -/
theorem ofText_toText (t : HostType) (v : t.Carrier) : t.ofText (t.toText v) = .ok v := by
  cases t with
  | int t =>
    have hread := IntType.ofText?_intText v
    simp only [ofText, toText, hread]
  | single =>
    have hread := Binary.ofBlankText?_toText (v : Single)
    simp only [ofText, toText, hread]
  | double => exact parseNumber_toText v
  | bool => cases v <;> rfl
  | text => rfl

theorem ofText_of_isText {t : HostType} (h : t.isText = true) (text : String) :
    ∃ v, t.ofText text = .ok v := by
  cases t with
  | text => exact ⟨text, rfl⟩
  | int _ => cases h
  | single => cases h
  | double => cases h
  | bool => cases h

end HostType

end Settings

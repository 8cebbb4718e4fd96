import Settings.Proofs.Host.Arguments
import Settings.Proofs.Host.Variables

/-!
# Texts assigned to integer variables

A variable of an integer type can be given every text that spells an integer, of any length. Inside
the range of the type the digits are read exactly. Outside it, and for a minus sign where the type
knows none, the text is read as the number nearest to the integer, and this number is cut down to
the range. The two ways meet at the ends: the least value of a type and the number after its
greatest one are numbers of their own, so rounding does not carry an integer across either of them
(`IntType.ofNumber_of_le`, `IntType.ofNumber_of_gt`), and the variable gets the nearest integer that
it can have (`HostType.ofText_of_spells`).
-/

set_option autoImplicit false

namespace Settings

variable {t : IntType} {x : Double} {n : Int}

namespace IntType

/-! ## The nearest value of a type -/

theorem toInt_clamp (t : IntType) (n : Int) :
    (t.clamp n).toInt = Max.max t.min (Min.min t.max n) := rfl

theorem toInt_clamp_of_mem (low : t.min ≤ n) (high : n ≤ t.max) : (t.clamp n).toInt = n := by
  rw [toInt_clamp]
  omega

theorem toInt_clamp_of_le (h : n ≤ t.min) : (t.clamp n).toInt = t.min := by
  have := t.min_le_zero
  have := t.zero_le_max
  rw [toInt_clamp]
  omega

theorem toInt_clamp_of_ge (h : t.max ≤ n) : (t.clamp n).toInt = t.max := by
  have := t.min_le_zero
  have := t.zero_le_max
  rw [toInt_clamp]
  omega

theorem toInt_clamp_mono {m : Int} (h : n ≤ m) : (t.clamp n).toInt ≤ (t.clamp m).toInt := by
  rw [toInt_clamp, toInt_clamp]
  omega

theorem ofInt?_eq_some_clamp {v : t.Value} (h : t.ofInt? n = some v) : v = t.clamp n := by
  obtain rfl := toInt_of_ofInt? h
  exact Subtype.ext (toInt_clamp_of_mem v.2.1 v.2.2).symm

/-! ## Numbers past the ends -/

theorem ofNumber_eq_clamp (x : Double) : t.ofNumber x = t.clamp (x.saturate t.min t.max) := rfl

/-- A number that is not above the least value is made into it, an infinity too. -/
theorem ofNumber_of_le {v : Quantity} (hv : x.value? = some v) (h : v ≤ Quantity.ofInt t.min) :
    (t.ofNumber x).toInt = t.min := by
  rw [ofNumber_eq_clamp]
  refine toInt_clamp_of_le ?_
  rcases Binary.saturate_cases hv t.min t.max with ⟨k, whole, cut⟩ | ⟨-, low⟩ | ⟨rfl, -⟩
  · have hle : k ≤ t.min := Quantity.wholePart?_le whole h
    rw [cut]
    omega
  · exact low.le
  · exact absurd h (not_le.mpr (Quantity.lt_top _))

/-- A number that is not below the one after the greatest value is made into this value. -/
theorem ofNumber_of_gt {v : Quantity} (hv : x.value? = some v)
    (h : Quantity.ofInt (t.max + 1) ≤ v) : (t.ofNumber x).toInt = t.max := by
  rw [ofNumber_eq_clamp]
  refine toInt_clamp_of_ge ?_
  rcases Binary.saturate_cases hv t.min t.max with ⟨k, whole, cut⟩ | ⟨rfl, -⟩ | ⟨-, high⟩
  · have hle : t.max + 1 ≤ k := Quantity.le_wholePart? whole h
    rw [cut]
    omega
  · exact absurd h (not_le.mpr (Quantity.bot_lt _))
  · exact high.ge

/-- The number nearest to an integer that is no inner value of the type is made into the end that
is nearest to the integer. -/
theorem ofNumber_of_value?_eq (hx : x.value? = (Binary.ofInt n : Double).value?)
    (hn : n ≤ t.min ∨ t.max < n) : t.ofNumber x = t.clamp n := by
  obtain ⟨v, hv⟩ := Binary.exists_faithful_ofInt (f := .double) n
  have hvalue : x.value? = some v := hx.trans hv.value
  refine Subtype.ext ?_
  rcases hn with hle | hgt
  · have hmin : v ≤ Quantity.ofInt t.min :=
      hv.ge t.denotes_min.value? (Quantity.ofInt_le_ofInt.mpr hle)
    exact (ofNumber_of_le hvalue hmin).trans (toInt_clamp_of_le hle).symm
  · have hmax : Quantity.ofInt (t.max + 1) ≤ v :=
      hv.le t.denotes_past_max.value? (Quantity.ofInt_le_ofInt.mpr hgt)
    exact (ofNumber_of_gt hvalue hmax).trans (toInt_clamp_of_ge hgt.le).symm

end IntType

/-! ## Texts that spell integers -/

namespace HostType

variable {text : String}

/-- An integer variable takes the integer that the text spells if the type has it, and otherwise
what becomes of the number that the text spells. -/
theorem ofText_int (t : IntType) (text : String) : ofText (.int t) text =
    (t.ofText? text).elim ((parseNumber text).map t.ofNumber) .ok := by
  unfold ofText
  cases h : t.ofText? text with
  | some v =>
    simp only [h]
    rfl
  | none =>
    simp only [h]
    rfl

/-- A text that spells an integer is never refused. It gives the value that is nearest to the
integer. -/
theorem ofText_of_spells (h : Spells (trimBlanks text.toList) n) :
    ofText (.int t) text = .ok (t.clamp n) := by
  obtain ⟨x, hread, hx⟩ := h.exists_number (f := .double)
  have hnumber (hn : n ≤ t.min ∨ t.max < n) :
      (parseNumber text).map t.ofNumber = .ok (t.clamp n) := by
    unfold parseNumber
    rw [hread]
    exact congrArg Except.ok (IntType.ofNumber_of_value?_eq hx hn)
  rw [ofText_int]
  rcases ofText?_of_spells (t := t) h with htext | ⟨htext, hmin, hle⟩
  · rw [htext]
    cases hn : t.ofInt? n with
    | some v => exact congrArg Except.ok (IntType.ofInt?_eq_some_clamp hn)
    | none => exact hnumber ((IntType.ofInt?_eq_none.mp hn).imp_left le_of_lt)
  · -- a minus sign that the type does not read
    rw [htext]
    exact hnumber (Or.inl (hmin ▸ hle))

end HostType

end Settings

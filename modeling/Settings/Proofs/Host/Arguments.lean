import Settings.Proofs.Host.Texts
import Settings.Proofs.Number.IntegerTexts
import Settings.Proofs.Number.WholeNumbers

/-!
# Arguments of integer types

A parameter of an integer type is given an argument in two readings, a text and a number. It takes
the integer that the text spells, or else the whole part of the number, if the type has it
(`HostType.ofArgument_int`): the check of the range is made on numbers, where the greatest value of
a type need not be one, but it is the check that one would make on integers.

The text of an integer that the type does not have is thereby read once more, as a number, and this
is the number nearest to the integer. Rounding takes it into the range of the type in one place
only. Just below the least value of the signed types of 64 bits the numbers are `2048` apart, so the
`1024` integers there have this value for their nearest number and are taken for it
(`IntType.truncate?_bind_ofInt?`).
-/

set_option autoImplicit false

namespace Settings

variable {t : IntType} {x : Double} {k n : Int}

/-! ## The ends of a type -/

namespace IntType

/-- The integers of a type end before a power of two, and begin at zero or at minus this power. -/
theorem exists_ends (t : IntType) :
    ∃ b ≤ 64, t.max + 1 = 2 ^ b ∧ (t.min = 0 ∨ t.min = -2 ^ b) := by
  refine ⟨if t.isSigned then t.bits - 1 else t.bits, ?_, ?_, ?_⟩
  all_goals cases t <;> decide

theorem natAbs_toInt_le (v : t.Value) : v.toInt.natAbs ≤ 2 ^ 64 := by
  have hmin : -2 ^ 64 ≤ t.min := by cases t <;> decide
  have hmax : t.max ≤ 2 ^ 64 := by cases t <;> decide
  have low : t.min ≤ v.toInt := v.2.1
  have high : v.toInt ≤ t.max := v.2.2
  omega

/-- The least value of a type is a number. -/
theorem denotes_min (t : IntType) : (Binary.ofInt t.min : Double).Denotes t.min := by
  obtain ⟨b, hb, -, hmin | hmin⟩ := t.exists_ends
  · rw [hmin]
    exact Binary.denotes_ofInt_of_le (by decide)
  · refine Binary.denotes_ofInt_two_pow (b := b) ?_ (by omega)
    rw [hmin, Int.natAbs_neg, Int.natAbs_pow]
    rfl

/-- The number after the greatest value of a type, as the check of a range computes it. -/
theorem denotes_past_max (t : IntType) :
    (Binary.add (Binary.ofInt t.max) (Binary.ofInt 1) : Double).Denotes (t.max + 1) := by
  have hsum : (Binary.add (Binary.ofInt t.max) (Binary.ofInt 1) : Double) =
      Binary.ofInt (t.max + 1) := by
    cases t <;> decide +kernel
  obtain ⟨b, hb, hmax, -⟩ := t.exists_ends
  rw [hsum]
  refine Binary.denotes_ofInt_two_pow (b := b) ?_ (by omega)
  rw [hmax, Int.natAbs_pow]
  rfl

theorem toInt_of_ofInt? {v : t.Value} (h : t.ofInt? n = some v) : v.toInt = n := by
  unfold ofInt? at h
  split at h
  · exact congrArg Value.toInt (Option.some.inj h).symm
  · exact absurd h (by simp)

theorem ofInt?_eq_none : t.ofInt? n = none ↔ n < t.min ∨ t.max < n := by
  unfold ofInt?
  split
  · simp
    omega
  · simp
    omega

/-- A number whose whole part a type has is made into it. -/
theorem ofNumber_eq {v : t.Value} (h : x.truncate? = some v.toInt) : t.ofNumber x = v := by
  have low : t.min ≤ v.toInt := v.2.1
  have high : v.toInt ≤ t.max := v.2.2
  refine Subtype.ext ?_
  show Max.max t.min (Min.min t.max (x.saturate t.min t.max)) = v.toInt
  rw [Binary.saturate_eq h]
  omega

end IntType

/-! ## Integers that a type does not have -/

namespace Binary

/-- From `-2 ^ 63` down the numbers are `2048` apart, and the middle between the first two goes to
the first. -/
theorem denotes_ofInt_below {n : Int} (high : n ≤ -2 ^ 63) (low : -2 ^ 63 - 2048 < n) :
    (ofInt n : Double).Denotes (if -2 ^ 63 - 1024 ≤ n then -2 ^ 63 else -2 ^ 63 - 2048) := by
  have hne : n.natAbs ≠ 0 := by omega
  have hlog : n.natAbs.log2 = 52 + 11 := (Nat.log2_eq_iff hne).mpr (by omega)
  have hneg : decide (n < 0) = true := decide_eq_true (by omega)
  obtain ⟨hlow, hhigh⟩ := significand_bounds hne hlog
  have hparts := ofParts_denotes (f := .double) (scaled_ne_zero hlow 11)
    (ofParts_ne_infinite true hlow hhigh (by decide))
  rw [ofInt_eq_ofParts hne hlog, hneg]
  split
  · have hfirst : roundHalfEven n.natAbs (2 ^ 11) = 2 ^ 52 := by
      unfold roundHalfEven
      simp only
      split_ifs <;> omega
    rwa [hfirst] at hparts ⊢
  · have hsecond : roundHalfEven n.natAbs (2 ^ 11) = 2 ^ 52 + 1 := by
      unfold roundHalfEven
      simp only
      split_ifs <;> omega
    rwa [hsecond] at hparts ⊢

/-- The integers that are not brought up to `-2 ^ 63` are not brought near it either. -/
theorem value_ofInt_below {v : Quantity} (hn : n < -2 ^ 63 - 1024)
    (hv : (ofInt n : Double).Faithful n v) : v ≤ Quantity.ofInt (-2 ^ 63 - 2048) := by
  rcases le_or_gt n (-2 ^ 63 - 2048) with hfar | hnear
  · have hsecond := denotes_ofInt_below (n := -2 ^ 63 - 2047) (by decide) (by decide)
    exact hv.ge hsecond.value? (Quantity.ofInt_le_ofInt.mpr hfar)
  · have hsecond := denotes_ofInt_below (by omega) hnear
    rw [if_neg (by omega)] at hsecond
    exact (Option.some.inj (hv.value.symm.trans hsecond.value?)).le

end Binary

namespace IntType

def least (t : IntType) : t.Value :=
  ⟨t.min, Int.le_refl _, t.min_le_zero.trans t.zero_le_max⟩

/-- The type does not have the integer, but its least value is the number nearest to it. -/
def RoundsUp (t : IntType) (n : Int) : Prop :=
  t.min = -2 ^ 63 ∧ -2 ^ 63 - 1024 ≤ n ∧ n < -2 ^ 63

instance (t : IntType) (n : Int) : Decidable (t.RoundsUp n) :=
  inferInstanceAs (Decidable (_ ∧ _ ∧ _))

theorem RoundsUp.lt_min (h : t.RoundsUp n) : n < t.min := h.1 ▸ h.2.2

theorem bind_ofInt?_eq_none {v : Quantity} (hv : x.value? = some v)
    (hout : v ≤ Quantity.ofInt (t.min - 1) ∨ Quantity.ofInt (t.max + 1) ≤ v) :
    x.truncate?.bind t.ofInt? = none := by
  rw [Binary.truncate?_eq, hv, Option.bind_some, Option.bind_eq_none_iff]
  intro k hk
  rw [ofInt?_eq_none]
  rcases hout with hlow | hhigh
  · have := Quantity.wholePart?_le hk hlow
    omega
  · have := Quantity.le_wholePart? hk hhigh
    omega

/-- The number nearest to an integer that the type does not have is out of the range as well, but
for the integers that the least value is taken for. -/
theorem truncate?_bind_ofInt? (hn : t.ofInt? n = none) :
    (Binary.ofInt n : Double).truncate?.bind t.ofInt? =
      if t.RoundsUp n then some t.least else none := by
  obtain ⟨v, hv⟩ := Binary.exists_faithful_ofInt (f := .double) n
  rcases ofInt?_eq_none.mp hn with hbelow | habove
  case inr =>
    have hmax : Quantity.ofInt (t.max + 1) ≤ v :=
      hv.le t.denotes_past_max.value? (Quantity.ofInt_le_ofInt.mpr habove)
    have hno : ¬ t.RoundsUp n := fun h => by
      have := t.zero_le_max
      have := h.2.2
      omega
    rw [if_neg hno, bind_ofInt?_eq_none hv.value (Or.inr hmax)]
  case inl =>
    have hends : t.min = -2 ^ 63 ∨ (t.min ≠ -2 ^ 63 ∧ (t.min - 1).natAbs ≤ 2 ^ 53) := by
      cases t <;> decide
    rcases hends with hwide | ⟨hne, hsmall⟩
    · by_cases hup : -2 ^ 63 - 1024 ≤ n
      · have hleast := Binary.denotes_ofInt_below (n := n) (by omega) (by omega)
        rw [if_pos hup, ← hwide] at hleast
        rw [if_pos ⟨hwide, hup, by omega⟩, hleast.truncate?]
        exact ofInt?_toInt t.least
      · have hfar := Binary.value_ofInt_below (by omega) hv
        have hmin : v ≤ Quantity.ofInt (t.min - 1) :=
          hfar.trans (Quantity.ofInt_le_ofInt.mpr (by omega))
        rw [if_neg fun h => hup h.2.1, bind_ofInt?_eq_none hv.value (Or.inl hmin)]
    · -- the integer before the least value is a number
      have hmin : v ≤ Quantity.ofInt (t.min - 1) :=
        hv.ge (Binary.denotes_ofInt_of_le hsmall).value?
          (Quantity.ofInt_le_ofInt.mpr (by omega))
      rw [if_neg fun h => hne h.1, bind_ofInt?_eq_none hv.value (Or.inl hmin)]

end IntType

/-! ## The two readings -/

namespace HostType

/-- The range check of a parameter is that of the integers, though it is made on numbers. -/
theorem holds_iff {x : Double} : holds t x = true ↔
    ∃ v ∈ x.value?, Quantity.ofInt t.min ≤ v ∧ v < Quantity.ofInt (t.max + 1) := by
  have hmin := t.denotes_min.value?
  have hmax := t.denotes_past_max.value?
  unfold holds
  rw [Bool.and_eq_true, Bool.and_eq_true, Binary.le_iff, Binary.lt_iff, hmin, hmax]
  cases x with
  | nan => simp [Binary.value?]
  | infinite s => cases s <;> simp [Binary.value?, Binary.isFinite, Quantity.ofInt]
  | finite s m e _ => simp [Binary.value?, Binary.isFinite]

/-- Without its fraction a number passes if the type has its whole part. -/
theorem holds_truncate (x : Double) :
    holds t x.truncate = true ↔ ∃ k ∈ x.truncate?, t.min ≤ k ∧ k ≤ t.max := by
  rw [holds_iff]
  cases hk : x.truncate? with
  | some k => simp only [Binary.value?_truncate hk, Option.mem_some_iff, exists_eq_left',
      Quantity.ofInt_le_ofInt, Quantity.ofInt_lt_ofInt, ← Int.lt_add_one_iff]
  | none =>
    cases x with
    | nan => simp [Binary.truncate, Binary.value?]
    | infinite s => cases s <;> simp [Binary.truncate, Binary.value?, Quantity.ofInt]
    | finite s m e _ => cases hk

/-- A parameter of an integer type takes the integer that the text spells, or else the whole part of
the number. -/
theorem ofArgument_int (text : String) (x : Double) :
    ofArgument (.int t) (.ok text) (.ok x) =
      ((t.ofText? text).or (x.truncate?.bind t.ofInt?)).elim (.error (.outOfRange text t)) .ok := by
  cases htext : t.ofText? text with
  | some v =>
    simp only [ofArgument, Except.toOption, Option.bind_some, htext]
    rfl
  | none =>
    have hrun : ofArgument (.int t) (.ok text) (.ok x) =
        if holds t x.truncate then .ok (t.ofNumber x.truncate)
        else .error (.outOfRange text t) := by
      simp only [ofArgument, Except.toOption, Option.bind_some, htext, bind, Except.bind]
      rfl
    rw [hrun, Option.none_or]
    cases hv : x.truncate?.bind t.ofInt? with
    | some v =>
      obtain ⟨k, hk, hint⟩ := Option.bind_eq_some_iff.mp hv
      obtain rfl := IntType.toInt_of_ofInt? hint
      have hwhole : x.truncate.truncate? = some v.toInt := by
        rw [Binary.truncate?_eq, Binary.value?_truncate hk]
        exact congrArg some (wholePart_intCast _)
      rw [if_pos ((holds_truncate x).mpr ⟨_, hk, v.2⟩), IntType.ofNumber_eq hwhole]
      rfl
    | none =>
      have hout : ¬ holds t x.truncate = true := by
        rw [holds_truncate]
        rintro ⟨k, hk, hrange⟩
        have hnone := IntType.ofInt?_eq_none.mp (Option.bind_eq_none_iff.mp hv k hk)
        omega
      rw [if_neg hout]
      rfl

/-! ## Texts that spell integers -/

/-- A text that a type reads spells an integer of the type. -/
theorem spells_of_ofText? {text : String} {v : t.Value} (h : t.ofText? text = some v) :
    Spells (trimBlanks text.toList) v.toInt := by
  obtain ⟨n, hread, hn⟩ := Option.bind_eq_some_iff.mp h
  rw [IntType.toInt_of_ofInt? hn]
  exact spells_of_intNumeral? hread

/-- A text that spells an integer is read as the integer, unless it has a minus sign that the type
does not read. -/
theorem ofText?_of_spells {text : String} (h : Spells (trimBlanks text.toList) n) :
    t.ofText? text = t.ofInt? n ∨ (t.ofText? text = none ∧ t.min = 0 ∧ n ≤ 0) := by
  unfold IntType.ofText?
  rcases h.intNumeral? t.isSigned with hread | ⟨hread, hsign, hn⟩
  · exact Or.inl (by rw [hread, Option.bind_some])
  · exact Or.inr ⟨by rw [hread, Option.bind_none], by simp [IntType.min, hsign], hn⟩

/-- A text that spells an integer gives a parameter the integer, or else the least value of the type
if it is the number nearest to the integer. -/
theorem ofArgument_of_spells {text : String} (h : Spells (trimBlanks text.toList) n) :
    ofArgument (.int t) (.ok text) (parseNumber text) =
      ((t.ofInt? n).or (if t.RoundsUp n then some t.least else none)).elim
        (.error (.outOfRange text t)) .ok := by
  obtain ⟨x, hread, hx⟩ := h.exists_number (f := .double)
  have hsame : x.truncate? = (Binary.ofInt n : Double).truncate? := by
    rw [Binary.truncate?_eq, Binary.truncate?_eq, hx]
  have hparse : parseNumber text = .ok x := by
    unfold parseNumber
    rw [hread]
  have hnumber (hn : t.ofInt? n = none) :
      x.truncate?.bind t.ofInt? = if t.RoundsUp n then some t.least else none := by
    rw [hsame, IntType.truncate?_bind_ofInt? hn]
  rw [hparse, ofArgument_int]
  rcases ofText?_of_spells (t := t) h with htext | ⟨htext, hmin, hle⟩
  · rw [htext]
    cases hn : t.ofInt? n with
    | some v => rfl
    | none => rw [Option.none_or, Option.none_or, hnumber hn]
  · rw [htext, Option.none_or]
    cases hn : t.ofInt? n with
    | none => rw [Option.none_or, hnumber hn]
    | some v =>
      -- of the integers with a minus sign only zero is of the type
      have hzero : n = 0 := by
        have low : t.min ≤ v.toInt := v.2.1
        rw [IntType.toInt_of_ofInt? hn, hmin] at low
        omega
      have hwhole : x.truncate? = some n := by
        rw [hsame, hzero]
        exact (Binary.denotes_ofInt_of_le (n := 0) (by decide)).truncate?
      rw [hwhole, Option.bind_some, hn, Option.some_or]

end HostType

end Settings

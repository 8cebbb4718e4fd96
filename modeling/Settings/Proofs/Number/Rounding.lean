import Mathlib.Algebra.Order.Field.Power
import Mathlib.Algebra.Order.Floor.Semifield
import Mathlib.Data.Int.Log
import Mathlib.Data.Rat.Floor
import Mathlib.Tactic.FieldSimp
import Mathlib.Tactic.Linarith
import Mathlib.Tactic.NormNum
import Mathlib.Tactic.Positivity
import Mathlib.Tactic.Ring
import Settings.Number.Shortest

/-!
# What rounding depends on

Rounding is computed on numerators and denominators, but the number that comes out depends on the
value of the fraction alone (`Binary.round_congr`), and a value that is of the format already comes
out as it is (`Binary.round_eq_finite`). Both rest on the order that the unit is chosen by, which is
the binary logarithm of the value.

So a decimal reads as a number just by its value, and the decimal that a number is printed as reads
back: it was picked because it does, or it has the value of the number exactly.
-/

set_option autoImplicit false

namespace Settings

/-! ## Halves to even -/

theorem roundHalfEven_scale (n d : Nat) {k : Nat} (hk : 0 < k) :
    roundHalfEven (k * n) (k * d) = roundHalfEven n d := by
  have below : 2 * (k * (n % d)) < k * d ↔ 2 * (n % d) < d := by
    rw [Nat.mul_left_comm]
    exact Nat.mul_lt_mul_left hk
  have above : k * d < 2 * (k * (n % d)) ↔ d < 2 * (n % d) := by
    rw [Nat.mul_left_comm 2]
    exact Nat.mul_lt_mul_left hk
  unfold roundHalfEven
  simp only [Nat.mul_div_mul_left _ _ hk, Nat.mul_mod_mul_left, below, above]

/-- Fractions of one value round to one number. -/
theorem roundHalfEven_congr {n d n' d' : Nat} (hd : 0 < d) (hd' : 0 < d')
    (h : n * d' = n' * d) : roundHalfEven n d = roundHalfEven n' d' := by
  calc roundHalfEven n d = roundHalfEven (d' * n) (d' * d) := (roundHalfEven_scale n d hd').symm
    _ = roundHalfEven (d * n') (d * d') := by
      rw [Nat.mul_comm d' n, h, Nat.mul_comm n' d, Nat.mul_comm d' d]
    _ = roundHalfEven n' d' := roundHalfEven_scale n' d' hd

/-! ## Units -/

section

variable {num den : Nat}

theorem inUnits_pos (num : Nat) (hden : 0 < den) (e : Int) : 0 < (inUnits num den e).2 := by
  cases e with
  | ofNat e => exact Nat.mul_pos hden (Nat.two_pow_pos e)
  | negSucc e => exact hden

theorem inUnits_value (num : Nat) (hden : 0 < den) (e : Int) :
    ((inUnits num den e).1 : ℚ) / (inUnits num den e).2 = num / den / 2 ^ e := by
  have hden : (den : ℚ) ≠ 0 := by exact_mod_cast hden.ne'
  cases e with
  | ofNat e =>
    simp only [inUnits, Nat.pow_eq, Nat.cast_mul, Nat.cast_pow, Nat.cast_ofNat,
      Int.ofNat_eq_natCast, zpow_natCast]
    field_simp
  | negSucc e =>
    simp only [inUnits, Nat.pow_eq, Nat.cast_mul, Nat.cast_pow, Nat.cast_ofNat, zpow_negSucc]
    field_simp

/-- The logarithm of a value is told by the powers that it lies between. -/
theorem log_two_eq {q : ℚ} {n : Int} (hq : 0 < q) (low : (2 : ℚ) ^ n ≤ q)
    (high : q < (2 : ℚ) ^ (n + 1)) : Int.log 2 q = n := by
  have hlow : n ≤ Int.log 2 q :=
    (Int.zpow_le_iff_le_log Nat.one_lt_two hq).mp (by exact_mod_cast low)
  have hhigh : Int.log 2 q < n + 1 :=
    (Int.lt_zpow_iff_log_lt Nat.one_lt_two hq).mp (by exact_mod_cast high)
  omega

/-- A quotient lies within a factor of two around the power that the orders of its parts give. -/
theorem quotient_bounds (hnum : 0 < num) (hden : 0 < den) :
    (2 : ℚ) ^ ((num.log2 : Int) - den.log2 - 1) < num / den ∧
      (num : ℚ) / den < (2 : ℚ) ^ ((num.log2 : Int) - den.log2 + 1) := by
  have hn : (0 : ℚ) < num := by exact_mod_cast hnum
  have hd : (0 : ℚ) < den := by exact_mod_cast hden
  have nlow : (2 : ℚ) ^ num.log2 ≤ num := by exact_mod_cast Nat.log2_self_le hnum.ne'
  have nhigh : (num : ℚ) < 2 ^ (num.log2 + 1) := by exact_mod_cast Nat.lt_log2_self
  have dlow : (2 : ℚ) ^ den.log2 ≤ den := by exact_mod_cast Nat.log2_self_le hden.ne'
  have dhigh : (den : ℚ) < 2 ^ (den.log2 + 1) := by exact_mod_cast Nat.lt_log2_self
  have hlow : (2 : ℚ) ^ ((num.log2 : Int) - den.log2 - 1) = 2 ^ num.log2 / 2 ^ (den.log2 + 1) := by
    rw [← zpow_natCast, ← zpow_natCast, ← zpow_sub₀ (by norm_num)]
    congr 1
    omega
  have hhigh : (2 : ℚ) ^ ((num.log2 : Int) - den.log2 + 1) = 2 ^ (num.log2 + 1) / 2 ^ den.log2 := by
    rw [← zpow_natCast, ← zpow_natCast, ← zpow_sub₀ (by norm_num)]
    congr 1
    omega
  constructor
  · rw [hlow, div_lt_div_iff₀ (by positivity) hd]
    calc (2 : ℚ) ^ num.log2 * den ≤ num * den := by gcongr
      _ < num * 2 ^ (den.log2 + 1) := by gcongr
  · rw [hhigh, div_lt_div_iff₀ hd (by positivity)]
    calc (num : ℚ) * 2 ^ den.log2 ≤ num * den := by gcongr
      _ < 2 ^ (num.log2 + 1) * den := by gcongr

/-- The order of a fraction is the binary logarithm of its value. -/
theorem binaryOrder_eq_log (hnum : 0 < num) (hden : 0 < den) :
    binaryOrder num den = Int.log 2 ((num : ℚ) / den) := by
  have hq : (0 : ℚ) < num / den := by positivity
  obtain ⟨low, high⟩ := quotient_bounds hnum hden
  -- the measure in units of the guessed power is below one just if the value is below the power
  have measure : (inUnits num den ((num.log2 : Int) - den.log2)).1 <
      (inUnits num den ((num.log2 : Int) - den.log2)).2 ↔
      (num : ℚ) / den < 2 ^ ((num.log2 : Int) - den.log2) := by
    have hpos := inUnits_pos num hden ((num.log2 : Int) - den.log2)
    have hd : (0 : ℚ) < (inUnits num den ((num.log2 : Int) - den.log2)).2 := by exact_mod_cast hpos
    rw [← Nat.cast_lt (α := ℚ), ← div_lt_one hd, inUnits_value num hden, div_lt_one (by positivity)]
  unfold binaryOrder
  simp only
  split
  · rename_i hlt
    refine (log_two_eq hq low.le ?_).symm
    rw [sub_add_cancel]
    exact measure.mp hlt
  · rename_i hge
    exact (log_two_eq hq (not_lt.mp fun h => hge (measure.mpr h)) high).symm

end

/-! ## Numbers -/

namespace Binary

variable {f : Format} {num den num' den' : Nat}

/-- Rounding depends on the value of the fraction alone. -/
theorem round_congr (s : Bool) (hden : 0 < den) (hden' : 0 < den')
    (h : (num : ℚ) / den = num' / den') : (round s num den : Binary f) = round s num' den' := by
  have hd : (den : ℚ) ≠ 0 := by exact_mod_cast hden.ne'
  have hd' : (den' : ℚ) ≠ 0 := by exact_mod_cast hden'.ne'
  have hzero : num = 0 ↔ num' = 0 := by
    rw [← Nat.cast_eq_zero (R := ℚ), ← Nat.cast_eq_zero (R := ℚ) (n := num')]
    rw [div_eq_div_iff hd hd'] at h
    constructor
    · intro hz
      simpa [hz, hd] using h.symm
    · intro hz
      simpa [hz, hd'] using h
  unfold round
  by_cases hnum : num = 0
  · rw [if_pos hnum, if_pos (hzero.mp hnum)]
  · have hnum' : num' ≠ 0 := fun hz => hnum (hzero.mpr hz)
    rw [if_neg hnum, if_neg hnum', binaryOrder_eq_log (Nat.pos_of_ne_zero hnum) hden,
      binaryOrder_eq_log (Nat.pos_of_ne_zero hnum') hden', h]
    generalize max f.minExp (Int.log 2 ((num' : ℚ) / den') - (f.precision - 1 : Nat)) = e
    have hpos := inUnits_pos num hden e
    have hpos' := inUnits_pos num' hden' e
    have hvalue : ((inUnits num den e).1 : ℚ) / (inUnits num den e).2 =
        (inUnits num' den' e).1 / (inUnits num' den' e).2 := by
      rw [inUnits_value num hden, inUnits_value num' hden', h]
    rw [div_eq_div_iff (by exact_mod_cast hpos.ne') (by exact_mod_cast hpos'.ne')] at hvalue
    simp only
    rw [roundHalfEven_congr hpos hpos' (by exact_mod_cast hvalue)]

/-- What lies between a number of the format and the next one is measured in the unit of the
number. -/
theorem unit_of_between {m : Nat} {e : Int} {q : ℚ} (h : f.Canonical m e) (hq : 0 < q)
    (low : (m : ℚ) * 2 ^ e ≤ q) (high : q < (m + 1) * 2 ^ e) :
    max f.minExp (Int.log 2 q - (f.precision - 1 : Nat)) = e := by
  obtain ⟨hlt, hmin, _, hfull⟩ := h
  by_cases hm : m = 0
  · have hpow : 0 < Nat.pow 2 (f.precision - 1) := Nat.two_pow_pos _
    have hleast : e = f.minExp := hfull.resolve_left (by omega)
    have hlog : Int.log 2 q < e :=
      (Int.lt_zpow_iff_log_lt Nat.one_lt_two hq).mp (by simpa [hm] using high)
    omega
  · have hlog : Int.log 2 q = m.log2 + e := by
      have first : (2 : ℚ) ^ m.log2 ≤ m := by exact_mod_cast Nat.log2_self_le hm
      have last : (m : ℚ) + 1 ≤ 2 ^ (m.log2 + 1) := by
        exact_mod_cast Nat.succ_le_of_lt Nat.lt_log2_self
      apply log_two_eq hq
      · refine le_trans ?_ low
        rw [zpow_add₀ (by norm_num), zpow_natCast]
        gcongr
      · refine high.trans_le ?_
        rw [add_right_comm, zpow_add₀ (by norm_num)]
        gcongr
        exact_mod_cast last
    have hbits : m.log2 < f.precision := (Nat.log2_lt hm).mpr hlt
    rw [hlog]
    rcases hfull with hfull | hfull
    · have : f.precision - 1 ≤ m.log2 := (Nat.le_log2 hm).mpr hfull
      omega
    · omega

/-- The unit that a number of the format is measured in is its own. -/
theorem unit_of_canonical {m : Nat} {e : Int} (h : f.Canonical m e) (hm : m ≠ 0) :
    max f.minExp (Int.log 2 ((m : ℚ) * 2 ^ e) - (f.precision - 1 : Nat)) = e := by
  have hpos : (0 : ℚ) < m * 2 ^ e := by
    have : 0 < m := Nat.pos_of_ne_zero hm
    positivity
  refine unit_of_between h hpos le_rfl ?_
  gcongr
  exact lt_add_one _

theorem ofParts_of_canonical (s : Bool) {m : Nat} {e : Int} (h : f.Canonical m e) :
    ofParts s m e = .finite s m e h := by
  unfold ofParts
  have hne : m ≠ Nat.pow 2 f.precision := h.1.ne
  simp only [if_neg hne, dif_pos h]

/-- A value of the format is not changed by rounding. -/
theorem round_eq_finite (s : Bool) {m : Nat} {e : Int} (h : f.Canonical m e) (hden : 0 < den)
    (hvalue : (num : ℚ) / den = m * 2 ^ e) : round s num den = .finite s m e h := by
  have hd : (den : ℚ) ≠ 0 := by exact_mod_cast hden.ne'
  have hpow : (2 : ℚ) ^ e ≠ 0 := by positivity
  unfold round
  by_cases hm : m = 0
  · subst hm
    have hnum : num = 0 := by
      have : (num : ℚ) = 0 := by simpa [hd] using hvalue
      exact_mod_cast this
    obtain rfl : e = f.minExp := by
      rcases h.2.2.2 with hle | heq
      · exact absurd hle (Nat.not_le.mpr (Nat.two_pow_pos _))
      · exact heq
    rw [if_pos hnum]
    rfl
  · have hnum : num ≠ 0 := by
      rintro rfl
      exact hpow (by simpa [hm] using hvalue)
    rw [if_neg hnum, binaryOrder_eq_log (Nat.pos_of_ne_zero hnum) hden, hvalue,
      unit_of_canonical h hm]
    have hpos := inUnits_pos num hden e
    have hwhole : (inUnits num den e).1 = m * (inUnits num den e).2 := by
      have hunits := inUnits_value num hden e
      rw [hvalue, mul_div_assoc, div_self hpow, mul_one,
        div_eq_iff (by exact_mod_cast hpos.ne')] at hunits
      exact_mod_cast hunits
    have hround : roundHalfEven (inUnits num den e).1 (inUnits num den e).2 = m := by
      have hcross : (inUnits num den e).1 * 1 = m * (inUnits num den e).2 := by omega
      rw [roundHalfEven_congr hpos Nat.one_pos hcross, roundHalfEven_one]
    simp only [hround]
    exact ofParts_of_canonical s h

end Binary

/-! ## Decimals -/

def Decimal.value (d : Decimal) : ℚ := d.coefficient * 10 ^ d.exponent

namespace Binary

variable {f : Format}

/-- Reading a decimal is rounding a fraction of its value. -/
theorem exists_ofDecimal (s : Bool) (c : Nat) (k : Int) :
    ∃ num den : Nat, 0 < den ∧ (num : ℚ) / den = c * 10 ^ k ∧
      (ofDecimal s c k : Binary f) = round s num den := by
  cases k with
  | ofNat k =>
    refine ⟨c * Nat.pow 10 k, 1, Nat.one_pos, ?_, rfl⟩
    simp [Nat.pow_eq]
  | negSucc k =>
    refine ⟨c, Nat.pow 10 (k + 1), Nat.pow_pos (by decide), ?_, rfl⟩
    simp only [Nat.pow_eq, Nat.cast_pow, Nat.cast_ofNat, zpow_negSucc]
    rw [div_eq_mul_inv]

/-- Decimals of one value read as one number. -/
theorem ofDecimal_congr (s : Bool) {c c' : Nat} {k k' : Int}
    (h : (c : ℚ) * 10 ^ k = c' * 10 ^ k') : (ofDecimal s c k : Binary f) = ofDecimal s c' k' := by
  obtain ⟨num, den, hden, hvalue, hread⟩ := exists_ofDecimal (f := f) s c k
  obtain ⟨num', den', hden', hvalue', hread'⟩ := exists_ofDecimal (f := f) s c' k'
  rw [hread, hread']
  exact round_congr s hden hden' (by rw [hvalue, hvalue', h])

theorem ofDecimal_eq_finite (s : Bool) {m : Nat} {e : Int} (h : f.Canonical m e) {c : Nat} {k : Int}
    (hvalue : (c : ℚ) * 10 ^ k = m * 2 ^ e) : ofDecimal s c k = .finite s m e h := by
  obtain ⟨num, den, hden, hratio, hread⟩ := exists_ofDecimal (f := f) s c k
  rw [hread]
  exact round_eq_finite s h hden (by rw [hratio, hvalue])

end Binary

theorem Decimal.value_strip (fuel : Nat) (d : Decimal) : (d.strip fuel).value = d.value := by
  induction fuel generalizing d with
  | zero => rfl
  | succ fuel ih =>
    unfold Decimal.strip
    split
    · rename_i h
      rw [ih]
      have hten : d.coefficient = 10 * (d.coefficient / 10) := by omega
      have hcast : (d.coefficient : ℚ) = 10 * (d.coefficient / 10 : Nat) := by exact_mod_cast hten
      show ((d.coefficient / 10 : Nat) : ℚ) * 10 ^ (d.exponent + 1) =
        (d.coefficient : ℚ) * 10 ^ d.exponent
      rw [hcast, zpow_add₀ (by norm_num), zpow_one]
      ring
    · rfl

theorem Decimal.value_normal (d : Decimal) : d.normal.value = d.value := d.value_strip _

theorem value_exactDecimal (m : Nat) (e : Int) : (exactDecimal m e).value = m * 2 ^ e := by
  cases e with
  | ofNat e => simp [exactDecimal, Decimal.value, Nat.pow_eq]
  | negSucc e =>
    simp only [exactDecimal, Decimal.value, Nat.pow_eq, Nat.cast_mul, Nat.cast_pow, Nat.cast_ofNat,
      zpow_neg, zpow_natCast, zpow_negSucc]
    rw [show (10 : ℚ) = 2 * 5 by norm_num, mul_pow]
    field_simp

/-! ## The printed decimal -/

/-- A point of the grid is taken only if it reads back. -/
theorem gridPoint?_reads {f : Format} {x : Binary f} {num den digits : Nat} {d : Decimal}
    (h : gridPoint? x num den digits = some d) :
    Binary.ofDecimal x.isNegative d.coefficient d.exponent = x := by
  unfold gridPoint? at h
  simp only at h
  generalize decimalOrder num den - digits + 1 = unit at h
  generalize (if 0 ≤ unit then (num, den * Nat.pow 10 unit.toNat)
    else (num * Nat.pow 10 (-unit).toNat, den)) = units at h
  split at h
  · exact absurd h (by simp)
  · rename_i hlow _
    obtain rfl := Option.some.inj h
    exact of_decide_eq_true hlow
  · rename_i _ hhigh
    obtain rfl := Option.some.inj h
    exact of_decide_eq_true hhigh
  · rename_i hlow hhigh
    obtain rfl := Option.some.inj h
    simp only
    split
    · exact of_decide_eq_true hhigh
    · exact of_decide_eq_true hlow

/-- The decimal that a number is printed as reads back as the number. -/
theorem Binary.ofDecimal_shortest {f : Format} (s : Bool) {m : Nat} {e : Int}
    (h : f.Canonical m e) :
    ofDecimal s (shortest s m e h).coefficient (shortest s m e h).exponent = .finite s m e h := by
  have normal {d : Decimal} (hd : ofDecimal s d.coefficient d.exponent = .finite s m e h) :
      ofDecimal s d.normal.coefficient d.normal.exponent = .finite s m e h :=
    (ofDecimal_congr s d.value_normal).trans hd
  unfold shortest
  simp only
  split
  · rename_i hm
    exact ofDecimal_eq_finite s h (by simp [hm])
  · split
    · rename_i d hd
      obtain ⟨k, _, hk⟩ := List.exists_of_findSome?_eq_some hd
      exact normal (gridPoint?_reads hk)
    · exact normal (ofDecimal_eq_finite s h (value_exactDecimal m e))

end Settings

import Mathlib.Order.WithBotTop
import Settings.Number.Arith
import Settings.Proofs.Number.Rounding

/-!
# The values of numbers

A number of a binary format stands for a rational number or for one of the two infinities, and
not-a-number for nothing. `Binary.value?` says which, and what can be found out about a number from
its significand and exponent is a fact about this value: numbers compare as their values do
(`Binary.lt_iff`, `Binary.le_iff`), a number is whole if its value is, and cutting off the fraction
is cutting it off the value.

The two zeros have one value. They are different numbers, so two numbers of one value need not be
the same, but none of the operations named above tells them apart.
-/

set_option autoImplicit false

namespace Settings

/-- A rational number or one of the two infinities. -/
abbrev Quantity : Type := WithBotTop ℚ

/-- An integer among the quantities. -/
def Quantity.ofInt (k : Int) : Quantity := ((k : ℚ) : Quantity)

/-- The whole part of a rational number, its fraction cut off. -/
def wholePart (q : ℚ) : Int := if 0 ≤ q then ⌊q⌋ else ⌈q⌉

/-- The whole part of a quantity; an infinity has none. -/
def Quantity.wholePart? : Quantity → Option Int
  | some (some q) => some (wholePart q)
  | _ => none

theorem wholePart_intCast (k : Int) : wholePart k = k := by
  unfold wholePart
  split
  · exact Int.floor_intCast k
  · exact Int.ceil_intCast k

theorem wholePart_le {q : ℚ} {k : Int} (h : q ≤ k) : wholePart q ≤ k := by
  unfold wholePart
  split
  · exact Int.floor_le_iff.mpr (h.trans_lt (lt_add_one _))
  · exact Int.ceil_le.mpr h

theorem le_wholePart {q : ℚ} {k : Int} (h : k ≤ q) : k ≤ wholePart q := by
  unfold wholePart
  split
  · exact Int.le_floor.mpr h
  · have hceil : (k : ℚ) ≤ ⌈q⌉ := h.trans (Int.le_ceil q)
    exact_mod_cast hceil

theorem Quantity.wholePart?_le {a : Quantity} {j k : Int} (hj : a.wholePart? = some j)
    (h : a ≤ ((k : ℚ) : Quantity)) : j ≤ k := by
  rcases a with _ | _ | q
  · cases hj
  · cases hj
  · obtain rfl := Option.some.inj hj
    exact wholePart_le (WithBotTop.coe_le_coe.mp h)

theorem Quantity.le_wholePart? {a : Quantity} {j k : Int} (hj : a.wholePart? = some j)
    (h : ((k : ℚ) : Quantity) ≤ a) : k ≤ j := by
  rcases a with _ | _ | q
  · cases hj
  · cases hj
  · obtain rfl := Option.some.inj hj
    exact le_wholePart (WithBotTop.coe_le_coe.mp h)

theorem Quantity.bot_lt (q : ℚ) : (⊥ : Quantity) < q :=
  bot_lt_iff_ne_bot.mpr (WithBotTop.coe_ne_bot q)

theorem Quantity.lt_top (q : ℚ) : (q : Quantity) < ⊤ :=
  lt_top_iff_ne_top.mpr (WithBotTop.coe_ne_top q)

/-- The quantity on the other side of zero. -/
def Quantity.opposite : Quantity → Quantity
  | none => ⊤
  | some none => ⊥
  | some (some q) => ((-q : ℚ) : Quantity)

theorem Quantity.opposite_opposite (a : Quantity) : a.opposite.opposite = a := by
  rcases a with _ | _ | q
  · rfl
  · rfl
  · exact congrArg WithBotTop.coe (neg_neg q)

theorem Quantity.opposite_le_opposite {a b : Quantity} (h : a ≤ b) : b.opposite ≤ a.opposite := by
  rcases a with _ | _ | q
  · exact le_top
  · obtain rfl := top_le_iff.mp h
    exact le_rfl
  · rcases b with _ | _ | r
    · exact absurd h (not_le.mpr (Quantity.bot_lt q))
    · exact bot_le
    · exact WithBotTop.coe_le_coe.mpr (neg_le_neg (WithBotTop.coe_le_coe.mp h))

theorem Quantity.le_opposite {a b : Quantity} (h : a ≤ b.opposite) : b ≤ a.opposite := by
  rw [← b.opposite_opposite]
  exact opposite_le_opposite h

theorem Quantity.opposite_le {a b : Quantity} (h : a.opposite ≤ b) : b.opposite ≤ a := by
  rw [← a.opposite_opposite]
  exact opposite_le_opposite h

theorem Quantity.ofInt_le_ofInt {j k : Int} : Quantity.ofInt j ≤ Quantity.ofInt k ↔ j ≤ k := by
  unfold Quantity.ofInt
  rw [WithBotTop.coe_le_coe, Int.cast_le]

theorem Quantity.ofInt_lt_ofInt {j k : Int} : Quantity.ofInt j < Quantity.ofInt k ↔ j < k := by
  unfold Quantity.ofInt
  rw [WithBotTop.coe_lt_coe, Int.cast_lt]

theorem Quantity.ofInt_injective {j k : Int} (h : Quantity.ofInt j = Quantity.ofInt k) :
    j = k := by
  have hq : (j : ℚ) = k := WithBotTop.coe_injective h
  exact_mod_cast hq

namespace Binary

variable {f : Format} {x y : Binary f} {k : Int}

def value? : Binary f → Option Quantity
  | .nan => none
  | .infinite s => some (if s then ⊥ else ⊤)
  | .finite s m e _ => some ((signed s m * 2 ^ e : ℚ) : Quantity)

/-! ## Signs -/

theorem signed_lt_zero {s : Bool} {n : Nat} (hn : n ≠ 0) : decide (signed s n < 0) = s := by
  cases s with
  | false => simp [signed]
  | true => simpa [signed] using Nat.pos_of_ne_zero hn

theorem natAbs_signed (s : Bool) (n : Nat) : (signed s n).natAbs = n := by
  cases s <;> simp [signed]

/-- An integer is put together again from its sign and its magnitude. -/
theorem signed_natAbs (k : Int) : signed (decide (k < 0)) k.natAbs = k := by
  unfold signed
  split
  · rename_i h
    have := of_decide_eq_true h
    omega
  · rename_i h
    have : ¬ k < 0 := by simpa using h
    omega

theorem value?_neg (x : Binary f) : x.neg.value? = x.value?.map Quantity.opposite := by
  cases x with
  | nan => rfl
  | infinite s => cases s <;> rfl
  | finite s m e _ =>
    refine congrArg some (congrArg WithBotTop.coe ?_)
    cases s <;> simp [signed]

theorem signed_mul (s : Bool) (m n : Nat) : signed s (m * n) = signed s m * n := by
  cases s <;> simp [signed]

theorem signed_value (s : Bool) {m n : Nat} {e : Int} (h : (m : ℚ) * 2 ^ e = n) :
    (signed s m : ℚ) * 2 ^ e = signed s n := by
  cases s <;> simp [signed, h]

theorem abs_signed_value (s : Bool) (m : Nat) (e : Int) :
    |(signed s m : ℚ) * 2 ^ e| = m * 2 ^ e := by
  have hpow : (0 : ℚ) < 2 ^ e := by positivity
  rw [abs_mul, abs_of_pos hpow]
  cases s <;> simp [signed]

theorem natPow_mul_zpow (n : Nat) (u : Int) : ((2 ^ n : Nat) : ℚ) * 2 ^ u = 2 ^ (u + n) := by
  rw [Nat.cast_pow, Nat.cast_ofNat, ← zpow_natCast, ← zpow_add₀ (by norm_num), add_comm]

/-- The significand measured in units of a power no greater than its own. -/
theorem signed_units (s : Bool) (m : Nat) {e low : Int} (hlow : low ≤ e) :
    (signed s (m * Nat.pow 2 (e - low).toNat) : ℚ) * 2 ^ low = signed s m * 2 ^ e := by
  have hexp : low + (e - low).toNat = e := by omega
  rw [signed_mul, Int.cast_mul, Int.cast_natCast, mul_assoc, Nat.pow_eq, natPow_mul_zpow, hexp]

/-! ## Comparison -/

/-- Numbers with a value are ordered as the values are. -/
theorem compare?_eq {a b : Quantity} (hx : x.value? = some a) (hy : y.value? = some b) :
    (compare? x y = some .lt ↔ a < b) ∧ (compare? x y = some .eq ↔ a = b) := by
  cases x with
  | nan => cases hx
  | infinite s =>
    obtain rfl := Option.some.inj hx
    cases y with
    | nan => cases hy
    | infinite u =>
      obtain rfl := Option.some.inj hy
      cases s <;> cases u <;> simp [compare?]
    | finite u n d _ =>
      obtain rfl := Option.some.inj hy
      have hbot := Quantity.bot_lt (signed u n * 2 ^ d)
      have htop := Quantity.lt_top (signed u n * 2 ^ d)
      cases s <;> simp [compare?, hbot, hbot.ne, htop.ne']
  | finite s m e _ =>
    obtain rfl := Option.some.inj hx
    cases y with
    | nan => cases hy
    | infinite u =>
      obtain rfl := Option.some.inj hy
      have htop := Quantity.lt_top (signed s m * 2 ^ e)
      cases u <;> simp [compare?, htop]
    | finite u n d _ =>
      obtain rfl := Option.some.inj hy
      have hpow : (0 : ℚ) < 2 ^ (min e d) := by positivity
      rw [← signed_units s m (Int.min_le_left e d), ← signed_units u n (Int.min_le_right e d)]
      unfold compare?
      simp only [Option.some.injEq, compare_lt_iff_lt, compare_eq_iff_eq, WithBotTop.coe_lt_coe,
        WithBotTop.coe_injective.eq_iff]
      constructor
      · rw [mul_lt_mul_iff_left₀ hpow, Int.cast_lt]
      · rw [mul_left_inj' hpow.ne', Int.cast_inj]

theorem compare?_of_value?_none (h : x.value? = none ∨ y.value? = none) :
    compare? x y = none := by
  have nan_of_none {z : Binary f} (hz : z.value? = none) : z = .nan := by
    cases z with
    | nan => rfl
    | infinite s => cases hz
    | finite s m e _ => cases hz
  rcases h with hx | hy
  · rw [nan_of_none hx]
    rfl
  · rw [nan_of_none hy]
    cases x <;> rfl

theorem lt_iff : lt x y = true ↔ ∃ a ∈ x.value?, ∃ b ∈ y.value?, a < b := by
  unfold lt
  rw [beq_iff_eq]
  cases hx : x.value? with
  | none => simp [compare?_of_value?_none (Or.inl hx)]
  | some a =>
    cases hy : y.value? with
    | none => simp [compare?_of_value?_none (Or.inr hy)]
    | some b => simp [(compare?_eq hx hy).1]

theorem lt_eq_false_iff : lt x y = false ↔ ∀ a ∈ x.value?, ∀ b ∈ y.value?, b ≤ a := by
  rw [← Bool.not_eq_true, lt_iff]
  push Not
  rfl

theorem le_iff : le x y = true ↔ ∃ a ∈ x.value?, ∃ b ∈ y.value?, a ≤ b := by
  unfold le
  rw [Bool.or_eq_true, beq_iff_eq, beq_iff_eq]
  cases hx : x.value? with
  | none => simp [compare?_of_value?_none (Or.inl hx)]
  | some a =>
    cases hy : y.value? with
    | none => simp [compare?_of_value?_none (Or.inr hy)]
    | some b => simp [(compare?_eq hx hy).1, (compare?_eq hx hy).2, le_iff_lt_or_eq]

/-! ## Whole parts -/

theorem fraction_pos (m : Nat) (e : Int) : 0 < (fraction m e).2 := by
  cases e with
  | ofNat e => exact Nat.one_pos
  | negSucc e => exact Nat.two_pow_pos _

theorem fraction_value (m : Nat) (e : Int) :
    ((fraction m e).1 : ℚ) / (fraction m e).2 = m * 2 ^ e := by
  cases e with
  | ofNat e => simp [fraction, Nat.pow_eq]
  | negSucc e => simp [fraction, Nat.pow_eq, zpow_negSucc, div_eq_mul_inv]

/-- The whole part of the magnitude, and the sign put before it. -/
theorem signed_fraction_div (s : Bool) (m : Nat) (e : Int) :
    signed s ((fraction m e).1 / (fraction m e).2) = wholePart (signed s m * 2 ^ e) := by
  have hfloor : ⌊(m : ℚ) * 2 ^ e⌋ = (((fraction m e).1 / (fraction m e).2 : Nat) : Int) := by
    rw [← fraction_value m e, Rat.floor_natCast_div_natCast, Int.natCast_ediv]
  have hnonneg : (0 : ℚ) ≤ m * 2 ^ e := by positivity
  cases s with
  | false =>
    have hsigned : (signed false m : ℚ) * 2 ^ e = m * 2 ^ e := by simp [signed]
    rw [hsigned]
    unfold wholePart
    rw [if_pos hnonneg, hfloor]
    rfl
  | true =>
    have hsigned : (signed true m : ℚ) * 2 ^ e = -(m * 2 ^ e) := by simp [signed]
    rw [hsigned]
    unfold wholePart
    split
    · rename_i h
      have hzero : (m : ℚ) * 2 ^ e = 0 := by linarith
      rw [hzero] at hfloor ⊢
      rw [Int.floor_zero] at hfloor
      simp [signed, ← hfloor]
    · rw [Int.ceil_neg, hfloor]
      rfl

theorem value?_infinite_ne (s : Bool) (k : Int) :
    (infinite s : Binary f).value? ≠ some (Quantity.ofInt k) := by
  intro h
  have hk := Option.some.inj h
  cases s with
  | false => exact WithBotTop.coe_ne_top _ hk.symm
  | true => exact WithBotTop.coe_ne_bot _ hk.symm

theorem exists_infinite_of_value? (h : x.value? = some ⊥ ∨ x.value? = some ⊤) :
    ∃ s, x = infinite s := by
  cases x with
  | nan => rcases h with h | h <;> cases h
  | infinite s => exact ⟨s, rfl⟩
  | finite s m e _ =>
    rcases h with h | h
    · exact absurd (Option.some.inj h) (WithBotTop.coe_ne_bot _)
    · exact absurd (Option.some.inj h) (WithBotTop.coe_ne_top _)

theorem truncate?_eq (x : Binary f) : x.truncate? = x.value?.bind Quantity.wholePart? := by
  cases x with
  | nan => rfl
  | infinite s => cases s <;> rfl
  | finite s m e _ => exact congrArg some (signed_fraction_div s m e)

/-- A number is whole just if its value is an integer. -/
theorem isWhole_iff : x.isWhole = true ↔ ∃ k, x.value? = some (Quantity.ofInt k) := by
  cases x with
  | nan => simp [isWhole, value?]
  | infinite s =>
    constructor
    · intro h
      cases h
    · rintro ⟨k, hk⟩
      exact absurd hk (value?_infinite_ne s k)
  | finite s m e _ =>
    have hpos : ((fraction m e).2 : ℚ) ≠ 0 := by exact_mod_cast (fraction_pos m e).ne'
    have hmag (n : Nat) : (m : ℚ) * 2 ^ e = n ↔ (fraction m e).1 = n * (fraction m e).2 := by
      rw [← fraction_value, div_eq_iff hpos]
      exact_mod_cast Iff.rfl
    constructor
    · intro h
      obtain ⟨n, hn⟩ := Nat.dvd_of_mod_eq_zero (beq_iff_eq.mp h)
      refine ⟨signed s n, congrArg some (congrArg WithBotTop.coe ?_)⟩
      exact signed_value s ((hmag n).mpr (hn.trans (Nat.mul_comm _ _)))
    · rintro ⟨k, hk⟩
      have hvalue : (signed s m : ℚ) * 2 ^ e = k := WithBotTop.coe_injective (Option.some.inj hk)
      have habs : (m : ℚ) * 2 ^ e = k.natAbs := by
        rw [Nat.cast_natAbs, Int.cast_abs, ← hvalue, abs_signed_value]
      exact beq_iff_eq.mpr (Nat.mod_eq_zero_of_dvd ((hmag _).mp habs ▸ Nat.dvd_mul_left _ _))

theorem saturate_eq (h : x.truncate? = some k) (low high : Int) :
    x.saturate low high = max low (min high k) := by
  cases x with
  | nan => cases h
  | infinite s => cases h
  | finite s m e _ =>
    obtain rfl := Option.some.inj h
    rfl

/-- A number is cut to the range after its fraction, and an infinity is made into the end on its
side. -/
theorem saturate_cases {v : Quantity} (hv : x.value? = some v) (low high : Int) :
    (∃ k, v.wholePart? = some k ∧ x.saturate low high = max low (min high k)) ∨
      v = ⊥ ∧ x.saturate low high = low ∨ v = ⊤ ∧ x.saturate low high = high := by
  cases hk : x.truncate? with
  | some k =>
    have hwhole : v.wholePart? = some k := by
      rw [← hk, truncate?_eq, hv, Option.bind_some]
    exact .inl ⟨k, hwhole, saturate_eq hk low high⟩
  | none =>
    cases x with
    | nan => cases hv
    | finite s m e _ => cases hk
    | infinite s =>
      cases s with
      | true => exact .inr (.inl ⟨(Option.some.inj hv).symm, rfl⟩)
      | false => exact .inr (.inr ⟨(Option.some.inj hv).symm, rfl⟩)

end Binary

end Settings

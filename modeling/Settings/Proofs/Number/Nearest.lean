import Settings.Proofs.Number.Values

/-!
# Rounding and the order

Rounding never passes a number of the format: a number that is not above a fraction is not above the
number that the fraction is rounded to, and likewise from above (`Binary.le_round`,
`Binary.round_le`). So where an integer is compared with a number of the format, the number nearest
to the integer may stand in for it, but for one thing: it may have become the other number.

The argument is the one for any rounding to one of the two neighbours. The fraction is measured in a
unit and its measure becomes one of the two whole numbers around it. A number of the format that is
measured in the same unit or a coarser one is a whole number of units, so it is not passed. One that
has a finer unit lies below the power of two that the fraction has reached, and the rounded measure
does not fall below this power.
-/

set_option autoImplicit false

namespace Settings

/-! ## Halves to even -/

/-- A fraction is rounded to its whole part or to the next whole number. -/
theorem roundHalfEven_cases (num den : Nat) :
    roundHalfEven num den = num / den ∨ roundHalfEven num den = num / den + 1 := by
  unfold roundHalfEven
  simp only
  split
  · exact Or.inl rfl
  · split
    · exact Or.inr rfl
    · split
      · exact Or.inl rfl
      · exact Or.inr rfl

theorem le_roundHalfEven {num den a : Nat} (hden : 0 < den) (h : a * den ≤ num) :
    a ≤ roundHalfEven num den := by
  have hquot : a ≤ num / den := (Nat.le_div_iff_mul_le hden).mpr h
  rcases roundHalfEven_cases num den with hr | hr
  · omega
  · omega

theorem roundHalfEven_le {num den a : Nat} (hden : 0 < den) (h : num ≤ a * den) :
    roundHalfEven num den ≤ a := by
  have hquot : num / den ≤ a := Nat.div_le_of_le_mul (by rwa [Nat.mul_comm])
  rcases Nat.lt_or_eq_of_le hquot with hlt | heq
  · rcases roundHalfEven_cases num den with hr | hr
    · omega
    · omega
  · -- the fraction is the whole number
    have hnum : num = a * den := Nat.le_antisymm h (heq ▸ Nat.div_mul_le_self num den)
    have hcross : num * 1 = a * den := by omega
    rw [roundHalfEven_congr hden Nat.one_pos hcross, roundHalfEven_one]

/-! ## Numbers of a format -/

namespace Format

/-- A short enough significand at an exponent of the format makes a number of the format, once it is
widened until it fills the precision or the exponent is the least. -/
theorem exists_canonical (f : Format) {m : Nat} {e : Int} (hm : m < 2 ^ f.precision)
    (low : f.minExp ≤ e) (high : e ≤ f.maxExp) :
    ∃ n d, f.Canonical n d ∧ (n : ℚ) * 2 ^ d = m * 2 ^ e := by
  by_cases hzero : m = 0
  · exact ⟨0, f.minExp, f.canonical_zero, by simp [hzero]⟩
  have hbits : m.log2 < f.precision := (Nat.log2_lt hzero).mpr hm
  have hfirst := Nat.log2_self_le hzero
  have hlast : m < 2 ^ (m.log2 + 1) := Nat.lt_log2_self
  generalize m.log2 = b at hbits hfirst hlast
  let k := min (f.precision - 1 - b) (e - f.minExp).toNat
  have hk : k ≤ f.precision - 1 - b := Nat.min_le_left _ _
  have hke : (k : Int) ≤ e - f.minExp := by omega
  refine ⟨m * 2 ^ k, e - k, ⟨?_, by omega, by omega, ?_⟩, ?_⟩
  · calc m * 2 ^ k < 2 ^ (b + 1) * 2 ^ k := by gcongr
      _ = 2 ^ (b + 1 + k) := (pow_add 2 (b + 1) k).symm
      _ ≤ 2 ^ f.precision := Nat.pow_le_pow_right (by decide) (by omega)
  · rcases Nat.le_total (f.precision - 1 - b) (e - f.minExp).toNat with hfull | hleast
    · left
      have hkfull : k = f.precision - 1 - b := Nat.min_eq_left hfull
      calc 2 ^ (f.precision - 1) = 2 ^ b * 2 ^ k := by
            rw [← pow_add, hkfull]
            congr 1
            omega
        _ ≤ m * 2 ^ k := by gcongr
    · right
      have hkleast : k = (e - f.minExp).toNat := Nat.min_eq_right hleast
      omega
  · rw [Nat.cast_mul, mul_assoc, Binary.natPow_mul_zpow, sub_add_cancel]

theorem Canonical.value_lt {f : Format} {m : Nat} {e : Int} (h : f.Canonical m e) :
    (m : ℚ) * 2 ^ e < 2 ^ (e + f.precision) := by
  have hm : (m : ℚ) < 2 ^ f.precision := by exact_mod_cast h.1
  have hpow : (0 : ℚ) < 2 ^ e := by positivity
  rw [zpow_add₀ (by norm_num), zpow_natCast, mul_comm]
  gcongr

end Format

namespace Binary

variable {f : Format} {num den : Nat} {s : Bool} {m : Nat} {e : Int}

/-- The parts make a number of their value, or are beyond the range. -/
theorem ofParts_cases (s : Bool) (m : Nat) (e : Int) :
    (∃ n d, ∃ h : f.Canonical n d, ofParts s m e = .finite s n d h ∧
      (n : ℚ) * 2 ^ d = m * 2 ^ e) ∨ (ofParts s m e : Binary f) = .infinite s := by
  have hcarry : m = Nat.pow 2 f.precision →
      ((Nat.pow 2 (f.precision - 1) : Nat) : ℚ) * 2 ^ (e + 1) = m * 2 ^ e := by
    rintro rfl
    obtain ⟨p, hp⟩ : ∃ p, f.precision = p + 1 := Nat.exists_eq_succ_of_ne_zero f.precision_pos.ne'
    rw [hp, Nat.pow_eq, Nat.pow_eq, zpow_add₀ (by norm_num), Nat.add_sub_cancel]
    push_cast
    ring
  unfold ofParts
  by_cases hm : m = Nat.pow 2 f.precision
  · simp only [if_pos hm]
    split
    · rename_i h
      exact Or.inl ⟨_, _, h, rfl, hcarry hm⟩
    · exact Or.inr rfl
  · simp only [if_neg hm]
    split
    · rename_i h
      exact Or.inl ⟨m, e, h, rfl, rfl⟩
    · exact Or.inr rfl

/-- A fraction is rounded in the unit that its order asks for. -/
theorem round_eq_ofParts (s : Bool) (hnum : num ≠ 0)
    (unit : max f.minExp (binaryOrder num den - (f.precision - 1 : Nat)) = e) :
    (round s num den : Binary f) =
      ofParts s (roundHalfEven (inUnits num den e).1 (inUnits num den e).2) e := by
  subst unit
  unfold round
  rw [if_neg hnum]

/-- What rounding makes of a magnitude: the measure `r` in units of `2 ^ u`, rounded to a whole
number. The unit is the least of the format, or the one that makes the measure fill the
precision. -/
structure Measured (f : Format) (num den : Nat) (r : Nat) (u : Int) : Prop where
  least : f.minExp ≤ u
  /-- What is no more than so many units stays so, and what is no less stays so too. -/
  le (a : Nat) (h : (a : ℚ) * 2 ^ u ≤ num / den) : a ≤ r
  ge (a : Nat) (h : (num : ℚ) / den ≤ a * 2 ^ u) : r ≤ a
  full : u = f.minExp ∨ (2 : ℚ) ^ (u + (f.precision - 1 : Nat)) ≤ num / den
  bounded : (num : ℚ) / den < 2 ^ (u + f.precision)

theorem exists_measured (s : Bool) (hnum : num ≠ 0) (hden : 0 < den) :
    ∃ r u, Measured f num den r u ∧ (round s num den : Binary f) = ofParts s r u := by
  have hq : (0 : ℚ) < num / den := by
    have : 0 < num := Nat.pos_of_ne_zero hnum
    positivity
  have hlow : (2 : ℚ) ^ Int.log 2 ((num : ℚ) / den) ≤ num / den := by
    exact_mod_cast Int.zpow_log_le_self Nat.one_lt_two hq
  have hhigh : (num : ℚ) / den < 2 ^ (Int.log 2 ((num : ℚ) / den) + 1) := by
    exact_mod_cast Int.lt_zpow_succ_log_self Nat.one_lt_two ((num : ℚ) / den)
  have horder := binaryOrder_eq_log (Nat.pos_of_ne_zero hnum) hden
  generalize Int.log 2 ((num : ℚ) / den) = order at hlow hhigh horder
  obtain ⟨u, hu⟩ : ∃ u, max f.minExp (order - (f.precision - 1 : Nat)) = u := ⟨_, rfl⟩
  refine ⟨_, u, ?_, round_eq_ofParts s hnum (horder ▸ hu)⟩
  have hp := f.precision_pos
  have hpow : (0 : ℚ) < 2 ^ u := by positivity
  have hpos := inUnits_pos num hden u
  have hposq : (0 : ℚ) < (inUnits num den u).2 := by exact_mod_cast hpos
  have hvalue := inUnits_value num hden u
  constructor
  case least => omega
  case le =>
    intro a h
    refine le_roundHalfEven hpos ?_
    rw [← le_div_iff₀ hpow, ← hvalue, le_div_iff₀ hposq] at h
    exact_mod_cast h
  case ge =>
    intro a h
    refine roundHalfEven_le hpos ?_
    rw [← div_le_iff₀ hpow, ← hvalue, div_le_iff₀ hposq] at h
    exact_mod_cast h
  case full =>
    by_cases hleast : u = f.minExp
    · exact Or.inl hleast
    · have horder : u + (f.precision - 1 : Nat) = order := by omega
      exact Or.inr (horder ▸ hlow)
  case bounded =>
    have horder : order + 1 ≤ u + f.precision := by omega
    exact hhigh.trans_le (zpow_le_zpow_right₀ (by norm_num) horder)

/-- In a unit that is not the least of the format the measure fills the precision. -/
theorem Measured.filled {r : Nat} {u : Int} (h : Measured f num den r u) :
    u = f.minExp ∨ 2 ^ (f.precision - 1) ≤ r := by
  rcases h.full with hleast | hfull
  · exact Or.inl hleast
  · refine Or.inr (h.le _ ?_)
    rwa [natPow_mul_zpow]

theorem Measured.le_two_pow {r : Nat} {u : Int} (h : Measured f num den r u) :
    r ≤ 2 ^ f.precision := by
  refine h.ge _ ?_
  rw [natPow_mul_zpow]
  exact h.bounded.le

/-- A number that is not below the fraction has a unit no finer. -/
theorem Measured.unit_le {r : Nat} {u : Int} (h : Measured f num den r u)
    (hc : f.Canonical m e) (hle : (num : ℚ) / den ≤ m * 2 ^ e) : u ≤ e := by
  rcases h.full with hleast | hfull
  · exact hleast ▸ hc.2.1
  · have hlt := (hfull.trans hle).trans_lt hc.value_lt
    have := (zpow_lt_zpow_iff_right₀ (by norm_num : (1 : ℚ) < 2)).mp hlt
    have := f.precision_pos
    omega

/-- In a unit no coarser than its own a number is a whole number of units. -/
theorem units_of_le {u : Int} (hu : u ≤ e) :
    (m : ℚ) * 2 ^ e = (m * 2 ^ (e - u).toNat : Nat) * 2 ^ u := by
  have hexp : u + (e - u).toNat = e := by omega
  rw [Nat.cast_mul, mul_assoc, natPow_mul_zpow, hexp]

/-- In a unit no coarser than its own a number is not passed, and in a coarser one it is below what
the measure has reached. -/
theorem Measured.le_of_canonical {r : Nat} {u : Int} (h : Measured f num den r u)
    (hc : f.Canonical m e) (hle : (m : ℚ) * 2 ^ e ≤ num / den) :
    (m : ℚ) * 2 ^ e ≤ r * 2 ^ u := by
  rcases le_or_gt u e with hu | hu
  · rw [units_of_le hu] at hle ⊢
    have hr : ((m * 2 ^ (e - u).toNat : Nat) : ℚ) ≤ r := by exact_mod_cast h.le _ hle
    gcongr
  · -- the number is finer, so the unit is not the least of the format
    have hreached : 2 ^ (f.precision - 1) ≤ r := by
      rcases h.filled with hleast | hreached
      · have := hc.2.1
        omega
      · exact hreached
    have hbelow : (m : ℚ) * 2 ^ e < 2 ^ (u + (f.precision - 1 : Nat)) :=
      hc.value_lt.trans_le (zpow_le_zpow_right₀ (by norm_num) (by have := f.precision_pos; omega))
    calc (m : ℚ) * 2 ^ e ≤ 2 ^ (u + (f.precision - 1 : Nat)) := hbelow.le
      _ = (2 ^ (f.precision - 1) : Nat) * 2 ^ u := (natPow_mul_zpow _ _).symm
      _ ≤ r * 2 ^ u := by gcongr

theorem Measured.ge_of_canonical {r : Nat} {u : Int} (h : Measured f num den r u)
    (hc : f.Canonical m e) (hle : (num : ℚ) / den ≤ m * 2 ^ e) :
    (r : ℚ) * 2 ^ u ≤ m * 2 ^ e := by
  have hu := h.unit_le hc hle
  rw [units_of_le hu] at hle ⊢
  have hr : (r : ℚ) ≤ (m * 2 ^ (e - u).toNat : Nat) := by exact_mod_cast h.ge _ hle
  gcongr

/-- A magnitude that is not above a number of the format stays in the range. -/
theorem Measured.ofParts_ne_infinite {r : Nat} {u : Int} (h : Measured f num den r u)
    (hc : f.Canonical m e) (hle : (num : ℚ) / den ≤ m * 2 ^ e) (s : Bool) :
    (ofParts s r u : Binary f) ≠ .infinite s := by
  have hu := h.unit_le hc hle
  have hmax := hc.2.2.1
  have hleast := h.least
  unfold ofParts
  by_cases hr : r = Nat.pow 2 f.precision
  · -- the carry moves into the exponent, for which there is room
    have hlt : u < e := by
      have hvalue := (h.ge_of_canonical hc hle).trans_lt hc.value_lt
      rw [hr, Nat.pow_eq, natPow_mul_zpow] at hvalue
      have := (zpow_lt_zpow_iff_right₀ (by norm_num : (1 : ℚ) < 2)).mp hvalue
      omega
    have hpow : Nat.pow 2 (f.precision - 1) < Nat.pow 2 f.precision :=
      Nat.pow_lt_pow_right (by decide) (by have := f.precision_pos; omega)
    have canonical : f.Canonical (Nat.pow 2 (f.precision - 1)) (u + 1) :=
      ⟨hpow, by omega, by omega, Or.inl (Nat.le_refl _)⟩
    simp only [if_pos hr]
    rw [dif_pos canonical]
    simp
  · have canonical : f.Canonical r u :=
      ⟨lt_of_le_of_ne h.le_two_pow hr, hleast, by omega, h.filled.symm⟩
    simp only [if_neg hr]
    rw [dif_pos canonical]
    simp

/-! ## The order of the values -/

/-- Rounding a magnitude does not take it below a number of the format. -/
theorem round_of_le (s : Bool) (hden : 0 < den) (hc : f.Canonical m e)
    (hle : (m : ℚ) * 2 ^ e ≤ num / den) :
    (round s num den : Binary f) = .infinite s ∨ ∃ n d, ∃ h : f.Canonical n d,
      round s num den = .finite s n d h ∧ (m : ℚ) * 2 ^ e ≤ n * 2 ^ d := by
  by_cases hnum : num = 0
  · refine Or.inr ⟨0, f.minExp, f.canonical_zero, if_pos hnum, ?_⟩
    simpa [hnum] using hle
  · obtain ⟨r, u, hr, hround⟩ := exists_measured (f := f) s hnum hden
    rw [hround]
    rcases ofParts_cases (f := f) s r u with ⟨n, d, h, hparts, hvalue⟩ | hparts
    · exact Or.inr ⟨n, d, h, hparts, hvalue ▸ hr.le_of_canonical hc hle⟩
    · exact Or.inl hparts

/-- Nor above one, and so not out of the range. -/
theorem round_of_ge (s : Bool) (hden : 0 < den) (hc : f.Canonical m e)
    (hle : (num : ℚ) / den ≤ m * 2 ^ e) :
    ∃ n d, ∃ h : f.Canonical n d,
      (round s num den : Binary f) = .finite s n d h ∧ (n : ℚ) * 2 ^ d ≤ m * 2 ^ e := by
  by_cases hnum : num = 0
  · refine ⟨0, f.minExp, f.canonical_zero, if_pos hnum, ?_⟩
    simpa [hnum] using hle
  · obtain ⟨r, u, hr, hround⟩ := exists_measured (f := f) s hnum hden
    rw [hround]
    rcases ofParts_cases (f := f) s r u with ⟨n, d, h, hparts, hvalue⟩ | hparts
    · exact ⟨n, d, h, hparts, hvalue ▸ hr.ge_of_canonical hc hle⟩
    · exact absurd hparts (hr.ofParts_ne_infinite hc hle s)

/-! ## Faithful numbers -/

/-- No number of the format lies between a rational number and the value of `x`, which is the
rational number itself if the format has it. -/
structure Faithful (x : Binary f) (q : ℚ) (v : Quantity) : Prop where
  value : x.value? = some v
  le {y : Binary f} {b : Quantity} (hy : y.value? = some b) (h : b ≤ q) : b ≤ v
  ge {y : Binary f} {b : Quantity} (hy : y.value? = some b) (h : (q : Quantity) ≤ b) : v ≤ b

theorem Faithful.eq_of_value {x y : Binary f} {q : ℚ} {v : Quantity} (h : x.Faithful q v)
    (hy : y.value? = some (q : Quantity)) : v = q :=
  le_antisymm (h.ge hy le_rfl) (h.le hy le_rfl)

/-- What is rounded keeps its sign. -/
theorem exists_value?_round (s : Bool) (num : Nat) (hden : 0 < den) :
    ∃ v, (round s num den : Binary f).value? = some v ∧
      if s then v ≤ ((0 : ℚ) : Quantity) else ((0 : ℚ) : Quantity) ≤ v := by
  have hzero : ((0 : Nat) : ℚ) * 2 ^ f.minExp ≤ num / den := by
    rw [Nat.cast_zero, zero_mul]
    positivity
  rcases round_of_le s hden f.canonical_zero hzero with hround | ⟨n, d, h, hround, _⟩
  · rw [hround]
    cases s with
    | false => exact ⟨⊤, rfl, le_top⟩
    | true => exact ⟨⊥, rfl, bot_le⟩
  · rw [hround]
    have hmag : (0 : ℚ) ≤ n * 2 ^ d := by positivity
    refine ⟨_, rfl, ?_⟩
    cases s with
    | false => simpa [signed] using hmag
    | true => simpa [signed] using hmag

/-- A value that is not below zero is its magnitude. -/
theorem signed_value_of_nonneg (h : (0 : ℚ) ≤ signed s m * 2 ^ e) :
    (signed s m : ℚ) * 2 ^ e = m * 2 ^ e := by
  rw [← abs_signed_value s, abs_of_nonneg h]

theorem le_value?_round {v b : Quantity} (hden : 0 < den)
    (hv : (round false num den : Binary f).value? = some v) {y : Binary f}
    (hy : y.value? = some b) (hle : b ≤ ((num / den : ℚ) : Quantity)) : b ≤ v := by
  cases y with
  | nan => cases hy
  | infinite u =>
    obtain rfl := Option.some.inj hy
    cases u with
    | false => exact absurd hle (not_le.mpr (Quantity.lt_top _))
    | true => exact bot_le
  | finite u m e hc =>
    obtain rfl := Option.some.inj hy
    rcases le_or_gt (0 : ℚ) (signed u m * 2 ^ e) with hnonneg | hneg
    · rw [signed_value_of_nonneg hnonneg] at hle ⊢
      rcases round_of_le false hden hc (WithBotTop.coe_le_coe.mp hle) with
        hround | ⟨n, d, h, hround, hvalue⟩
      · rw [hround] at hv
        exact Option.some.inj hv ▸ le_top
      · rw [hround] at hv
        obtain rfl := Option.some.inj hv
        simpa [signed] using hvalue
    · obtain ⟨w, hw, hsign⟩ := exists_value?_round (f := f) false num hden
      obtain rfl : w = v := Option.some.inj (hw.symm.trans hv)
      have hsign : ((0 : ℚ) : Quantity) ≤ w := hsign
      exact (WithBotTop.coe_le_coe.mpr hneg.le).trans hsign

theorem value?_round_le {v b : Quantity} (hden : 0 < den)
    (hv : (round false num den : Binary f).value? = some v) {y : Binary f}
    (hy : y.value? = some b) (hle : ((num / den : ℚ) : Quantity) ≤ b) : v ≤ b := by
  cases y with
  | nan => cases hy
  | infinite u =>
    obtain rfl := Option.some.inj hy
    cases u with
    | false => exact le_top
    | true => exact absurd hle (not_le.mpr (Quantity.bot_lt _))
  | finite u m e hc =>
    obtain rfl := Option.some.inj hy
    have hbound : (num : ℚ) / den ≤ signed u m * 2 ^ e := WithBotTop.coe_le_coe.mp hle
    have hnonneg : (0 : ℚ) ≤ num / den := by positivity
    have hsigned : (0 : ℚ) ≤ signed u m * 2 ^ e := hnonneg.trans hbound
    rw [signed_value_of_nonneg hsigned] at hbound ⊢
    obtain ⟨n, d, h, hround, hvalue⟩ := round_of_ge false hden hc hbound
    rw [hround] at hv
    obtain rfl := Option.some.inj hv
    simpa [signed] using hvalue

/-- A magnitude is rounded past no number. -/
theorem exists_faithful_round_pos (num : Nat) (hden : 0 < den) :
    ∃ v, (round false num den : Binary f).Faithful ((num : ℚ) / den) v := by
  obtain ⟨v, hv, -⟩ := exists_value?_round (f := f) false num hden
  exact ⟨v, hv, le_value?_round hden hv, value?_round_le hden hv⟩

theorem Faithful.neg {x : Binary f} {q : ℚ} {v : Quantity} (h : x.Faithful q v) :
    x.neg.Faithful (-q) v.opposite where
  value := by rw [value?_neg, h.value, Option.map_some]
  le {y b} hy hle := by
    have hneg : y.neg.value? = some b.opposite := by rw [value?_neg, hy, Option.map_some]
    exact Quantity.le_opposite (h.ge hneg (Quantity.le_opposite (b := (q : Quantity)) hle))
  ge {y b} hy hle := by
    have hneg : y.neg.value? = some b.opposite := by rw [value?_neg, hy, Option.map_some]
    exact Quantity.opposite_le (h.le hneg (Quantity.opposite_le (a := (q : Quantity)) hle))

theorem neg_ofParts (s : Bool) (m : Nat) (e : Int) :
    (ofParts s m e : Binary f).neg = ofParts (!s) m e := by
  unfold ofParts
  by_cases hm : m = Nat.pow 2 f.precision
  · simp only [if_pos hm]
    split
    · rfl
    · rfl
  · simp only [if_neg hm]
    split
    · rfl
    · rfl

theorem neg_round (s : Bool) (num den : Nat) :
    (round s num den : Binary f).neg = round (!s) num den := by
  unfold round
  split
  · rfl
  · exact neg_ofParts _ _ _

/-- Rounding is faithful. -/
theorem exists_faithful_round (s : Bool) (num : Nat) (hden : 0 < den) :
    ∃ v, (round s num den : Binary f).Faithful (signed s num / den) v := by
  obtain ⟨v, hv⟩ := exists_faithful_round_pos (f := f) num hden
  cases s with
  | false => exact ⟨v, by simpa [signed] using hv⟩
  | true =>
    refine ⟨v.opposite, ?_⟩
    have hneg := hv.neg
    rw [neg_round] at hneg
    simpa [signed, neg_div] using hneg

/-- An integer is made into the number faithful to it. -/
theorem exists_faithful_ofInt (n : Int) : ∃ v, (ofInt n : Binary f).Faithful n v := by
  obtain ⟨v, hv⟩ := exists_faithful_round (f := f) (decide (n < 0)) n.natAbs Nat.one_pos
  rw [signed_natAbs, Nat.cast_one, div_one] at hv
  exact ⟨v, hv⟩

/-- The number that an integer is made into is told by any sign and magnitude of the integer, but
for the sign of zero. -/
theorem value?_round_signed (s : Bool) (m : Nat) :
    (round s m 1 : Binary f).value? = (ofInt (signed s m) : Binary f).value? := by
  unfold ofInt
  by_cases hm : m = 0
  · have hzero (u : Bool) : (round u 0 1 : Binary f).value? = some (Quantity.ofInt 0) := by
      simp [round, signedZero, value?, signed, Quantity.ofInt]
    rw [hm, hzero, natAbs_signed, hzero]
  · rw [signed_lt_zero hm, natAbs_signed]

/-- A number is taken to another format faithfully. -/
theorem exists_faithful_ofDyadic (s : Bool) (m : Nat) (e : Int) :
    ∃ v, (ofDyadic s m e : Binary f).Faithful (signed s m * 2 ^ e) v := by
  cases e with
  | ofNat e =>
    obtain ⟨v, hv⟩ := exists_faithful_round (f := f) s (m * Nat.pow 2 e) Nat.one_pos
    have hvalue : (signed s (m * Nat.pow 2 e) : ℚ) / (1 : Nat) = signed s m * 2 ^ Int.ofNat e := by
      simp [signed_mul]
    exact ⟨v, hvalue ▸ hv⟩
  | negSucc e =>
    obtain ⟨v, hv⟩ := exists_faithful_round (f := f) s m (Nat.two_pow_pos (e + 1))
    have hvalue : (signed s m : ℚ) / (Nat.pow 2 (e + 1) : Nat) =
        signed s m * 2 ^ Int.negSucc e := by
      simp [zpow_negSucc, div_eq_mul_inv]
    exact ⟨v, hvalue ▸ hv⟩

/-! ## Small integers -/

section

variable {n : Int} {v : Quantity} {x : Binary f}

/-- An integer of no more bits than the precision is a number of the format. -/
theorem exists_value?_ofInt (low : f.minExp ≤ 0) (high : f.precision ≤ f.maxExp)
    (h : n.natAbs ≤ 2 ^ f.precision) : ∃ y : Binary f, y.value? = some (Quantity.ofInt n) := by
  have canonical : ∃ m e, f.Canonical m e ∧ (m : ℚ) * 2 ^ e = n.natAbs := by
    rcases Nat.lt_or_eq_of_le h with hlt | heq
    · obtain ⟨m, e, hc, hvalue⟩ := f.exists_canonical hlt low (by omega)
      exact ⟨m, e, hc, by simpa using hvalue⟩
    · -- the power of two has a bit more, but only one that counts
      obtain ⟨m, e, hc, hvalue⟩ := f.exists_canonical (m := 1) (e := f.precision)
        (Nat.one_lt_two_pow f.precision_pos.ne') (by omega) high
      exact ⟨m, e, hc, by rw [hvalue, heq]; simp⟩
  obtain ⟨m, e, hc, hvalue⟩ := canonical
  refine ⟨.finite (decide (n < 0)) m e hc, congrArg some (congrArg WithBotTop.coe ?_)⟩
  rw [signed_value _ hvalue, signed_natAbs]

/-- If a number is small, every integer that it is faithful to is the number itself. -/
theorem Faithful.eq_ofInt (h : x.Faithful n v) (low : f.minExp ≤ 0)
    (high : f.precision ≤ f.maxExp) (above : Quantity.ofInt (-(2 ^ f.precision : Nat)) < v)
    (below : v < Quantity.ofInt (2 ^ f.precision : Nat)) : v = Quantity.ofInt n := by
  have small : n.natAbs ≤ 2 ^ f.precision := by
    by_contra hlarge
    rcases le_total 0 n with hn | hn
    · obtain ⟨y, hy⟩ := exists_value?_ofInt (n := (2 ^ f.precision : Nat)) low high le_rfl
      have hle : Quantity.ofInt (2 ^ f.precision : Nat) ≤ Quantity.ofInt n :=
        Quantity.ofInt_le_ofInt.mpr (by omega)
      exact absurd below (not_lt.mpr (h.le hy hle))
    · obtain ⟨y, hy⟩ := exists_value?_ofInt (n := -(2 ^ f.precision : Nat)) low high (by simp)
      have hle : Quantity.ofInt n ≤ Quantity.ofInt (-(2 ^ f.precision : Nat)) :=
        Quantity.ofInt_le_ofInt.mpr (by omega)
      exact absurd above (not_lt.mpr (h.ge hy hle))
  obtain ⟨y, hy⟩ := exists_value?_ofInt low high small
  exact h.eq_of_value hy

/-- A number that needs all the bits of its format is an integer. -/
theorem exists_int_of_large {q : ℚ} (hx : x.value? = some (q : Quantity))
    (large : (2 : ℚ) ^ f.precision ≤ |q|) : ∃ k : Int, q = k := by
  cases x with
  | nan => cases hx
  | infinite s =>
    cases s with
    | false => exact absurd (Option.some.inj hx) (WithBotTop.coe_ne_top q).symm
    | true => exact absurd (Option.some.inj hx) (WithBotTop.coe_ne_bot q).symm
  | finite s m e h =>
    obtain rfl : (signed s m : ℚ) * 2 ^ e = q := WithBotTop.coe_injective (Option.some.inj hx)
    have hpos : 0 < e := by
      rw [abs_signed_value] at large
      have hlt := large.trans_lt h.value_lt
      rw [← zpow_natCast] at hlt
      have := (zpow_lt_zpow_iff_right₀ (by norm_num : (1 : ℚ) < 2)).mp hlt
      omega
    obtain ⟨d, rfl⟩ := Int.eq_ofNat_of_zero_le hpos.le
    exact ⟨signed s m * 2 ^ d, by push_cast; rfl⟩

/-- A number that is faithful to an integer is the integer, or an integer that needs all the bits of
the format, or infinite. -/
theorem Faithful.whole (h : x.Faithful n v) (low : f.minExp ≤ 0) (high : f.precision ≤ f.maxExp) :
    v = Quantity.ofInt n ∨ (∃ k : Int, v = Quantity.ofInt k ∧ 2 ^ f.precision ≤ k.natAbs) ∨
      v = ⊥ ∨ v = ⊤ := by
  rcases v with _ | _ | q
  · exact Or.inr (Or.inr (Or.inl rfl))
  · exact Or.inr (Or.inr (Or.inr rfl))
  · by_cases large : (2 : ℚ) ^ f.precision ≤ |q|
    · obtain ⟨k, rfl⟩ := exists_int_of_large h.value large
      refine Or.inr (Or.inl ⟨k, rfl, ?_⟩)
      rw [← Int.cast_abs, Int.abs_eq_natAbs] at large
      exact_mod_cast large
    · obtain ⟨above, below⟩ := abs_lt.mp (not_le.mp large)
      left
      apply h.eq_ofInt low high
      · exact WithBotTop.coe_lt_coe.mpr (by push_cast; exact above)
      · exact WithBotTop.coe_lt_coe.mpr (by push_cast; exact below)

end

end Binary

end Settings

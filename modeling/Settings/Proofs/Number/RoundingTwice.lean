import Settings.Proofs.Number.Nearest

/-!
# Rounding twice

A number that is rounded to a wide format, and from there to a narrow one, does not always end where
it would if it were rounded to the narrow format at once. Between two neighbours of the narrow
format everything is decided by their middle. The wide format has the middle among its numbers, so
rounding to it does not carry a number across; but it may carry a number onto the middle. Then the
second rounding finds a tie that was none, and takes the neighbour with the even significand
although the number was nearer to the other one (`Binary.Astray`). This is the only way for the two
results to differ (`Binary.convert_round_ne_iff`).
-/

set_option autoImplicit false

namespace Settings

/-! ## Halves to even -/

section

variable {num den a : Nat}

/-- A fraction in terms of the whole number below it. -/
theorem quotient_of_between (low : a * den ≤ num) (high : num < (a + 1) * den) :
    num / den = a ∧ den * a + num % den = num := by
  have hquot : num / den = a := Nat.div_eq_of_lt_le low high
  exact ⟨hquot, hquot ▸ Nat.div_add_mod num den⟩

theorem roundHalfEven_of_lt_half (low : a * den ≤ num) (h : num * 2 < (2 * a + 1) * den) :
    roundHalfEven num den = a := by
  have hhalf : (2 * a + 1) * den = 2 * (den * a) + den := by ring
  have hnext : (a + 1) * den = den * a + den := by ring
  obtain ⟨hquot, hrest⟩ := quotient_of_between low (by omega)
  unfold roundHalfEven
  simp only [hquot]
  rw [if_pos (by omega)]

theorem roundHalfEven_of_gt_half (h : (2 * a + 1) * den < num * 2) (high : num < (a + 1) * den) :
    roundHalfEven num den = a + 1 := by
  have hhalf : (2 * a + 1) * den = 2 * (den * a) + den := by ring
  have hfirst : a * den = den * a := by ring
  obtain ⟨hquot, hrest⟩ := quotient_of_between (by omega) high
  unfold roundHalfEven
  simp only [hquot]
  rw [if_neg (by omega), if_pos (by omega)]

theorem roundHalfEven_half (hden : 0 < den) (h : (2 * a + 1) * den = num * 2) :
    roundHalfEven num den = if a % 2 = 0 then a else a + 1 := by
  have hhalf : (2 * a + 1) * den = 2 * (den * a) + den := by ring
  have hfirst : a * den = den * a := by ring
  have hnext : (a + 1) * den = den * a + den := by ring
  have low : a * den ≤ num := by omega
  obtain ⟨hquot, hrest⟩ := quotient_of_between low (by omega)
  unfold roundHalfEven
  simp only [hquot]
  rw [if_neg (by omega), if_neg (by omega)]

end

/-! ## Neighbours -/

/-- What lies midway between `m` units of `2 ^ e` and one unit more. -/
def middle (m : Nat) (e : Int) : ℚ := ((2 * m + 1 : Nat) : ℚ) / 2 * 2 ^ e

theorem lt_middle (m : Nat) (e : Int) : (m : ℚ) * 2 ^ e < middle m e := by
  unfold middle
  gcongr
  push_cast
  linarith

theorem middle_lt (m : Nat) (e : Int) : middle m e < (m + 1) * 2 ^ e := by
  unfold middle
  gcongr
  push_cast
  linarith

theorem middle_eq (m : Nat) (e : Int) : middle m e = ((2 * m + 1 : Nat) : ℚ) * 2 ^ (e - 1) := by
  unfold middle
  rw [zpow_sub₀ (by norm_num), zpow_one]
  ring

/-- A number, the middle behind it, and the next number. -/
inductive Mark (m : Nat) (e : Int) : ℚ → Prop
  | number : Mark m e (m * 2 ^ e)
  | middle : Mark m e (middle m e)
  | next : Mark m e ((m + 1) * 2 ^ e)

/-- A magnitude in the range lies between two neighbours of the format. -/
theorem Format.exists_between (f : Format) {q : ℚ} (hq : 0 ≤ q)
    (h : q < 2 ^ (f.maxExp + f.precision)) :
    ∃ m e, f.Canonical m e ∧ (m : ℚ) * 2 ^ e ≤ q ∧ q < (m + 1) * 2 ^ e := by
  rcases hq.eq_or_lt with rfl | hpos
  · exact ⟨0, f.minExp, f.canonical_zero, by simp, by positivity⟩
  have hlow : (2 : ℚ) ^ Int.log 2 q ≤ q := by
    exact_mod_cast Int.zpow_log_le_self Nat.one_lt_two hpos
  have hhigh : q < 2 ^ (Int.log 2 q + 1) := by
    exact_mod_cast Int.lt_zpow_succ_log_self Nat.one_lt_two q
  have horder := (zpow_lt_zpow_iff_right₀ (by norm_num : (1 : ℚ) < 2)).mp (hlow.trans_lt h)
  generalize Int.log 2 q = order at hlow hhigh horder
  have hp := f.precision_pos
  have hrange := f.minExp_le_maxExp
  obtain ⟨u, hu⟩ : ∃ u, max f.minExp (order - (f.precision - 1 : Nat)) = u := ⟨_, rfl⟩
  have hpow : (0 : ℚ) < 2 ^ u := by positivity
  have hbelow : ((⌊q / 2 ^ u⌋₊ : Nat) : ℚ) * 2 ^ u ≤ q :=
    (le_div_iff₀ hpow).mp (Nat.floor_le (by positivity))
  refine ⟨⌊q / 2 ^ u⌋₊, u, ⟨?_, by omega, by omega, ?_⟩, hbelow, ?_⟩
  · have hbound : q < (2 ^ f.precision : Nat) * 2 ^ u := by
      rw [Binary.natPow_mul_zpow]
      exact hhigh.trans_le (zpow_le_zpow_right₀ (by norm_num) (by omega))
    have hlt := hbelow.trans_lt hbound
    exact_mod_cast lt_of_mul_lt_mul_right hlt hpow.le
  · by_cases hleast : u = f.minExp
    · exact Or.inr hleast
    · left
      have hfull : u + (f.precision - 1 : Nat) = order := by omega
      refine Nat.le_floor ((le_div_iff₀ hpow).mpr ?_)
      rw [Nat.pow_eq, Binary.natPow_mul_zpow, hfull]
      exact hlow
  · rw [← div_lt_iff₀ hpow]
    exact Nat.lt_floor_add_one _

namespace Binary

variable {f g : Format} {num den m n : Nat} {s : Bool} {e d : Int}

/-- How a fraction compares with another one in units of `2 ^ e` is told by its measure. -/
theorem lt_measure_iff (num : Nat) (hden : 0 < den) (e : Int) (a : Nat) {b : Nat} (hb : 0 < b) :
    (a : ℚ) / b * 2 ^ e < num / den ↔ a * (inUnits num den e).2 < (inUnits num den e).1 * b := by
  have hpos : (0 : ℚ) < (inUnits num den e).2 := by exact_mod_cast inUnits_pos num hden e
  have hb' : (0 : ℚ) < b := by exact_mod_cast hb
  have hpow : (0 : ℚ) < 2 ^ e := by positivity
  rw [← lt_div_iff₀ hpow, ← inUnits_value num hden, div_lt_div_iff₀ hb' hpos]
  norm_cast

theorem measure_lt_iff (num : Nat) (hden : 0 < den) (e : Int) (a : Nat) {b : Nat} (hb : 0 < b) :
    (num : ℚ) / den < a / b * 2 ^ e ↔ (inUnits num den e).1 * b < a * (inUnits num den e).2 := by
  have hpos : (0 : ℚ) < (inUnits num den e).2 := by exact_mod_cast inUnits_pos num hden e
  have hb' : (0 : ℚ) < b := by exact_mod_cast hb
  have hpow : (0 : ℚ) < 2 ^ e := by positivity
  rw [← div_lt_iff₀ hpow, ← inUnits_value num hden, div_lt_div_iff₀ hpos hb']
  norm_cast

/-- Between two neighbours a fraction is rounded in their unit. -/
theorem round_of_between (s : Bool) (hc : f.Canonical m e) (hden : 0 < den)
    (low : (m : ℚ) * 2 ^ e ≤ num / den) (high : (num : ℚ) / den < (m + 1) * 2 ^ e) :
    (round s num den : Binary f) =
      ofParts s (roundHalfEven (inUnits num den e).1 (inUnits num den e).2) e := by
  have hpow : (0 : ℚ) < 2 ^ e := by positivity
  by_cases hnum : num = 0
  · have hvalue : (num : ℚ) / den = m * 2 ^ e := by
      refine le_antisymm ?_ low
      rw [hnum]
      simp only [Nat.cast_zero, zero_div]
      positivity
    have hmeasure : (inUnits num den e).1 = 0 := by
      cases e <;> simp [inUnits, hnum]
    have hm : m = 0 := by
      rw [hnum, Nat.cast_zero, zero_div] at hvalue
      have := (mul_eq_zero.mp hvalue.symm).resolve_right hpow.ne'
      exact_mod_cast this
    subst hm
    rw [round_eq_finite s hc hden hvalue, hmeasure, ← ofParts_of_canonical]
    congr 1
    simp [roundHalfEven, inUnits_pos num hden e]
  · have hpos : (0 : ℚ) < num / den := by
      have : 0 < num := Nat.pos_of_ne_zero hnum
      positivity
    refine round_eq_ofParts s hnum ?_
    rw [binaryOrder_eq_log (Nat.pos_of_ne_zero hnum) hden]
    exact unit_of_between hc hpos low high

/-- The measure of what lies between two neighbours. -/
theorem measure_of_between (hden : 0 < den) (low : (m : ℚ) * 2 ^ e ≤ num / den)
    (high : (num : ℚ) / den < (m + 1) * 2 ^ e) :
    m * (inUnits num den e).2 ≤ (inUnits num den e).1 ∧
      (inUnits num den e).1 < (m + 1) * (inUnits num den e).2 := by
  have hlow := (measure_lt_iff num hden e m Nat.one_pos).not.mp (by simpa using low)
  have hhigh := (measure_lt_iff num hden e (m + 1) Nat.one_pos).mp (by simpa using high)
  omega

section

variable (s) (hc : f.Canonical m e) (hden : 0 < den)
include hc hden

theorem round_of_lt_middle (low : (m : ℚ) * 2 ^ e ≤ num / den)
    (h : (num : ℚ) / den < middle m e) : round s num den = .finite s m e hc := by
  have high := h.trans (middle_lt m e)
  have hmeasure := (measure_lt_iff num hden e (2 * m + 1) Nat.two_pos).mp h
  rw [round_of_between s hc hden low high,
    roundHalfEven_of_lt_half (measure_of_between hden low high).1 hmeasure]
  exact ofParts_of_canonical s hc

theorem round_of_middle_lt (h : middle m e < (num : ℚ) / den)
    (high : (num : ℚ) / den < (m + 1) * 2 ^ e) :
    (round s num den : Binary f) = ofParts s (m + 1) e := by
  have low := (lt_middle m e).trans h
  have hmeasure := (lt_measure_iff num hden e (2 * m + 1) Nat.two_pos).mp h
  rw [round_of_between s hc hden low.le high,
    roundHalfEven_of_gt_half hmeasure (measure_of_between hden low.le high).2]

theorem round_middle (h : (num : ℚ) / den = middle m e) : (round s num den : Binary f) =
    if m % 2 = 0 then .finite s m e hc else ofParts s (m + 1) e := by
  have hbelow := (lt_measure_iff num hden e (2 * m + 1) Nat.two_pos).not.mp h.le.not_gt
  have habove := (measure_lt_iff num hden e (2 * m + 1) Nat.two_pos).not.mp h.ge.not_gt
  rw [round_of_between s hc hden (h ▸ (lt_middle m e).le) (h ▸ middle_lt m e),
    roundHalfEven_half (a := m) (inUnits_pos num hden e) (by omega)]
  split
  · exact ofParts_of_canonical s hc
  · rfl

end

/-! ## The end of the range -/

theorem ofParts_of_maxExp_lt (s : Bool) (n : Nat) (h : f.maxExp < d) :
    (ofParts s n d : Binary f) = .infinite s := by
  unfold ofParts
  by_cases hn : n = Nat.pow 2 f.precision
  · simp only [if_pos hn]
    exact dif_neg fun hc => absurd hc.2.2.1 (by omega)
  · simp only [if_neg hn]
    exact dif_neg fun hc => absurd hc.2.2.1 (by omega)

/-- A magnitude past the range is infinite. -/
theorem round_of_range_le (s : Bool) (hden : 0 < den)
    (h : (2 : ℚ) ^ (f.maxExp + f.precision) ≤ num / den) :
    (round s num den : Binary f) = .infinite s := by
  have hnum : num ≠ 0 := by
    rintro rfl
    rw [Nat.cast_zero, zero_div] at h
    exact absurd h (not_le.mpr (by positivity))
  obtain ⟨r, u, hr, hround⟩ := exists_measured (f := f) s hnum hden
  have hlt := h.trans_lt hr.bounded
  have := (zpow_lt_zpow_iff_right₀ (by norm_num : (1 : ℚ) < 2)).mp hlt
  rw [hround]
  exact ofParts_of_maxExp_lt s r (by omega)

/-- The next number of the format, if there is one, and otherwise the end of the range. -/
theorem ofParts_succ_cases (s : Bool) (hc : f.Canonical m e) :
    (∃ n d, ∃ h : f.Canonical n d, ofParts s (m + 1) e = .finite s n d h ∧
        (n : ℚ) * 2 ^ d = (m + 1) * 2 ^ e) ∨
      ((ofParts s (m + 1) e : Binary f) = .infinite s ∧
        ((m : ℚ) + 1) * 2 ^ e = 2 ^ (f.maxExp + f.precision)) := by
  rcases ofParts_cases (f := f) s (m + 1) e with ⟨n, d, h, hparts, hvalue⟩ | hparts
  · exact Or.inl ⟨n, d, h, hparts, by exact_mod_cast hvalue⟩
  · refine Or.inr ⟨hparts, ?_⟩
    obtain ⟨hm, hmin, hmax, hfull⟩ := hc
    have hlast : m + 1 = 2 ^ f.precision := by
      by_contra hne
      have canonical : f.Canonical (m + 1) e :=
        ⟨lt_of_le_of_ne hm hne, hmin, hmax, hfull.imp_left (Nat.le_succ_of_le ·)⟩
      rw [ofParts_of_canonical s canonical] at hparts
      cases hparts
    have htop : e = f.maxExp := by
      by_contra hne
      have hpow : Nat.pow 2 (f.precision - 1) < Nat.pow 2 f.precision :=
        Nat.pow_lt_pow_right (by decide) (by have := f.precision_pos; omega)
      have canonical : f.Canonical (Nat.pow 2 (f.precision - 1)) (e + 1) :=
        ⟨hpow, by omega, by omega, Or.inl (Nat.le_refl _)⟩
      unfold ofParts at hparts
      simp only [if_pos (show m + 1 = Nat.pow 2 f.precision from hlast)] at hparts
      rw [dif_pos canonical] at hparts
      cases hparts
    have hcast : (m : ℚ) + 1 = (2 ^ f.precision : Nat) := by exact_mod_cast hlast
    rw [hcast, natPow_mul_zpow, htop]

/-- A magnitude that is the next number of the format is rounded to it. -/
theorem round_next (s : Bool) (hc : f.Canonical m e) (hden : 0 < den)
    (h : (num : ℚ) / den = (m + 1) * 2 ^ e) :
    (round s num den : Binary f) = ofParts s (m + 1) e := by
  rcases ofParts_succ_cases s hc with ⟨n, d, hn, hparts, hvalue⟩ | ⟨hparts, hvalue⟩
  · rw [hparts]
    exact round_eq_finite s hn hden (h.trans hvalue.symm)
  · rw [hparts]
    exact round_of_range_le s hden (hvalue ▸ h.ge)

theorem ofParts_succ_ne (s : Bool) (hc : f.Canonical m e) :
    ofParts s (m + 1) e ≠ .finite s m e hc := by
  intro h
  rcases ofParts_succ_cases s hc with ⟨n, d, hn, hparts, hvalue⟩ | ⟨hparts, -⟩
  · obtain ⟨-, rfl, rfl⟩ := Binary.finite.inj (hparts.symm.trans h)
    have := (lt_middle n d).trans (middle_lt n d)
    exact this.ne hvalue
  · cases hparts.symm.trans h

/-! ## Two formats -/

/-- Reading the parts of a number is rounding a fraction of its value. -/
theorem exists_ofDyadic (s : Bool) (m : Nat) (e : Int) :
    ∃ num den : Nat, 0 < den ∧ (num : ℚ) / den = m * 2 ^ e ∧
      (ofDyadic s m e : Binary f) = round s num den := by
  cases e with
  | ofNat e =>
    refine ⟨m * Nat.pow 2 e, 1, Nat.one_pos, ?_, rfl⟩
    simp [Nat.pow_eq]
  | negSucc e =>
    refine ⟨m, Nat.pow 2 (e + 1), Nat.two_pow_pos _, ?_, rfl⟩
    simp only [Nat.pow_eq, Nat.cast_pow, Nat.cast_ofNat, zpow_negSucc]
    rw [div_eq_mul_inv]

end Binary

namespace Format

/-- The wide format has the numbers of the narrow one, their middles, and the end of its range. -/
structure Within (f g : Format) : Prop where
  precision : f.precision < g.precision
  least : g.minExp < f.minExp
  range : f.maxExp + f.precision ≤ g.maxExp

theorem single_within_double : single.Within double := ⟨by decide, by decide, by decide⟩

variable {f g : Format} {m : Nat} {e : Int}

theorem Within.two_mul_lt (w : f.Within g) (hm : m < 2 ^ f.precision) :
    2 * m + 1 < 2 ^ g.precision := by
  have hpow : 2 ^ (f.precision + 1) ≤ 2 ^ g.precision :=
    Nat.pow_le_pow_right Nat.two_pos w.precision
  rw [Nat.pow_succ] at hpow
  omega

/-- A number of the narrow format, the middle behind it and the next number are in the wide one. -/
theorem Within.exists_canonical (w : f.Within g) (hc : f.Canonical m e) {q : ℚ}
    (mark : Mark m e q) : ∃ n d, g.Canonical n d ∧ (n : ℚ) * 2 ^ d = q := by
  have hwide := w.two_mul_lt hc.1
  have hmin := hc.2.1
  have hmax := hc.2.2.1
  have hp := f.precision_pos
  have hleast := w.least
  have hrange := w.range
  cases mark with
  | number => exact g.exists_canonical (by omega) (by omega) (by omega)
  | middle =>
    rw [middle_eq]
    exact g.exists_canonical hwide (by omega) (by omega)
  | next =>
    by_cases hm : m = 0
    · -- twice zero and one more does not bound the next number
      have hone := g.exists_canonical (m := 1) (e := e) (Nat.one_lt_two_pow g.precision_pos.ne')
        (by omega) (by omega)
      simpa [hm] using hone
    · have hnext := g.exists_canonical (m := m + 1) (e := e) (by omega) (by omega) (by omega)
      simpa using hnext

/-- And so is the end of the range of the narrow one. -/
theorem Within.exists_range (w : f.Within g) :
    ∃ n d, g.Canonical n d ∧ (n : ℚ) * 2 ^ d = 2 ^ (f.maxExp + f.precision) := by
  have hleast := w.least
  have hrange := f.minExp_le_maxExp
  have hend := g.exists_canonical (m := 1) (e := f.maxExp + f.precision)
    (Nat.one_lt_two_pow g.precision_pos.ne') (by omega) w.range
  simpa using hend

end Format

namespace Binary

variable {f g : Format} {num den m n : Nat} {s : Bool} {e d : Int}

section

variable (w : f.Within g) (hc : f.Canonical m e) (hden : 0 < den)
include w hc hden

/-- Below the next number of the narrow format the wide format rounds to a finite number. -/
theorem exists_wide_round (s : Bool) (high : (num : ℚ) / den ≤ (m + 1) * 2 ^ e) :
    ∃ n d, ∃ h : g.Canonical n d, round s num den = .finite s n d h := by
  obtain ⟨a, k, hwide, hvalue⟩ := w.exists_canonical hc .next
  obtain ⟨n, d, h, hround, -⟩ := round_of_ge s hden hwide (hvalue ▸ high)
  exact ⟨n, d, h, hround⟩

variable {h : g.Canonical n d} (hround : round s num den = .finite s n d h)
include hround

/-- Rounding to the wide format carries nothing across a mark of the narrow one. -/
theorem wide_round_le {q : ℚ} (mark : Mark m e q) (hle : (num : ℚ) / den ≤ q) :
    (n : ℚ) * 2 ^ d ≤ q := by
  obtain ⟨a, k, hwide, rfl⟩ := w.exists_canonical hc mark
  obtain ⟨n', d', h', hround', hvalue⟩ := round_of_ge s hden hwide hle
  obtain ⟨-, rfl, rfl⟩ := Binary.finite.inj (hround'.symm.trans hround)
  exact hvalue

theorem le_wide_round {q : ℚ} (mark : Mark m e q) (hle : q ≤ (num : ℚ) / den) :
    q ≤ n * 2 ^ d := by
  obtain ⟨a, k, hwide, rfl⟩ := w.exists_canonical hc mark
  rcases round_of_le s hden hwide hle with hinf | ⟨n', d', h', hround', hvalue⟩
  · cases hinf.symm.trans hround
  · obtain ⟨-, rfl, rfl⟩ := Binary.finite.inj (hround'.symm.trans hround)
    exact hvalue

/-- Between two neighbours the results differ if the fraction was carried onto their middle, and the
tie is then not broken towards it. -/
theorem convert_ne_iff_of_between (low : (m : ℚ) * 2 ^ e ≤ num / den)
    (high : (num : ℚ) / den < (m + 1) * 2 ^ e) :
    (convert (.finite s n d h : Binary g) : Binary f) ≠ round s num den ↔
      (n : ℚ) * 2 ^ d = middle m e ∧ ((num : ℚ) / den < middle m e ∧ m % 2 = 1 ∨
        middle m e < (num : ℚ) / den ∧ m % 2 = 0) := by
  have hlow := le_wide_round w hc hden hround .number low
  have hhigh := wide_round_le w hc hden hround .next high.le
  have hbelow := wide_round_le w hc hden hround .middle
  have habove := le_wide_round w hc hden hround .middle
  obtain ⟨num', den', hden', hvalue, hread⟩ := exists_ofDyadic (f := f) s n d
  rw [← hvalue] at hlow hhigh hbelow habove ⊢
  show (ofDyadic s n d : Binary f) ≠ round s num den ↔ _
  rw [hread]
  rcases lt_trichotomy ((num : ℚ) / den) (middle m e) with hlt | heq | hgt
  · rw [round_of_lt_middle s hc hden low hlt]
    rcases (hbelow hlt.le).lt_or_eq with hr | hr
    · simp [round_of_lt_middle s hc hden' hlow hr, hr.ne]
    · rw [round_middle s hc hden' hr]
      rcases Nat.mod_two_eq_zero_or_one m with heven | hodd
      · simp [heven, hlt.not_gt]
      · simp [hodd, hr, hlt, ofParts_succ_ne]
  · -- the middle is a number of the wide format
    have hr : (num' : ℚ) / den' = num / den :=
      heq ▸ le_antisymm (hbelow heq.le) (habove heq.ge)
    rw [round_congr s hden' hden hr]
    simp [heq]
  · rw [round_of_middle_lt s hc hden hgt high]
    rcases (habove hgt.le).lt_or_eq with hr | hr
    · have hnext : (round s num' den' : Binary f) = ofParts s (m + 1) e := by
        rcases hhigh.lt_or_eq with hr' | hr'
        · exact round_of_middle_lt s hc hden' hr hr'
        · exact round_next s hc hden' hr'
      simp [hnext, hr.ne']
    · rw [round_middle s hc hden' hr.symm]
      rcases Nat.mod_two_eq_zero_or_one m with heven | hodd
      · simp [heven, hr.symm, hgt, (ofParts_succ_ne s hc).symm]
      · simp [hodd, hgt.not_gt]

end

/-- Past the end of the range of the narrow format both ways lead to an infinity. -/
theorem convert_round_of_range_le (w : f.Within g) (s : Bool) (hden : 0 < den)
    (h : (2 : ℚ) ^ (f.maxExp + f.precision) ≤ num / den) :
    (convert (round s num den : Binary g) : Binary f) = round s num den := by
  rw [round_of_range_le (f := f) s hden h]
  obtain ⟨a, k, hwide, hend⟩ := w.exists_range
  rcases round_of_le s hden hwide (hend ▸ h) with hinf | ⟨n, d, hn, hround, hvalue⟩
  · rw [hinf]
    rfl
  · obtain ⟨num', den', hden', hratio, hread⟩ := exists_ofDyadic (f := f) s n d
    rw [hround]
    show (ofDyadic s n d : Binary f) = _
    rw [hread]
    refine round_of_range_le s hden' ?_
    rw [hratio, ← hend]
    exact hvalue

/-- The magnitude `q` has been rounded to the middle `r` between two neighbours of the format. It
was not the middle, and the neighbour with the even significand is not the one on its side. -/
inductive Astray (f : Format) (q r : ℚ) : Prop
  | up {m : Nat} {e : Int} (canonical : f.Canonical m e) (odd : m % 2 = 1) (below : q < r)
      (tie : r = middle m e)
  | down {m : Nat} {e : Int} (canonical : f.Canonical m e) (even : m % 2 = 0) (above : r < q)
      (tie : r = middle m e)

/-- Rounding to the wide format first makes a difference just if it makes a tie that goes astray. -/
theorem convert_round_ne_iff (w : f.Within g) (s : Bool) (hden : 0 < den) :
    (convert (round s num den : Binary g) : Binary f) ≠ round s num den ↔
      ∃ n d, ∃ h : g.Canonical n d, round s num den = .finite s n d h ∧
        Astray f (num / den) (n * 2 ^ d) := by
  have hnonneg : (0 : ℚ) ≤ num / den := by positivity
  constructor
  · intro hne
    rcases lt_or_ge ((num : ℚ) / den) (2 ^ (f.maxExp + f.precision)) with hrange | hrange
    · obtain ⟨m, e, hc, low, high⟩ := f.exists_between hnonneg hrange
      obtain ⟨n, d, h, hround⟩ := exists_wide_round w hc hden s high.le
      rw [hround, convert_ne_iff_of_between w hc hden hround low high] at hne
      obtain ⟨htie, ⟨hside, hm⟩ | ⟨hside, hm⟩⟩ := hne
      · exact ⟨n, d, h, hround, .up hc hm (htie ▸ hside) htie⟩
      · exact ⟨n, d, h, hround, .down hc hm (htie ▸ hside) htie⟩
    · exact absurd (convert_round_of_range_le w s hden hrange) hne
  · rintro ⟨n, d, h, hround, hastray⟩
    rw [hround]
    -- rounding passes none of the two neighbours, so the fraction lies between them
    cases hastray with
    | @up m e hc hodd hbelow htie =>
      have low : (m : ℚ) * 2 ^ e ≤ num / den := by
        by_contra hlt
        have hle := wide_round_le w hc hden hround .number (not_le.mp hlt).le
        rw [htie] at hle
        exact absurd hle (not_le.mpr (lt_middle m e))
      have high : (num : ℚ) / den < (m + 1) * 2 ^ e := (htie ▸ hbelow).trans (middle_lt m e)
      exact (convert_ne_iff_of_between w hc hden hround low high).mpr
        ⟨htie, Or.inl ⟨htie ▸ hbelow, hodd⟩⟩
    | @down m e hc heven habove htie =>
      have low : (m : ℚ) * 2 ^ e ≤ num / den := ((lt_middle m e).trans (htie ▸ habove)).le
      have high : (num : ℚ) / den < (m + 1) * 2 ^ e := by
        by_contra hge
        have hle := le_wide_round w hc hden hround .next (not_lt.mp hge)
        rw [htie] at hle
        exact absurd hle (not_le.mpr (middle_lt m e))
      exact (convert_ne_iff_of_between w hc hden hround low high).mpr
        ⟨htie, Or.inr ⟨htie ▸ habove, heven⟩⟩

end Binary

end Settings

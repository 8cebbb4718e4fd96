import Settings.Proofs.Number.Nearest
import Settings.Proofs.Number.Numerals

/-!
# Numbers that are whole

`Binary.Denotes` ties a number of a binary format to the whole number that it is exactly, if it is
one. The whole part of any number is again a number (`value?_truncate`).

An integer is made into the nearest number. Up to `2 ^ 53` in magnitude that number is the integer
itself (`denotes_ofInt_of_le`); beyond, it is a whole number all the same. As rounding passes no
number, it never brings a large integer down among the small ones (`eq_of_ofInt_eq`).
-/

set_option autoImplicit false

namespace Settings

namespace Binary

variable {f : Format} {x y : Binary f} {j k : Int}

/-! ## Numbers as integers -/

/-- The number is the integer exactly. Of the two zeros it is the positive one. -/
inductive Denotes : Binary f → Int → Prop
  | intro {m : Nat} {e k : Int} (canonical : f.Canonical m e)
      (value : (m : ℚ) * 2 ^ e = k.natAbs) :
      Denotes (.finite (decide (k < 0)) m e canonical) k

theorem Denotes.value? (h : x.Denotes k) : x.value? = some (Quantity.ofInt k) := by
  cases h with
  | @intro m e _ _ value =>
    refine congrArg some (congrArg WithBotTop.coe ?_)
    rw [signed_value _ value, signed_natAbs]

/-- A number that is an integer is the nearest number to it. -/
theorem Denotes.ofInt_eq (h : x.Denotes k) : ofInt k = x := by
  cases h with
  | intro canonical value =>
    exact round_eq_finite _ canonical Nat.one_pos (by rw [value, Nat.cast_one, div_one])

/-- An integer of the format is made into itself. -/
theorem denotes_ofInt_of_canonical {m : Nat} {e : Int} (h : f.Canonical m e)
    (value : (m : ℚ) * 2 ^ e = k.natAbs) : (ofInt k : Binary f).Denotes k := by
  have hfinite := Denotes.intro h value
  rwa [← hfinite.ofInt_eq] at hfinite

/-! ### Whole parts -/

theorem fraction_div {m n : Nat} {e : Int} (h : (m : ℚ) * 2 ^ e = n) :
    (fraction m e).1 / (fraction m e).2 = n := by
  have hpos := fraction_pos m e
  have hvalue := fraction_value m e
  rw [h, div_eq_iff (by exact_mod_cast hpos.ne')] at hvalue
  exact Nat.div_eq_of_eq_mul_left hpos (by exact_mod_cast hvalue)

theorem Denotes.truncate? (h : x.Denotes k) : x.truncate? = some k := by
  rw [truncate?_eq, h.value?]
  exact congrArg some (wholePart_intCast k)

/-! ## Integers made into doubles -/

section

variable {n : Int}

/-- A significand of all the bits there are is canonical wherever the exponent may be. -/
theorem canonical_double {m : Nat} {e : Int} (low : 2 ^ 52 ≤ m) (high : m < 2 ^ 53)
    (hmin : -1074 ≤ e) (hmax : e ≤ 971) : Format.double.Canonical m e :=
  ⟨high, hmin, hmax, Or.inl low⟩

theorem denotes_ofInt_two_pow {b : Nat} (hn : n.natAbs = 2 ^ b) (hb : b ≤ 1023) :
    (ofInt n : Double).Denotes n := by
  have canonical : Format.double.Canonical (2 ^ 52) ((b : Int) - 52) :=
    canonical_double (Nat.le_refl _) (by decide) (by omega) (by omega)
  refine denotes_ofInt_of_canonical canonical ?_
  have hexp : (b : Int) - 52 + (52 : Nat) = b := by omega
  rw [hn, natPow_mul_zpow, hexp, zpow_natCast, Nat.cast_pow, Nat.cast_ofNat]

/-- Small integers are numbers exactly. -/
theorem denotes_ofInt_of_le (h : n.natAbs ≤ 2 ^ 53) : (ofInt n : Double).Denotes n := by
  by_cases hzero : n.natAbs = 0
  · exact denotes_ofInt_of_canonical Format.double.canonical_zero (by simp [hzero])
  by_cases htop : n.natAbs = 2 ^ 53
  · exact denotes_ofInt_two_pow htop (by decide)
  obtain ⟨m, e, canonical, value⟩ :=
    Format.double.exists_canonical (m := n.natAbs) (e := 0)
      (by show n.natAbs < 2 ^ 53; omega) (by decide) (by decide)
  exact denotes_ofInt_of_canonical canonical (by simpa using value)

/-- The whole part of a number is a number. -/
theorem exists_value?_whole_part (s : Bool) {m : Nat} {e : Int} (h : Format.double.Canonical m e) :
    ∃ y : Double, y.value? =
      some (Quantity.ofInt (signed s ((fraction m e).1 / (fraction m e).2))) := by
  cases e with
  | ofNat e =>
    refine ⟨.finite s m e h, congrArg some (congrArg WithBotTop.coe ?_)⟩
    simp [fraction, signed_mul]
  | negSucc e =>
    -- the fraction is cut off a significand of no more bits than the precision
    have hlt : m / Nat.pow 2 (e + 1) < 2 ^ Format.double.precision :=
      (Nat.div_le_self _ _).trans_lt h.1
    obtain ⟨n, d, canonical, value⟩ :=
      Format.double.exists_canonical (e := 0) hlt (by decide) (by decide)
    refine ⟨.finite s n d canonical, congrArg some (congrArg WithBotTop.coe ?_)⟩
    rw [zpow_zero, mul_one] at value
    exact signed_value s value

theorem value?_truncate {x : Double} (h : x.truncate? = some k) :
    x.truncate.value? = some (Quantity.ofInt k) := by
  cases x with
  | nan => cases h
  | infinite s => cases h
  | finite s m e canonical =>
    obtain rfl := Option.some.inj h
    obtain ⟨y, hy⟩ := exists_value?_whole_part s canonical
    obtain ⟨v, hv⟩ := exists_faithful_round (f := .double) s
      ((fraction m e).1 / (fraction m e).2) Nat.one_pos
    rw [Nat.cast_one, div_one] at hv
    exact hv.value.trans (congrArg some (hv.eq_of_value hy))

/-- The order of a whole number is that of its digits. -/
theorem binaryOrder_one {n : Nat} (hn : n ≠ 0) : binaryOrder n 1 = n.log2 := by
  have low : (2 : ℚ) ^ (n.log2 : Int) ≤ n := by exact_mod_cast Nat.log2_self_le hn
  have high : (n : ℚ) < 2 ^ ((n.log2 : Int) + 1) := by exact_mod_cast Nat.lt_log2_self
  rw [binaryOrder_eq_log (Nat.pos_of_ne_zero hn) Nat.one_pos, Nat.cast_one, div_one]
  exact log_two_eq (by exact_mod_cast Nat.pos_of_ne_zero hn) low high

theorem denotes_signed (s : Bool) {m n : Nat} {e : Int} (h : f.Canonical m e) (hn : n ≠ 0)
    (value : (m : ℚ) * 2 ^ e = n) : (Binary.finite s m e h).Denotes (signed s n) := by
  have hfinite := Denotes.intro (k := signed s n) h (by rw [natAbs_signed, value])
  rwa [signed_lt_zero hn] at hfinite

/-- Parts without a fraction make a whole number, if they make one at all. -/
theorem ofParts_denotes {s : Bool} {q c : Nat} (hne : q * 2 ^ c ≠ 0)
    (hfinite : (ofParts s q c : Binary f) ≠ .infinite s) :
    (ofParts s q c : Binary f).Denotes (signed s (q * 2 ^ c)) := by
  rcases ofParts_cases (f := f) s q c with ⟨n, d, canonical, hparts, value⟩ | hparts
  · rw [hparts]
    refine denotes_signed s canonical hne ?_
    rw [value, zpow_natCast]
    push_cast
    rfl
  · exact absurd hparts hfinite

theorem ofParts_ne_infinite (s : Bool) {q c : Nat} (low : 2 ^ 52 ≤ q) (high : q ≤ 2 ^ 53)
    (hc : c ≤ 970) : (ofParts s q c : Double) ≠ .infinite s := by
  unfold ofParts
  by_cases hq : q = Nat.pow 2 Format.double.precision
  · -- the carry has moved into the exponent
    have canonical : Format.double.Canonical (Nat.pow 2 (Format.double.precision - 1)) (c + 1) :=
      canonical_double (Nat.le_refl (2 ^ 52)) (by decide) (by omega) (by omega)
    simp only [if_pos hq]
    rw [dif_pos canonical]
    simp
  · have canonical : Format.double.Canonical q c :=
      canonical_double low (lt_of_le_of_ne high hq) (by omega) (by omega)
    simp only [if_neg hq]
    rw [dif_pos canonical]
    simp

/-- An integer that has no fewer bits than the precision is measured in a whole unit. -/
theorem ofInt_eq_ofParts {c : Nat} (hn : n.natAbs ≠ 0) (hc : n.natAbs.log2 = 52 + c) :
    (ofInt n : Double) = ofParts (decide (n < 0)) (roundHalfEven n.natAbs (2 ^ c)) c := by
  have hunit : max (-1074) (binaryOrder n.natAbs 1 - 52) = (c : Int) := by
    rw [binaryOrder_one hn, hc]
    omega
  have hunits : inUnits n.natAbs 1 (c : Int) = (n.natAbs, 2 ^ c) := congrArg _ (Nat.one_mul _)
  unfold ofInt
  rw [round_eq_ofParts (f := .double) _ hn hunit, hunits]

/-- Measured in that unit and rounded, it fills the precision or is the next number after it. -/
theorem significand_bounds {n c : Nat} (hn : n ≠ 0) (hc : n.log2 = 52 + c) :
    2 ^ 52 ≤ roundHalfEven n (2 ^ c) ∧ roundHalfEven n (2 ^ c) ≤ 2 ^ 53 := by
  have low : 2 ^ 52 * 2 ^ c ≤ n := by
    rw [← pow_add, ← hc]
    exact Nat.log2_self_le hn
  have high : n < 2 ^ c * 2 ^ 53 := by
    have : n < 2 ^ (n.log2 + 1) := Nat.lt_log2_self
    rwa [hc, show 52 + c + 1 = c + 53 by omega, pow_add] at this
  have hlow : 2 ^ 52 ≤ n / 2 ^ c := (Nat.le_div_iff_mul_le (Nat.two_pow_pos _)).mpr low
  have hhigh : n / 2 ^ c < 2 ^ 53 := Nat.div_lt_of_lt_mul high
  have := roundHalfEven_cases n (2 ^ c)
  omega

theorem scaled_ne_zero {q : Nat} (low : 2 ^ 52 ≤ q) (c : Nat) : q * 2 ^ c ≠ 0 :=
  Nat.mul_ne_zero (by omega) (Nat.two_pow_pos c).ne'

theorem exists_log2_eq (h : 2 ^ 53 ≤ n.natAbs) :
    n.natAbs ≠ 0 ∧ ∃ c, n.natAbs.log2 = 52 + c := by
  have hne : n.natAbs ≠ 0 := by omega
  have := (Nat.le_log2 hne).mpr h
  exact ⟨hne, n.natAbs.log2 - 52, by omega⟩

/-- Every integer of 64 bits is made into a number that is whole. -/
theorem exists_denotes_ofInt (h : n.natAbs ≤ 2 ^ 64) : ∃ k : Int, (ofInt n : Double).Denotes k := by
  rcases le_total n.natAbs (2 ^ 53) with hsmall | hlarge
  · exact ⟨n, denotes_ofInt_of_le hsmall⟩
  · obtain ⟨hne, c, hc⟩ := exists_log2_eq hlarge
    have hlog : 52 + c < 65 := by
      rw [← hc, Nat.log2_lt hne]
      omega
    obtain ⟨low, high⟩ := significand_bounds hne hc
    have hfinite := ofParts_ne_infinite (decide (n < 0)) low high (show c ≤ 970 by omega)
    exact ⟨_, ofInt_eq_ofParts hne hc ▸ ofParts_denotes (scaled_ne_zero low c) hfinite⟩

/-- A small integer is the only one with its nearest number. -/
theorem eq_of_ofInt_eq {w : Int} (hn : n.natAbs < 2 ^ 53) (h : (ofInt w : Double) = ofInt n) :
    w = n := by
  obtain ⟨v, hv⟩ := exists_faithful_ofInt (f := .double) w
  have hvalue : v = Quantity.ofInt n :=
    Option.some.inj (hv.value.symm.trans (h ▸ (denotes_ofInt_of_le hn.le).value?))
  have hw : v = Quantity.ofInt w := by
    apply hv.eq_ofInt (by decide) (by decide)
    · rw [hvalue, Quantity.ofInt_lt_ofInt]
      show -((2 ^ 53 : Nat) : Int) < n
      omega
    · rw [hvalue, Quantity.ofInt_lt_ofInt]
      show n < ((2 ^ 53 : Nat) : Int)
      omega
  exact Quantity.ofInt_injective (hw.symm.trans hvalue)

end

end Binary

end Settings

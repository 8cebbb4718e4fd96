import Settings.Proofs.Number.WholeNumbers

/-!
# The text of whole numbers

A whole number is printed without a point: the digits that are looked for first are fewer than those
of its exact value, and with as many digits as the value has the value itself is found. So the text
of a whole number is that of an integer, and since the number is read back from it, it is the
nearest number to this integer (`Binary.Denotes.exists_toText`). The integer need not be the number
itself: once the number is large, the digits that tell it apart from its neighbours come to an end
before the units do.
-/

set_option autoImplicit false

namespace Settings

/-! ## Digits -/

theorem digitChars_mul_ten {n : Nat} (hn : n ≠ 0) :
    digitChars (n * 10) = digitChars n ++ ['0'] := by
  rw [digitChars, if_neg (by omega), Nat.mul_div_cancel _ (by decide), Nat.mul_mod_left]

theorem allDigits_mul_pow {n : Nat} (hn : n ≠ 0) (k : Nat) :
    allDigits (n * 10 ^ k) = allDigits n ++ List.replicate k '0' := by
  have hpow : ∀ k, n * 10 ^ k ≠ 0 := fun k => Nat.mul_ne_zero hn (Nat.pow_pos (by decide)).ne'
  unfold allDigits
  rw [if_neg (hpow k), if_neg hn]
  induction k with
  | zero => simp
  | succ k ih =>
    rw [pow_succ, ← Nat.mul_assoc, digitChars_mul_ten (hpow k), ih, List.append_assoc,
      ← List.replicate_succ']

theorem digitCount_le {n k : Nat} (h : n < 10 ^ k) : digitCount n ≤ k := by
  induction k generalizing n with
  | zero =>
    obtain rfl : n = 0 := by simpa using h
    simp [digitCount]
  | succ k ih =>
    unfold digitCount
    split
    · exact Nat.zero_le _
    · have := ih (n := n / 10) (Nat.div_lt_of_lt_mul (by rwa [pow_succ, Nat.mul_comm] at h))
      omega

theorem digitCount_pos {n : Nat} (hn : n ≠ 0) : 0 < digitCount n := by
  unfold digitCount
  rw [if_neg hn]
  exact Nat.succ_pos _

/-- A decimal without places is laid out as its value. -/
theorem Decimal.positional_of_whole {d : Decimal} {j : Nat} (h : d.exponent = j) :
    d.positional 0 = allDigits (d.coefficient * 10 ^ j) := by
  by_cases hc : d.coefficient = 0
  · simp [Decimal.positional, h, hc]
  · rw [allDigits_mul_pow hc]
    simp [Decimal.positional, h, hc]

/-! ## The search for the fewest digits -/

theorem Decimal.exponent_le_strip (fuel : Nat) (d : Decimal) :
    d.exponent ≤ (d.strip fuel).exponent := by
  induction fuel generalizing d with
  | zero => exact Int.le_refl _
  | succ fuel ih =>
    unfold Decimal.strip
    split
    · have := ih ⟨d.coefficient / 10, d.exponent + 1⟩
      simp only at this
      omega
    · exact Int.le_refl _

/-- The search ends no later than at an index that succeeds. -/
theorem exists_findSome?_range {α : Type} {g : Nat → Option α} {n i : Nat} (hi : i < n)
    (h : (g i).isSome = true) :
    ∃ j ≤ i, ∃ a, (List.range n).findSome? g = some a ∧ g j = some a := by
  induction n with
  | zero => omega
  | succ n ih =>
    rw [List.range_succ, List.findSome?_append]
    cases hfound : (List.range n).findSome? g with
    | some a =>
      by_cases hin : i < n
      · obtain ⟨j, hj, b, hb, hgj⟩ := ih hin
        obtain rfl : a = b := Option.some.inj (hfound.symm.trans hb)
        exact ⟨j, hj, a, rfl, hgj⟩
      · obtain ⟨j, hj, hgj⟩ := List.exists_of_findSome?_eq_some hfound
        have := List.mem_range.mp hj
        exact ⟨j, by omega, a, rfl, hgj⟩
    | none =>
      have hin : ¬ i < n := fun hin => by
        obtain ⟨j, hj, b, hb, hgj⟩ := ih hin
        exact absurd (hfound.symm.trans hb) (by simp)
      obtain rfl : i = n := by omega
      obtain ⟨a, ha⟩ := Option.isSome_iff_exists.mp h
      exact ⟨i, Nat.le_refl i, a, by simp [ha], ha⟩

theorem exponent_of_gridPoint? {f : Format} {x : Binary f} {num den digits : Nat} {d : Decimal}
    (h : gridPoint? x num den digits = some d) :
    d.exponent = decimalOrder num den - digits + 1 := by
  unfold gridPoint? at h
  simp only at h
  split at h
  · exact absurd h (by simp)
  all_goals
    obtain rfl := Option.some.inj h
    rfl

namespace Binary

variable {m n : Nat} {e k : Int}

/-- The order of a whole number is told by the number of its digits. -/
theorem decimalOrder_fraction (value : (m : ℚ) * 2 ^ e = n) (hn : n ≠ 0) :
    decimalOrder (fraction m e).1 (fraction m e).2 = (digitCount n : Int) - 1 := by
  have hdiv := fraction_div value
  have hle : (fraction m e).2 ≤ (fraction m e).1 := by
    by_contra hlt
    rw [Nat.div_eq_of_lt (by omega)] at hdiv
    exact hn hdiv.symm
  unfold decimalOrder
  rw [if_pos hle, hdiv]

/-- With all the digits of its value a whole number is found. -/
theorem isSome_gridPoint? {f : Format} (s : Bool) (h : f.Canonical m e)
    (value : (m : ℚ) * 2 ^ e = n) (hn : n ≠ 0) :
    (gridPoint? (.finite s m e h) (fraction m e).1 (fraction m e).2 (digitCount n)).isSome =
      true := by
  have hunit : decimalOrder (fraction m e).1 (fraction m e).2 - digitCount n + 1 = 0 := by
    rw [decimalOrder_fraction value hn]
    omega
  have hread : (ofDecimal s n 0 : Binary f) = .finite s m e h :=
    ofDecimal_eq_finite s h (by rw [zpow_zero, mul_one, value])
  unfold gridPoint?
  simp only [hunit, le_refl, if_true, Int.toNat_zero, Nat.pow_eq, pow_zero, Nat.mul_one,
    fraction_div value, isNegative, hread, decide_true]
  split <;> simp_all

/-- The digits of a whole number end before the point. -/
theorem exponent_shortest_nonneg (s : Bool) (h : Format.double.Canonical m e)
    (value : (m : ℚ) * 2 ^ e = n) : 0 ≤ (shortest s m e h).exponent := by
  unfold shortest
  simp only
  split
  · exact Int.le_refl 0
  · rename_i hm
    have hn : n ≠ 0 := by
      rintro rfl
      have hpow : (2 : ℚ) ^ e ≠ 0 := by positivity
      exact hm (by simpa [hpow] using value)
    have hcount := digitCount_pos hn
    have horder := decimalOrder_fraction value hn
    -- with so many digits the value would be found
    have found (hfew : digitCount n ≤ 17) := exists_findSome?_range
      (g := fun k => gridPoint? (.finite s m e h) (fraction m e).1 (fraction m e).2 (k + 1))
      (n := 17) (i := digitCount n - 1) (by omega)
      (by rw [Nat.sub_add_cancel hcount]; exact isSome_gridPoint? s h value hn)
    split
    · rename_i d hd
      obtain ⟨j, hj, hgrid⟩ : ∃ j, j < digitCount n ∧
          gridPoint? (.finite s m e h) (fraction m e).1 (fraction m e).2 (j + 1) = some d := by
        by_cases hfew : digitCount n ≤ 17
        · obtain ⟨j, hj, a, ha, hgrid⟩ := found hfew
          obtain rfl : d = a := Option.some.inj (hd.symm.trans ha)
          exact ⟨j, by omega, hgrid⟩
        · obtain ⟨j, hj, hgrid⟩ := List.exists_of_findSome?_eq_some hd
          have := List.mem_range.mp hj
          exact ⟨j, by omega, hgrid⟩
      have hexp := exponent_of_gridPoint? hgrid
      have hnormal : d.exponent ≤ d.normal.exponent := d.exponent_le_strip _
      omega
    · rename_i hnone
      have hmany : ¬ digitCount n ≤ 17 := fun hfew => by
        obtain ⟨j, hj, a, ha, _⟩ := found hfew
        exact absurd (hnone.symm.trans ha) (by simp)
      have hexact : 0 ≤ (exactDecimal m e).exponent := by
        cases e with
        | ofNat e => exact Int.le_refl 0
        | negSucc e =>
          -- a significand alone does not have so many digits
          have hle : n ≤ m := by
            have hpow : (2 : ℚ) ^ (Int.negSucc e) ≤ 1 :=
              zpow_le_one_of_nonpos₀ (by norm_num) (by omega)
            have : (n : ℚ) ≤ m := by
              rw [← value]
              exact mul_le_of_le_one_right (by positivity) hpow
            exact_mod_cast this
          have hlt : m < 2 ^ 53 := h.1
          exact absurd (digitCount_le (show n < 10 ^ 17 by omega)) hmany
      exact hexact.trans ((exactDecimal m e).exponent_le_strip _)

/-- A whole number is printed as an integer that has it for its nearest number. -/
theorem Denotes.exists_toText {x : Double} (h : x.Denotes k) :
    ∃ n : Int, x.toText = intText n ∧ ofInt n = x := by
  cases h with
  | @intro m e _ canonical value =>
    generalize hs : decide (k < 0) = s
    obtain ⟨j, hj⟩ := Int.eq_ofNat_of_zero_le (exponent_shortest_nonneg s canonical value)
    have hlayout := Decimal.positional_of_whole hj
    generalize hn : (shortest s m e canonical).coefficient * 10 ^ j = n at hlayout
    have hread : (round s n 1 : Double) = .finite s m e canonical := by
      have hvalue : (n : ℚ) * 10 ^ (0 : Int) = (shortest s m e canonical).coefficient *
          10 ^ (shortest s m e canonical).exponent := by
        rw [hj, ← hn]
        push_cast
        simp
      have hround : (round s n 1 : Double) = ofDecimal s n 0 :=
        congrArg (round s · 1) (Nat.mul_one n).symm
      rw [hround, ofDecimal_congr s hvalue, ofDecimal_shortest s canonical]
    have hsign : decide (signed s n < 0) = s := by
      by_cases hzero : n = 0
      · -- the zero that is an integer is the positive one
        rw [hzero] at hread ⊢
        have hm : 0 = m := by
          have hzero : (signedZero s : Double) = .finite s m e canonical := hread
          simp only [signedZero, Binary.finite.injEq, true_and] at hzero
          exact hzero.1
        have hk : k = 0 := by simpa [← hm] using value.symm
        cases s <;> simp_all [signed]
      · exact signed_lt_zero hzero
    refine ⟨signed s n, String.toList_inj.mp ?_, ?_⟩
    · have htext : (Binary.finite s m e canonical).toText = String.ofList
          (if s then '-' :: (shortest s m e canonical).positional 0
            else (shortest s m e canonical).positional 0) := rfl
      rw [htext, String.toList_ofList, hlayout, intText_toList, natAbs_signed]
      cases s with
      | true => rw [if_pos rfl, if_pos (of_decide_eq_true hsign)]
      | false => rw [if_neg Bool.false_ne_true, if_neg (of_decide_eq_false hsign)]
    · unfold ofInt
      rw [hsign, natAbs_signed, hread]

/-- Up to `2 ^ 53` in magnitude this integer is the number itself. -/
theorem toText_ofInt_of_le (h : k.natAbs ≤ 2 ^ 53) : (ofInt k : Double).toText = intText k := by
  by_cases htop : k.natAbs = 2 ^ 53
  · -- the next integer has the same nearest number, so it is the digits that decide
    have plus : (ofInt (2 ^ 53) : Double).toText = intText (2 ^ 53) := by decide +kernel
    have minus : (ofInt (-2 ^ 53) : Double).toText = intText (-2 ^ 53) := by decide +kernel
    rcases Int.natAbs_eq k with hk | hk
    · rw [hk, htop]
      exact plus
    · rw [hk, htop]
      exact minus
  · obtain ⟨n, htext, hn⟩ := (denotes_ofInt_of_le h).exists_toText
    rw [htext, eq_of_ofInt_eq (lt_of_le_of_ne h htop) hn]

end Binary

end Settings

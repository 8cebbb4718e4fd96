import Settings.Number.Text
import Settings.Proofs.Number.Rounding

/-!
# Numerals that read back

What a number is printed as is read as the same number: a whole numeral exactly, a number of a
binary format because its decimal was chosen to read back, and its layout, wherever the point comes
to stand, is a numeral of the decimal's value.

The texts that are printed hold no blanks, so reading them with blanks ignored is reading them.
-/

set_option autoImplicit false

namespace Settings

/-! ## Digits -/

theorem isDigit_iff {c : Char} : isDigit c = true ↔ 48 ≤ c.toNat ∧ c.toNat ≤ 57 := by
  have range : ('0' ≤ c ∧ c ≤ '9') ↔ (48 ≤ c.toNat ∧ c.toNat ≤ 57) := Iff.rfl
  unfold isDigit digit?
  by_cases h : '0' ≤ c ∧ c ≤ '9'
  · simpa [h] using range.mp h
  · rw [if_neg h]
    simpa using fun low high => h (range.mpr ⟨low, high⟩)

theorem digit?_ofNat {d : Nat} (h : d < 10) : digit? (Char.ofNat (48 + d)) = some d := by
  have all : ∀ d < 10, digit? (Char.ofNat (48 + d)) = some d := by decide
  exact all d h

theorem not_isBlank_of_isDigit {c : Char} (h : isDigit c = true) : isBlank c = false := by
  obtain ⟨low, high⟩ := isDigit_iff.mp h
  simp only [isBlank, Bool.or_eq_false_iff, Bool.and_eq_false_iff, decide_eq_false_iff_not,
    beq_eq_false_iff_ne]
  omega

theorem ne_sign_of_isDigit {c : Char} (h : isDigit c = true) : c ≠ '-' ∧ c ≠ '+' := by
  have hrange := isDigit_iff.mp h
  constructor
  · rintro rfl
    exact absurd hrange.1 (by decide)
  · rintro rfl
    exact absurd hrange.1 (by decide)

theorem digitsValue_append (cs ds : List Char) :
    digitsValue (cs ++ ds) = digitsValue cs * 10 ^ ds.length + digitsValue ds := by
  have step : ∀ n, ds.foldl (fun n c => 10 * n + (digit? c).getD 0) n =
      n * 10 ^ ds.length + digitsValue ds := by
    induction ds with
    | nil => simp [digitsValue]
    | cons d ds ih =>
      intro n
      unfold digitsValue
      simp only [List.foldl_cons, List.length_cons]
      rw [ih (10 * n + (digit? d).getD 0), ih (10 * 0 + (digit? d).getD 0)]
      ring
  unfold digitsValue
  rw [List.foldl_append]
  exact step _

theorem digitsValue_zeros (k : Nat) : digitsValue (List.replicate k '0') = 0 := by
  induction k with
  | zero => rfl
  | succ k ih =>
    rw [List.replicate_succ', digitsValue_append, ih]
    rfl

theorem digitsValue_digitChars (n : Nat) : digitsValue (digitChars n) = n := by
  induction n using Nat.strongRecOn with
  | ind n ih =>
    unfold digitChars
    split
    · rename_i h
      rw [h]
      rfl
    · rename_i h
      have hlast : digitsValue [Char.ofNat (48 + n % 10)] = n % 10 := by
        simp [digitsValue, digit?_ofNat (Nat.mod_lt n (by decide : 0 < 10))]
      rw [digitsValue_append, ih (n / 10) (by omega), hlast]
      simp only [List.length_singleton, pow_one]
      omega

theorem isDigit_of_mem_digitChars (n : Nat) : ∀ c ∈ digitChars n, isDigit c = true := by
  induction n using Nat.strongRecOn with
  | ind n ih =>
    unfold digitChars
    split
    · simp
    · intro c hc
      rcases List.mem_append.mp hc with hc | hc
      · exact ih (n / 10) (by omega) c hc
      · obtain rfl := List.mem_singleton.mp hc
        simp [isDigit, digit?_ofNat (Nat.mod_lt n (by decide : 0 < 10))]

theorem digitChars_ne_nil {n : Nat} (h : n ≠ 0) : digitChars n ≠ [] := by
  unfold digitChars
  simp [h]

/-- A row of at least one digit. -/
structure DigitRow (cs : List Char) : Prop where
  nonempty : cs ≠ []
  digits : ∀ c ∈ cs, isDigit c = true

theorem digitRow_allDigits (n : Nat) : DigitRow (allDigits n) := by
  unfold allDigits
  split
  · exact ⟨by simp, List.forall_mem_singleton.mpr rfl⟩
  · rename_i h
    exact ⟨digitChars_ne_nil h, isDigit_of_mem_digitChars n⟩

theorem digitsValue_allDigits (n : Nat) : digitsValue (allDigits n) = n := by
  unfold allDigits
  split
  · rename_i h
    rw [h]
    rfl
  · exact digitsValue_digitChars n

theorem DigitRow.append {cs ds : List Char} (h : DigitRow cs)
    (hd : ∀ c ∈ ds, isDigit c = true) : DigitRow (cs ++ ds) where
  nonempty := by simp [h.nonempty]
  digits := by
    intro c hc
    rcases List.mem_append.mp hc with hc | hc
    · exact h.digits c hc
    · exact hd c hc

theorem DigitRow.head {cs : List Char} (h : DigitRow cs) :
    ∃ c rest, cs = c :: rest ∧ isDigit c = true := by
  cases cs with
  | nil => exact absurd rfl h.nonempty
  | cons c rest => exact ⟨c, rest, rfl, h.digits c List.mem_cons_self⟩

/-! ## Blanks -/

theorem trimBlanks_of_not_isBlank {cs : List Char} (h : ∀ c ∈ cs, isBlank c = false) :
    trimBlanks cs = cs := by
  have keep : ∀ ds : List Char, (∀ c ∈ ds, isBlank c = false) → ds.dropWhile isBlank = ds := by
    intro ds hds
    cases ds with
    | nil => rfl
    | cons d ds => simp [hds d List.mem_cons_self]
  unfold trimBlanks
  rw [keep cs h, keep cs.reverse (by simpa using h), List.reverse_reverse]

/-! ## Whole numerals -/

theorem natText_toList (n : Nat) : (natText n).toList = allDigits n := by
  unfold natText allDigits
  split
  · rfl
  · exact String.toList_ofList

theorem natNumeral?_of_digitRow {cs : List Char} (h : DigitRow cs) :
    natNumeral? cs = some (digitsValue cs) := by
  unfold natNumeral?
  rw [if_pos ⟨h.nonempty, List.all_eq_true.mpr h.digits⟩]

theorem intNumeral?_of_digitRow (minus : Bool) {cs : List Char} (h : DigitRow cs) :
    intNumeral? minus cs = some (digitsValue cs) := by
  obtain ⟨c, rest, rfl, hc⟩ := h.head
  obtain ⟨hminus, hplus⟩ := ne_sign_of_isDigit hc
  unfold intNumeral?
  split
  · rename_i heq
    exact absurd (List.cons.inj heq).1 hplus
  · rename_i heq
    exact absurd (List.cons.inj heq).1 hminus
  · rw [natNumeral?_of_digitRow h]
    rfl

theorem intText_toList (n : Int) : (intText n).toList =
    if n < 0 then '-' :: allDigits n.natAbs else allDigits n.natAbs := by
  unfold intText
  split
  · rw [String.toList_append, natText_toList]
    rfl
  · exact natText_toList n.natAbs

theorem isBlank_of_mem_intText (n : Int) : ∀ c ∈ (intText n).toList, isBlank c = false := by
  have digits : ∀ c ∈ allDigits n.natAbs, isBlank c = false := fun c hc =>
    not_isBlank_of_isDigit ((digitRow_allDigits n.natAbs).digits c hc)
  rw [intText_toList]
  split
  · exact List.forall_mem_cons.mpr ⟨by decide, digits⟩
  · exact digits

theorem trimBlanks_intText (n : Int) : trimBlanks (intText n).toList = (intText n).toList :=
  trimBlanks_of_not_isBlank (isBlank_of_mem_intText n)

/-- The text of a whole number is read as the number; for one below zero the minus sign has to be
allowed. -/
theorem intNumeral?_intText {minus : Bool} {n : Int} (h : 0 ≤ n ∨ minus = true) :
    intNumeral? minus (intText n).toList = some n := by
  have row := digitRow_allDigits n.natAbs
  rw [intText_toList]
  split
  · rename_i hneg
    have hminus : minus = true := by
      rcases h with h | h
      · omega
      · exact h
    have habs : -(n.natAbs : Int) = n := by omega
    simp only [intNumeral?, hminus, if_true, natNumeral?_of_digitRow row, digitsValue_allDigits]
    exact congrArg some habs
  · have habs : (n.natAbs : Int) = n := by omega
    rw [intNumeral?_of_digitRow minus row, digitsValue_allDigits]
    exact congrArg some habs

/-! ## Decimal numerals -/

theorem takeWhile_isDigit {cs : List Char} (h : ∀ c ∈ cs, isDigit c = true) (rest : List Char)
    (hrest : rest.takeWhile isDigit = []) : (cs ++ rest).takeWhile isDigit = cs := by
  rw [List.takeWhile_append_of_pos h, hrest, List.append_nil]

theorem dropWhile_isDigit {cs : List Char} (h : ∀ c ∈ cs, isDigit c = true) (rest : List Char)
    (hrest : rest.dropWhile isDigit = rest) : (cs ++ rest).dropWhile isDigit = rest := by
  rw [List.dropWhile_append_of_pos h, hrest]

theorem unsignedNumeral?_whole (negative : Bool) {cs : List Char} (h : DigitRow cs) :
    unsignedNumeral? negative cs = some (.decimal negative (digitsValue cs) 0) := by
  have htake := takeWhile_isDigit h.digits [] rfl
  have hdrop := dropWhile_isDigit h.digits [] rfl
  rw [List.append_nil] at htake hdrop
  unfold unsignedNumeral?
  simp only [htake, hdrop]
  simp [h.nonempty, exponent?]

theorem unsignedNumeral?_point (negative : Bool) {whole places : List Char} (h : DigitRow whole)
    (hplaces : ∀ c ∈ places, isDigit c = true) :
    unsignedNumeral? negative (whole ++ '.' :: places) =
      some (.decimal negative (digitsValue (whole ++ places)) (-places.length)) := by
  have htake : (whole ++ '.' :: places).takeWhile isDigit = whole :=
    takeWhile_isDigit h.digits _ rfl
  have hdrop : (whole ++ '.' :: places).dropWhile isDigit = '.' :: places :=
    dropWhile_isDigit h.digits _ rfl
  have ptake := takeWhile_isDigit hplaces [] rfl
  have pdrop := dropWhile_isDigit hplaces [] rfl
  rw [List.append_nil] at ptake pdrop
  unfold unsignedNumeral?
  simp only [htake, hdrop, ptake, pdrop]
  simp [h.nonempty, exponent?]

/-- A numeral that begins with a digit has no sign. -/
theorem ofChars?_of_unsigned {c : Char} {cs : List Char} {n : Numeral} (hc : isDigit c = true)
    (h : unsignedNumeral? false (c :: cs) = some n) : Numeral.ofChars? (c :: cs) = some n := by
  obtain ⟨hminus, hplus⟩ := ne_sign_of_isDigit hc
  unfold Numeral.ofChars?
  simp [hminus, hplus, h]

theorem ofChars?_minus {cs : List Char} {n : Numeral} (h : unsignedNumeral? true cs = some n) :
    Numeral.ofChars? ('-' :: cs) = some n := by
  unfold Numeral.ofChars?
  simp only [h]
  rfl

/-! ## Positional notation -/

/-- A decimal without places is laid out as a row of digits. -/
theorem Decimal.positional_of_nonneg {d : Decimal} (h : 0 ≤ d.exponent) :
    DigitRow (d.positional 0) ∧ (digitsValue (d.positional 0) : ℚ) = d.value := by
  have zeros : ∀ c ∈ List.replicate d.exponent.toNat '0', isDigit c = true := by
    intro c hc
    obtain rfl := List.eq_of_mem_replicate hc
    decide
  have row := digitRow_allDigits d.coefficient
  by_cases hc : d.coefficient = 0
  · have hlayout : d.positional 0 = allDigits 0 := by simp [Decimal.positional, h, hc]
    rw [hlayout, digitsValue_allDigits]
    exact ⟨digitRow_allDigits 0, by simp [Decimal.value, hc]⟩
  · have hlayout : d.positional 0 =
        allDigits d.coefficient ++ List.replicate d.exponent.toNat '0' := by
      simp [Decimal.positional, h, hc]
    rw [hlayout, digitsValue_append, digitsValue_allDigits, digitsValue_zeros,
      List.length_replicate]
    refine ⟨row.append zeros, ?_⟩
    obtain ⟨k, hk⟩ := Int.eq_ofNat_of_zero_le h
    simp [Decimal.value, hk]

/-- A decimal with places is laid out as two rows of digits around a point. -/
theorem Decimal.positional_of_neg {d : Decimal} (h : d.exponent < 0) :
    ∃ whole places, d.positional 0 = whole ++ '.' :: places ∧ DigitRow whole ∧
      (∀ c ∈ places, isDigit c = true) ∧
      (digitsValue (whole ++ places) : ℚ) * 10 ^ (-(places.length : Int)) = d.value := by
  obtain ⟨count, hcount⟩ : ∃ count : Nat, d.exponent = -((count + 1 : Nat) : Int) :=
    ⟨(-d.exponent).toNat - 1, by omega⟩
  let digits := digitChars d.coefficient
  let padded := List.replicate (count + 1 + 1 - digits.length) '0' ++ digits
  have hlen : count + 1 + 1 ≤ padded.length := by
    simp only [padded, List.length_append, List.length_replicate]
    omega
  have hplaces : (padded.drop (padded.length - (count + 1))).length = count + 1 := by
    rw [List.length_drop]
    omega
  have hne : padded.drop (padded.length - (count + 1)) ≠ [] := by
    intro hnil
    rw [hnil] at hplaces
    simp at hplaces
  have hlayout : d.positional 0 = padded.take (padded.length - (count + 1)) ++
      '.' :: padded.drop (padded.length - (count + 1)) := by
    have hnonneg : ¬ 0 ≤ d.exponent := by omega
    have htoNat : (-d.exponent).toNat = count + 1 := by omega
    unfold Decimal.positional
    simp only [if_neg hnonneg, htoNat, Nat.zero_sub, List.replicate_zero, List.append_nil]
    exact if_neg hne
  have hdigits : ∀ c ∈ padded, isDigit c = true := by
    intro c hc
    rcases List.mem_append.mp hc with hc | hc
    · obtain rfl := List.eq_of_mem_replicate hc
      decide
    · exact isDigit_of_mem_digitChars d.coefficient c hc
  have hvalue : digitsValue padded = d.coefficient := by
    simp only [padded, digits, digitsValue_append, digitsValue_zeros, digitsValue_digitChars]
    omega
  refine ⟨_, _, hlayout, ⟨?_, ?_⟩, ?_, ?_⟩
  · intro hnil
    have := congrArg List.length hnil
    rw [List.length_take, List.length_nil] at this
    omega
  · exact fun c hc => hdigits c (List.mem_of_mem_take hc)
  · exact fun c hc => hdigits c (List.mem_of_mem_drop hc)
  · rw [List.take_append_drop, hvalue, hplaces, ← hcount]
    rfl

/-- What is laid out in positional notation is a numeral of the decimal's value, begins with a digit
and holds no blanks. -/
theorem Decimal.reads_positional (d : Decimal) (negative : Bool) :
    (∃ c k, unsignedNumeral? negative (d.positional 0) = some (.decimal negative c k) ∧
      (c : ℚ) * 10 ^ k = d.value) ∧
    (∃ c cs, d.positional 0 = c :: cs ∧ isDigit c = true) ∧
    ∀ c ∈ d.positional 0, isBlank c = false := by
  rcases le_or_gt 0 d.exponent with h | h
  · obtain ⟨row, hvalue⟩ := Decimal.positional_of_nonneg h
    refine ⟨⟨_, 0, unsignedNumeral?_whole negative row, by simpa using hvalue⟩, row.head, ?_⟩
    exact fun c hc => not_isBlank_of_isDigit (row.digits c hc)
  · obtain ⟨whole, places, hlayout, row, hplaces, hvalue⟩ := Decimal.positional_of_neg h
    rw [hlayout]
    refine ⟨⟨_, _, unsignedNumeral?_point negative row hplaces, hvalue⟩, ?_, ?_⟩
    · obtain ⟨c, cs, rfl, hc⟩ := row.head
      exact ⟨c, _, rfl, hc⟩
    · intro c hc
      rcases List.mem_append.mp hc with hc | hc
      · exact not_isBlank_of_isDigit (row.digits c hc)
      · rcases List.mem_cons.mp hc with rfl | hc
        · decide
        · exact not_isBlank_of_isDigit (hplaces c hc)

/-! ## Numbers -/

namespace Binary

variable {f : Format}

theorem ofBlankText?_ofList {cs : List Char} (h : ∀ c ∈ cs, isBlank c = false) :
    (ofBlankText? (String.ofList cs) : Option (Binary f)) =
      (Numeral.ofChars? cs).map ofNumeral := by
  unfold ofBlankText?
  rw [String.toList_ofList, trimBlanks_of_not_isBlank h]

theorem isBlank_of_mem_toText (x : Binary f) : ∀ c ∈ x.toText.toList, isBlank c = false := by
  unfold toText
  rw [String.toList_ofList]
  cases x with
  | nan => simp [toChars, isBlank]
  | infinite s => cases s <;> simp [toChars, isBlank]
  | finite s m e h =>
    obtain ⟨-, -, blanks⟩ := (shortest s m e h).reads_positional s
    cases s with
    | false => exact blanks
    | true => exact List.forall_mem_cons.mpr ⟨by decide, blanks⟩

/-- Every number is read from its text, not-a-number, the infinities and both zeros included. -/
theorem ofBlankText?_toText (x : Binary f) : ofBlankText? x.toText = some x := by
  cases x with
  | nan =>
    have blanks : ∀ c ∈ "NaN".toList, isBlank c = false := by simp [isBlank]
    exact (ofBlankText?_ofList blanks).trans rfl
  | infinite s =>
    have blanks : ∀ c ∈ "inf".toList, isBlank c = false := by simp [isBlank]
    have minus : ∀ c ∈ "-inf".toList, isBlank c = false := by simp [isBlank]
    cases s with
    | false => exact (ofBlankText?_ofList blanks).trans rfl
    | true => exact (ofBlankText?_ofList minus).trans rfl
  | finite s m e h =>
    obtain ⟨⟨c, k, hread, hvalue⟩, ⟨first, rest, hfirst, hdigit⟩, blanks⟩ :=
      (shortest s m e h).reads_positional s
    have hnumber : (ofNumeral (.decimal s c k) : Binary f) = .finite s m e h :=
      (ofDecimal_congr s hvalue).trans (ofDecimal_shortest s h)
    have htext : (Binary.finite s m e h).toText = String.ofList
        (if s then '-' :: (shortest s m e h).positional 0
          else (shortest s m e h).positional 0) := rfl
    rw [htext]
    cases s with
    | false =>
      rw [if_neg (by simp), ofBlankText?_ofList blanks]
      rw [hfirst] at hread ⊢
      rw [ofChars?_of_unsigned hdigit hread]
      exact congrArg some hnumber
    | true =>
      rw [if_pos rfl, ofBlankText?_ofList (List.forall_mem_cons.mpr ⟨by decide, blanks⟩),
        ofChars?_minus hread]
      exact congrArg some hnumber

end Binary

end Settings

import Settings.Proofs.Host.AssignedTexts
import Settings.Proofs.Number.RoundingTwice

/-!
# Texts passed and texts assigned

A text reaches a value of the host in one of two ways: it is passed for a parameter of the type, or
assigned to a variable of the type. A parameter is the stricter one, since it refuses numbers that
are out of its range. What it takes, the variable takes too, and both get the same value, whatever
the type and the text are, with one exception. A parameter for a number takes the number of its
argument, and this is a double whatever the argument holds; only an integer is looked for in the
text itself. So the parameter of a single is rounded twice, and now and then this gives the
neighbour of the single that the variable gets (`HostType.ofText_of_ofArgument`).
-/

set_option autoImplicit false

namespace Settings

/-- The text spells a number that is made into another single by way of a double. -/
inductive SpelledAstray (text : String) : Prop
  | intro {s : Bool} {c : Nat} {k : Int} {n : Nat} {d : Int} {h : Format.double.Canonical n d}
      (spelled : Numeral.ofChars? (trimBlanks text.toList) = some (.decimal s c k))
      (double : Binary.ofDecimal s c k = .finite s n d h)
      (astray : Binary.Astray .single (c * 10 ^ k) (n * 2 ^ d))

variable {text : String}

/-- The two readings of a text as a single differ just if the text goes astray. -/
theorem convert_ne_iff_spelledAstray {x : Double} {y : Single}
    (hx : Binary.ofBlankText? text = some x) (hy : Binary.ofBlankText? text = some y) :
    Binary.convert x ≠ y ↔ SpelledAstray text := by
  obtain ⟨numeral, spelled, rfl⟩ := Option.map_eq_some_iff.mp hx
  obtain rfl : Binary.ofNumeral numeral = y := by
    unfold Binary.ofBlankText? at hy
    rw [spelled] at hy
    exact Option.some.inj hy
  cases numeral with
  | nan =>
    refine iff_of_false (fun h => h rfl) ?_
    rintro ⟨spelled', -, -⟩
    cases spelled.symm.trans spelled'
  | infinite s =>
    refine iff_of_false (fun h => h rfl) ?_
    rintro ⟨spelled', -, -⟩
    cases spelled.symm.trans spelled'
  | decimal s c k =>
    obtain ⟨num, den, hden, hvalue, hread⟩ := Binary.exists_ofDecimal (f := .double) s c k
    obtain ⟨num', den', hden', hvalue', hread'⟩ := Binary.exists_ofDecimal (f := .single) s c k
    have hsame : (Binary.ofDecimal s c k : Single) = Binary.round s num den := by
      rw [hread']
      exact Binary.round_congr s hden' hden (hvalue'.trans hvalue.symm)
    show Binary.convert (Binary.ofDecimal s c k : Double) ≠ (Binary.ofDecimal s c k : Single) ↔ _
    rw [hsame, hread, Binary.convert_round_ne_iff Format.single_within_double s hden, hvalue]
    constructor
    · rintro ⟨n, d, h, hround, astray⟩
      exact ⟨spelled, hread.trans hround, astray⟩
    · rintro ⟨spelled', double, astray⟩
      obtain ⟨rfl, rfl, rfl⟩ := Numeral.decimal.inj (Option.some.inj (spelled.symm.trans spelled'))
      exact ⟨_, _, _, hread.symm.trans double, astray⟩

theorem ofBlankText?_of_parseNumber {x : Double} (h : parseNumber text = .ok x) :
    Binary.ofBlankText? text = some x := by
  unfold parseNumber at h
  split at h
  · rename_i y hy
    rw [hy, Except.ok.inj h]
  · cases h

namespace HostType

/-- An integer that a parameter takes is the one that a variable gets. -/
theorem ofText_of_ofArgument_int {t : IntType} {v : t.Value}
    (h : ofArgument (.int t) (.ok text) (parseNumber text) = .ok v) :
    ofText (.int t) text = .ok v := by
  rw [ofText_int]
  cases hx : parseNumber text with
  | ok x =>
    rw [hx, ofArgument_int] at h
    cases htext : t.ofText? text with
    | some w =>
      rw [htext] at h
      exact h
    | none =>
      rw [htext, Option.none_or] at h
      cases hw : x.truncate?.bind t.ofInt? with
      | none =>
        rw [hw] at h
        cases h
      | some w =>
        rw [hw] at h
        obtain rfl : w = v := Except.ok.inj h
        obtain ⟨k, hk, hint⟩ := Option.bind_eq_some_iff.mp hw
        obtain rfl := IntType.toInt_of_ofInt? hint
        exact congrArg Except.ok (IntType.ofNumber_eq hk)
  | error error =>
    -- without a number only the digits can have been taken
    cases htext : t.ofText? text with
    | some w =>
      simp only [ofArgument, Except.toOption, Option.bind_some, htext] at h
      exact h
    | none =>
      simp only [ofArgument, Except.toOption, Option.bind_some, htext, hx, bind, Except.bind] at h
      cases h

/-- A variable takes the text of a single too, and gets another value just if the text goes
astray. -/
theorem ofText_of_ofArgument_single {v : Single}
    (h : ofArgument .single (.ok text) (parseNumber text) = .ok v) :
    ∃ w : Single, ofText .single text = .ok w ∧ (w ≠ v ↔ SpelledAstray text) := by
  obtain ⟨x, hx, rfl⟩ : ∃ x, parseNumber text = .ok x ∧ Binary.convert x = v := by
    cases hx : parseNumber text with
    | error error =>
      rw [hx] at h
      cases h
    | ok x =>
      rw [hx] at h
      exact ⟨x, rfl, Except.ok.inj h⟩
  have hdouble := ofBlankText?_of_parseNumber hx
  obtain ⟨y, hsingle⟩ : ∃ y : Single, Binary.ofBlankText? text = some y := by
    obtain ⟨numeral, spelled, -⟩ := Option.map_eq_some_iff.mp hdouble
    exact ⟨_, by unfold Binary.ofBlankText?; rw [spelled, Option.map_some]⟩
  refine ⟨y, by simp only [ofText, hsingle], ?_⟩
  rw [ne_comm]
  exact convert_ne_iff_spelledAstray hdouble hsingle

/-- What a parameter takes, a variable takes too, and gets the same value unless it is a single and
the text goes astray. -/
theorem ofText_of_ofArgument (type : HostType) {v : type.Carrier}
    (h : type.ofArgument (.ok text) (parseNumber text) = .ok v) :
    ∃ w, type.ofText text = .ok w ∧ (w ≠ v ↔ type = .single ∧ SpelledAstray text) := by
  have same (hread : type.ofText text = .ok v) (hne : type ≠ .single) :
      ∃ w, type.ofText text = .ok w ∧ (w ≠ v ↔ type = .single ∧ SpelledAstray text) :=
    ⟨v, hread, by simp [hne]⟩
  cases type with
  | int t => exact same (ofText_of_ofArgument_int h) (by simp)
  | double => exact same h (by simp)
  | bool =>
    simp only [ofArgument, Except.bind] at h
    exact same h (by simp)
  | text => exact same h (by simp)
  | single =>
    obtain ⟨w, hread, hne⟩ := ofText_of_ofArgument_single h
    exact ⟨w, hread, hne.trans (iff_and_self.mpr fun _ => rfl)⟩

end HostType

end Settings

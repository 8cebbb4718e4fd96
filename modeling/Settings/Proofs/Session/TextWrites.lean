import Settings.Proofs.Host.PassedTexts
import Settings.Proofs.Session.Restoring
import Settings.Proofs.Table.Quantities

/-!
# Texts written to settings

Three facts about the texts that settings are given. The text that is read from a setting can be
written back, and nothing has changed then, neither the setting nor a host variable. A variable of
an integer type takes every text that spells an integer and gets the nearest integer that it can
have. And a text that a function takes for a parameter gives the function what a variable of the
same type would get, but for singles that are rounded twice.
-/

set_option autoImplicit false

namespace Settings

/-! ## Its own text -/

/-- Writing the text that is read changes nothing. -/
theorem Entry.writeText_own {e : Entry} (plain : e.storage.Plain) (s : Store) :
    ∃ text, e.readText s = .ok text ∧ e.writeText text s = (.ok (), e, s) := by
  obtain ⟨storage, hstorage⟩ : ∃ storage, e.storage = storage := ⟨_, rfl⟩
  rw [hstorage] at plain
  unfold readText writeText
  cases plain with
  | number x =>
    refine ⟨x.toText, by simp only [hstorage], ?_⟩
    simp only [hstorage, parseNumber_toText]
    rw [← hstorage]
  | text t =>
    refine ⟨t, by simp only [hstorage], ?_⟩
    simp only [hstorage]
    rw [← hstorage]
  | host type id =>
    refine ⟨type.toText (s.read type id), by simp only [hstorage]; rfl, ?_⟩
    have hread := type.ofText_toText (s.read type id)
    simp only [hstorage, Target.setText, Target.type, hread, Target.write, Store.write_read]

namespace Table

/-- Every value of a host type is read back from its text, where a text is kept as it is, blanks
included. So a setting with a value of its own, or with that of a host variable, takes the text that
is read from it, and neither the table nor a host variable has changed. -/
theorem values_survive_their_texts :
    (∀ (type : HostType) (v : type.Carrier), type.ofText (type.toText v) = .ok v) ∧
      (∀ text, HostType.toText .text text = text ∧ HostType.ofText .text text = .ok text) ∧
      ∀ (t : Table) (s : Store) (id : EntryId) (e : Entry), t.get? id = some e →
        e.storage.Plain → ∃ text, t.readText s id = .ok text ∧
          t.writeText s id text = (.ok (), t, s) := by
  refine ⟨HostType.ofText_toText, fun text => ⟨rfl, rfl⟩, ?_⟩
  intro t s id e live plain
  obtain ⟨text, hread, hwrite⟩ := Entry.writeText_own plain s
  refine ⟨text, (readText_eq_ok live).mpr hread, ?_⟩
  unfold writeText onEntry
  simp only [live, hwrite, set_get? live]
  rfl

end Table

/-- An integer that no double is, and a text with blanks around it. -/
theorem Session.seed_and_label_take_their_texts :
    let seed : HostType := .int .u64
    let value : seed.Carrier := (IntType.clamp .u64 9007199254740993 : IntType.Value .u64)
    let s := (fresh "root" "").after
      [.change fun st => (st.add ⟨seed, value⟩).2,
        .ask (.register Table.root "seed" "" (.linked (.var seed ⟨0⟩) value)),
        .ask (.register Table.root "label" "" .text), .ask (.writeText ⟨2⟩ " a b ")]
    s.table.writeText s.store ⟨1⟩ "9007199254740993" = (.ok (), s.table, s.store) ∧
      s.table.writeText s.store ⟨2⟩ " a b " = (.ok (), s.table, s.store) := by
  intro seed value s
  have hread : s.table.readText s.store ⟨1⟩ = .ok "9007199254740993" := by decide +kernel
  have hread' : s.table.readText s.store ⟨2⟩ = .ok " a b " := by decide +kernel
  have hplain : ∀ id ∈ [(⟨1⟩ : EntryId), ⟨2⟩],
      ∃ e ∈ s.table.get? id, e.storage.Plain := by decide +kernel
  obtain ⟨e, live, plain⟩ := hplain ⟨1⟩ (by simp)
  obtain ⟨d, live', plain'⟩ := hplain ⟨2⟩ (by simp)
  obtain ⟨-, -, own⟩ := Table.values_survive_their_texts
  obtain ⟨text, htext, hwrite⟩ := own s.table s.store ⟨1⟩ e live plain
  obtain ⟨text', htext', hwrite'⟩ := own s.table s.store ⟨2⟩ d live' plain'
  rw [Except.ok.inj (htext.symm.trans hread)] at hwrite
  rw [Except.ok.inj (htext'.symm.trans hread')] at hwrite'
  exact ⟨hwrite, hwrite'⟩

/-! ## Texts that spell integers -/

section

variable {t : Table} {id : EntryId} {e : Entry} {type : HostType} {var : VariableId}

/-- A variable gets the value that the text is read as. -/
theorem Table.writeText_linked (live : t.get? id = some e)
    (linked : e.storage = .linked (.var type var)) {text : String} {v : type.Carrier}
    (read : type.ofText text = .ok v) (s : Store) :
    t.writeText s id text = (.ok (), t, s.write type var v) := by
  have hwrite : e.writeText text s = (.ok (), e, s.write type var v) := by
    unfold Entry.writeText
    simp only [linked, Target.setText, Target.type, read, Target.write]
  unfold writeText onEntry
  simp only [live, hwrite, set_get? live]
  rfl

end

/-- A text that spells an integer is read by every integer type, however many digits it has. The
value is the integer if it lies in the range of the type, and the end of the range on its side if it
does not. A setting that is linked to a variable of the type takes the text, so that the variable
has this value, and the text of an integer that is no smaller leaves no smaller a value. -/
theorem Table.integer_text_to_variable (type : IntType) {text : String} {n : Int}
    (spelled : Spells (trimBlanks text.toList) n) :
    ∃ v : type.Value, HostType.ofText (.int type) text = .ok v ∧
      (type.min ≤ n → n ≤ type.max → v.toInt = n) ∧ (n < type.min → v.toInt = type.min) ∧
      (type.max < n → v.toInt = type.max) ∧
      (∀ (t : Table) (s : Store) (id : EntryId) (e : Entry) (var : VariableId),
        t.get? id = some e → e.storage = .linked (.var (.int type) var) →
        (s.value? var).map HostValue.type = some (.int type) →
        t.writeText s id text = (.ok (), t, s.write (.int type) var v) ∧
          (s.write (.int type) var v).read (.int type) var = v) ∧
      ∀ (text' : String) (m : Int), Spells (trimBlanks text'.toList) m → n ≤ m →
        ∃ w : type.Value, HostType.ofText (.int type) text' = .ok w ∧ v.toInt ≤ w.toInt := by
  have hread := HostType.ofText_of_spells (t := type) spelled
  refine ⟨type.clamp n, hread, IntType.toInt_clamp_of_mem, fun h => IntType.toInt_clamp_of_le h.le,
    fun h => IntType.toInt_clamp_of_ge h.le, ?_, ?_⟩
  · intro t s id e var live linked hvar
    exact ⟨writeText_linked live linked hread s, s.read_write_same _ var _ hvar⟩
  · intro text' m spelled' hle
    exact ⟨type.clamp m, HostType.ofText_of_spells spelled', IntType.toInt_clamp_mono hle⟩

/-- Three texts for a byte: one below its range, one in it with blanks and zeros, and one whose
integer is past every finite double. A setting takes the last one. -/
theorem Session.long_and_negative_texts_to_byte :
    let huge := String.ofList ('9' :: List.replicate 400 '0')
    let byte : HostType := .int .u8
    let zero : byte.Carrier := (IntType.clamp .u8 0 : IntType.Value .u8)
    let s := (fresh "root" "").after
      [.change fun st => (st.add ⟨byte, zero⟩).2,
        .ask (.register Table.root "level" "" (.linked (.var byte ⟨0⟩) zero))]
    (∃ v : IntType.Value .u8, HostType.ofText byte "-5" = .ok v ∧ v.toInt = 0) ∧
      (∃ v : IntType.Value .u8, HostType.ofText byte " +0255\t" = .ok v ∧ v.toInt = 255) ∧
      ∃ v : IntType.Value .u8, HostType.ofText byte huge = .ok v ∧ v.toInt = 255 ∧
        s.table.writeText s.store ⟨1⟩ huge = (.ok (), s.table, s.store.write byte ⟨0⟩ v) := by
  intro huge byte zero s
  have minus : Spells (trimBlanks "-5".toList) (-5) := by
    have hcs : trimBlanks "-5".toList = '-' :: ['5'] := by decide
    rw [hcs]
    exact .minus ⟨by decide, List.all_eq_true.mp rfl⟩
  have padded : Spells (trimBlanks " +0255\t".toList) 255 := by
    have hcs : trimBlanks " +0255\t".toList = '+' :: ['0', '2', '5', '5'] := by decide
    rw [hcs]
    exact .plus ⟨by decide, List.all_eq_true.mp rfl⟩
  have long : Spells (trimBlanks huge.toList) (digitsValue ('9' :: List.replicate 400 '0')) := by
    have row : DigitRow ('9' :: List.replicate 400 '0') := by
      have nine : DigitRow ['9'] := ⟨by decide, List.all_eq_true.mp rfl⟩
      have zeros : ∀ c ∈ List.replicate 400 '0', isDigit c = true :=
        fun c hc => List.eq_of_mem_replicate hc ▸ rfl
      exact nine.append zeros
    have hcs : trimBlanks huge.toList = '9' :: List.replicate 400 '0' := by
      rw [String.toList_ofList]
      exact trimBlanks_of_not_isBlank fun c hc => not_isBlank_of_isDigit (row.digits c hc)
    rw [hcs]
    exact .plain row
  have hlarge : IntType.max .u8 < (digitsValue ('9' :: List.replicate 400 '0') : Int) := by
    decide +kernel
  obtain ⟨e, live, linked⟩ :
      ∃ e, s.table.get? ⟨1⟩ = some e ∧ e.storage = .linked (.var byte ⟨0⟩) := ⟨_, rfl, rfl⟩
  obtain ⟨v, hv, -, below, -⟩ := Table.integer_text_to_variable .u8 minus
  obtain ⟨w, hw, inside, -⟩ := Table.integer_text_to_variable .u8 padded
  obtain ⟨x, hx, -, -, above, writes, -⟩ := Table.integer_text_to_variable .u8 long
  refine ⟨⟨v, hv, below (by decide)⟩, ⟨w, hw, inside (by decide) (by decide)⟩,
    x, hx, above hlarge, ?_⟩
  exact (writes s.table s.store ⟨1⟩ e ⟨0⟩ live linked rfl).1

/-! ## Texts that are passed -/

theorem eq_ok_of_toOption {ε α : Type} {r : Except ε α} {a : α}
    (h : r.toOption = some a) : r = .ok a := by
  cases r with
  | ok b => exact congrArg Except.ok (Option.some.inj h)
  | error _ => cases h

/-- A text that is taken for a parameter is taken by every setting that is linked to a variable of
the type of the parameter, and the variable gets the value that the parameter got. The exception is
a text that goes astray on its way to a single: it gives the parameter another value. -/
theorem Table.passed_text_as_assigned {t : Table} {s : Store} {id : EntryId} {e : Entry}
    {text : String} (live : t.get? id = some e) (stored : e.isNumeric? = some false)
    (held : t.readText s id = .ok text) (type : HostType) {v : type.Carrier}
    (passed : t.convert s (.value type) id = .ok v) :
    ∃ w, type.ofText text = .ok w ∧ (w ≠ v ↔ type = .single ∧ SpelledAstray text) ∧
      ∀ (target : EntryId) (d : Entry) (var : VariableId), t.get? target = some d →
        d.storage = .linked (.var type var) →
        t.writeText s target text = (.ok (), t, s.write type var w) := by
  obtain ⟨text', hread, hnumber, -⟩ := Entry.readings_of_isText stored s
  obtain rfl : text' = text := by
    have hheld := (readText_eq_ok live).mp held
    exact Except.ok.inj (hread.symm.trans hheld)
  have taken : type.ofArgument (.ok text') (parseNumber text') = .ok v := by
    rw [convert_of_live live, hread, hnumber] at passed
    cases h : type.ofArgument (.ok text') (parseNumber text') with
    | ok w =>
      rw [h] at passed
      exact congrArg Except.ok (Except.ok.inj passed)
    | error error =>
      rw [h] at passed
      cases passed
  obtain ⟨w, hw, hne⟩ := HostType.ofText_of_ofArgument type taken
  exact ⟨w, hw, hne, fun _ _ _ live' linked => writeText_linked live' linked hw s⟩

/-- A number with a fraction for a byte, and a number for a single that is read as the double in the
middle between one and the next single. -/
theorem Session.fraction_and_tie_as_assigned :
    let tie := "1.0000000596046447753906251"
    let s := (fresh "root" "").after
      [.ask (.makeTemp (.text " 7.9 ")), .ask (.makeTemp (.text tie))]
    (∃ w : IntType.Value .i8, HostType.ofText (.int .i8) " 7.9 " = .ok w ∧ w.toInt = 7) ∧
      ∃ v w : Single, s.table.convert s.store (.value .single) ⟨2⟩ = .ok v ∧ v.toText = "1" ∧
        HostType.ofText .single tie = .ok w ∧ w ≠ v := by
  intro tie s
  obtain ⟨e, live, stored⟩ : ∃ e, s.table.get? ⟨1⟩ = some e ∧ e.isNumeric? = some false :=
    ⟨_, rfl, rfl⟩
  obtain ⟨d, live', stored'⟩ : ∃ d, s.table.get? ⟨2⟩ = some d ∧ d.isNumeric? = some false :=
    ⟨_, rfl, rfl⟩
  have held : s.table.readText s.store ⟨1⟩ = .ok " 7.9 " := by decide +kernel
  have held' : s.table.readText s.store ⟨2⟩ = .ok tie := by decide +kernel
  obtain ⟨v, hv, hseven⟩ := Option.map_eq_some_iff.mp
    (show (s.table.convert s.store (.value (.int .i8)) ⟨1⟩).toOption.map IntType.Value.toInt =
      some 7 by decide +kernel)
  obtain ⟨v', hv', hone⟩ := Option.map_eq_some_iff.mp
    (show (s.table.convert s.store (.value .single) ⟨2⟩).toOption.map Binary.toText = some "1" by
      decide +kernel)
  have passed := eq_ok_of_toOption hv
  have passed' := eq_ok_of_toOption hv'
  have astray : SpelledAstray tie := by
    have canonical : Format.double.Canonical 4503599895805952 (-52) := by decide
    have spelled : Numeral.ofChars? (trimBlanks tie.toList) =
        some (.decimal false 10000000596046447753906251 (-25)) := by decide +kernel
    have double : (Binary.ofDecimal false 10000000596046447753906251 (-25) : Double) =
        .finite false 4503599895805952 (-52) canonical := by
      revert canonical
      decide +kernel
    refine ⟨spelled, double, .down (m := 8388608) (e := -23) (by decide) (by decide) ?_ ?_⟩
    · norm_num
    · unfold middle
      norm_num
  obtain ⟨w, hw, same, -⟩ := Table.passed_text_as_assigned live stored held _ passed
  obtain ⟨w', hw', other, -⟩ := Table.passed_text_as_assigned live' stored' held' _ passed'
  have hsame : w = v := by
    by_contra hne
    cases (same.mp hne).1
  exact ⟨⟨w, hw, hsame ▸ hseven⟩, v', w', passed', hone, hw', other.mpr ⟨rfl, astray⟩⟩

/-- The function gets one, and the variable of the same type the next single. -/
theorem Session.single_is_passed_as_another :
    let tie := "1.0000000596046447753906251"
    let short : HostType := .single
    let value : short.Carrier := (Binary.zero : Single)
    let s := (fresh "root" "").after
      [.change fun st => (st.add ⟨short, value⟩).2,
        .ask (.register Table.root "short" "" (.linked (.var short ⟨0⟩) value)),
        .ask (.makeTemp (.text tie)), .ask (.writeText ⟨1⟩ tie)]
    s.table.readText s.store ⟨2⟩ = .ok tie ∧
      (s.table.convert s.store (.value .single) ⟨2⟩).toOption.map Binary.toText = some "1" ∧
      (s.store.value? ⟨0⟩).map HostValue.toText = some "1.0000001" := by
  decide +kernel

end Settings

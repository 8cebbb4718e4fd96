import Settings.Proofs.Number.WholeTexts
import Settings.Proofs.Session.Runs
import Settings.Proofs.Table.Quantities

/-!
# Copies of values

A copy takes the value of one entry in the form it is stored in and writes it to another entry in
the form that is stored there. Where the form is a number this is the writing of what is read from
the source as a number, and a refusal if it cannot be read so. Where the form is a text it is the
writing of a text, but not always of the one that is read from the source: a source that stores a
number hands over the number, and its text is written, which for a flag, for a single and for an
integer past `2 ^ 53` need not be the text of the source (`Entry.HandsOver`).
-/

set_option autoImplicit false

namespace Settings

namespace Entry

variable {e d : Entry} {s : Store} {x : Double} {text : String}

/-! ## What is taken and what is written -/

theorem snapshot_of_isNumeric (stored : e.isNumeric? = some true)
    (h : e.readNumber s = .ok x) : e.snapshot s = some (.number x) := by
  unfold readNumber at h
  unfold snapshot
  rcases storage_of_isNumeric stored with ⟨target, hs, htext⟩ | ⟨y, hs⟩
  · have hx : target.toNumber s = .ok x := by simpa [hs] using h
    simp [hs, htext, hx, Except.toOption]
  · obtain rfl : y = x := by simpa [hs] using h
    rw [hs]

theorem snapshot_of_isText (stored : e.isNumeric? = some false)
    (h : e.readText s = .ok text) : e.snapshot s = some (.text text) := by
  unfold readText at h
  unfold snapshot
  rcases storage_of_isText stored with ⟨target, hs, htext⟩ | ⟨y, hs⟩
  · have hread : target.toText s = text := by simpa [hs] using h
    simp [hs, htext, hread]
  · obtain rfl : y = text := by simpa [hs] using h
    rw [hs]

/-- An entry that stores a number takes every number. -/
theorem writeNumber_ok (stored : e.isNumeric? = some true) (x : Double) (s : Store) :
    (e.writeNumber x s).1 = .ok () := by
  unfold writeNumber
  rcases storage_of_isNumeric stored with ⟨target, hs, -⟩ | ⟨y, hs⟩
  · rw [hs]
  · rw [hs]

/-- An entry that stores a text takes every text. -/
theorem writeText_ok (stored : e.isNumeric? = some false) (text : String) (s : Store) :
    (e.writeText text s).1 = .ok () := by
  unfold writeText
  rcases storage_of_isText stored with ⟨target, hs, htext⟩ | ⟨y, hs⟩
  · obtain ⟨v, hv⟩ := HostType.ofText_of_isText htext text
    simp [hs, Target.setText, hv]
  · rw [hs]

/-! ## Copies between entries -/

/-- The text that a source hands over: its own if it stores one, else that of its number. -/
inductive HandsOver (e : Entry) (s : Store) : String → Prop
  | text {text : String} (stored : e.isNumeric? = some false) (h : e.readText s = .ok text) :
      HandsOver e s text
  | number {x : Double} (stored : e.isNumeric? = some true) (h : e.readNumber s = .ok x) :
      HandsOver e s x.toText

/-- Entries that hand over the text that is read from them: those that store a text or a double, and
those with an integer of the host that is a double. -/
inductive KeepsText (e : Entry) (s : Store) : Prop
  | text (stored : e.isNumeric? = some false)
  | double (format : e.format? = some .double)
  | int (n : Int) (holds : e.quantity? s = some (Quantity.ofInt n)) (small : n.natAbs ≤ 2 ^ 53)
      (format : e.format? = none) (printed : e.readText s = .ok (intText n))

theorem Reads.toText_double {q : Option Quantity} {text : String} {x : Double}
    (h : Reads (some .double) q text x) : x.toText = text := by
  cases h with
  | double x => rfl

theorem Reads.toText_int {n : Int} {x : Double} (small : n.natAbs ≤ 2 ^ 53)
    (h : Reads none (some (Quantity.ofInt n)) (intText n) x) : x.toText = intText n := by
  generalize hq : some (Quantity.ofInt n) = q at h
  generalize htext : intText n = text at h
  cases h with
  | int v =>
    obtain rfl := Quantity.ofInt_injective (Option.some.inj hq)
    exact Binary.toText_ofInt_of_le small
  | bool b =>
    -- a word is no numeral
    obtain rfl := Quantity.ofInt_injective (Option.some.inj hq)
    cases b <;> exact absurd htext (by decide +kernel)

theorem KeepsText.handsOver (h : e.KeepsText s) (hread : e.readText s = .ok text) :
    e.HandsOver s text := by
  cases hn : e.isNumeric? with
  | none =>
    rw [(no_value hn s).2.1] at hread
    cases hread
  | some numeric =>
    cases numeric with
    | false => exact .text hn hread
    | true =>
      obtain ⟨text', x, hread', hx, hreads⟩ := reads_of_isNumeric hn s
      obtain rfl : text' = text := Except.ok.inj (hread'.symm.trans hread)
      have hown : x.toText = text' := by
        cases h with
        | text stored =>
          rw [hn] at stored
          cases stored
        | double format =>
          rw [format] at hreads
          exact hreads.toText_double
        | int n holds small format printed =>
          obtain rfl : intText n = text' := Except.ok.inj (printed.symm.trans hread')
          rw [format, holds] at hreads
          exact hreads.toText_int small
      exact hown ▸ .number hn hx

/-- Whatever has a value has a text to hand over. -/
theorem exists_handsOver {numeric : Bool} (h : e.isNumeric? = some numeric) (s : Store) :
    (∃ text, e.HandsOver s text) ∧ ∃ text, e.readText s = .ok text := by
  cases numeric with
  | true =>
    obtain ⟨text, x, hread, hx, -⟩ := reads_of_isNumeric h s
    exact ⟨⟨_, .number h hx⟩, text, hread⟩
  | false =>
    obtain ⟨text, hread, -⟩ := readings_of_isText h s
    exact ⟨⟨text, .text h hread⟩, text, hread⟩

theorem HandsOver.snapshot (h : e.HandsOver s text) :
    ∃ value, e.snapshot s = some value ∧ value.toText = text := by
  cases h with
  | text stored h => exact ⟨_, snapshot_of_isText stored h, rfl⟩
  | number stored h => exact ⟨_, snapshot_of_isNumeric stored h, rfl⟩

/-- The value in the form it is stored in is read as a number just as the entry is. -/
theorem toNumber_snapshot {numeric : Bool} (h : e.isNumeric? = some numeric) (s : Store) :
    ∃ value, e.snapshot s = some value ∧ value.toNumber = e.readNumber s := by
  cases numeric with
  | true =>
    obtain ⟨_, x, -, hx, -⟩ := reads_of_isNumeric h s
    exact ⟨_, snapshot_of_isNumeric h hx, hx.symm⟩
  | false =>
    obtain ⟨text, hread, hnumber, -⟩ := readings_of_isText h s
    exact ⟨_, snapshot_of_isText h hread, hnumber.symm⟩

/-- To an entry that stores a number a copy writes what is read from the source as a number. -/
theorem copyFrom_of_isNumeric (stored : d.isNumeric? = some true) (e : Entry) (s : Store) :
    e.copyFrom d s = match e.readNumber s with
      | .ok x => (true, (d.writeNumber x s).2)
      | .error _ => (false, d, s) := by
  unfold copyFrom
  cases hn : e.isNumeric? with
  | none =>
    obtain ⟨hnumber, -, hnone⟩ := no_value hn s
    rw [hnone, hnumber]
  | some numeric =>
    obtain ⟨value, hvalue, hnumber⟩ := toNumber_snapshot hn s
    rw [hvalue, ← hnumber]
    unfold assign
    cases hx : value.toNumber with
    | error _ => simp only [stored, hx]
    | ok x =>
      simp only [stored, hx]
      unfold accepted
      rw [writeNumber_ok stored]
      rfl

/-- To an entry that stores a text it writes the text that the source hands over. -/
theorem copyFrom_eq_writeText (stored : d.isNumeric? = some false) (h : e.HandsOver s text) :
    e.copyFrom d s = (true, (d.writeText text s).2) := by
  obtain ⟨value, hvalue, rfl⟩ := h.snapshot
  unfold copyFrom assign
  rw [hvalue, stored]
  show accepted (d.writeText value.toText s) = _
  unfold accepted
  rw [writeText_ok stored]
  rfl

theorem copyFrom_of_no_value (h : e.isNumeric? = none ∨ d.isNumeric? = none) (s : Store) :
    e.copyFrom d s = (false, d, s) := by
  unfold copyFrom
  rcases h with h | h
  · rw [(no_value h s).2.2]
  · cases e.snapshot s with
    | none => rfl
    | some value =>
      unfold assign
      rw [h]

/-- A copy is done just if the source can be read in the form that the other entry stores. -/
theorem copyFrom_done (e d : Entry) (s : Store) : (e.copyFrom d s).1 = true ↔
    (d.isNumeric? = some true ∧ ∃ x, e.readNumber s = .ok x) ∨
      (d.isNumeric? = some false ∧ ∃ text, e.readText s = .ok text) := by
  cases hd : d.isNumeric? with
  | none => simp [copyFrom_of_no_value (Or.inr hd)]
  | some numeric =>
    cases numeric with
    | true =>
      rw [copyFrom_of_isNumeric hd]
      cases e.readNumber s <;> simp
    | false =>
      cases he : e.isNumeric? with
      | none => simp [copyFrom_of_no_value (Or.inl he), (no_value he s).2.1]
      | some numeric =>
        obtain ⟨⟨text, hands⟩, hread⟩ := exists_handsOver he s
        simp [copyFrom_eq_writeText hd hands, hread]

end Entry

namespace Table

variable {t : Table} {target source : EntryId} {d e : Entry}

/-- The two ways to copy come to the same: that the source has no value is noticed before the
target is looked at, or after. -/
theorem copy_eq_copyLive (hd : t.get? target = some d) (he : t.get? source = some e) (s : Store) :
    t.copyLive s target source = .ok ((e.copyFrom d s).1, t.set target (e.copyFrom d s).2.1,
        (e.copyFrom d s).2.2) ∧
      t.copy s target source = t.copyLive s target source := by
  have hlive : t.copyLive s target source = .ok ((e.copyFrom d s).1,
      t.set target (e.copyFrom d s).2.1, (e.copyFrom d s).2.2) := by
    simp [copyLive, tryOn, entry_eq_ok.mpr hd, entry_eq_ok.mpr he, bind, Except.bind, pure,
      Except.pure]
  refine ⟨hlive, ?_⟩
  rw [hlive]
  unfold copy snapshot? Entry.copyFrom
  simp only [entry_eq_ok.mpr he, bind, Except.bind, pure, Except.pure]
  cases e.snapshot s with
  | none => simp [set_get? hd]
  | some value => simp [assign, tryOn, entry_eq_ok.mpr hd, bind, Except.bind, pure, Except.pure]

/-- A copy between live entries, made in either way, is done just if the source can be read in the
form that the target stores, and otherwise nothing has changed. A target that stores a number ends
as after the writing of the number that is read from the source, and one that stores a text as after
the writing of the text that the source hands over. This is the text that is read from the source if
the source keeps it; another source that stores a number hands over the text of the double that it
is read as. -/
theorem copy_is_a_write (hd : t.get? target = some d) (he : t.get? source = some e) (s : Store) :
    ∃ done t' s', t.copy s target source = .ok (done, t', s') ∧
      t.copyLive s target source = .ok (done, t', s') ∧
      (done = true ↔ (d.isNumeric? = some true ∧ ∃ x, t.readNumber s source = .ok x) ∨
        (d.isNumeric? = some false ∧ ∃ text, t.readText s source = .ok text)) ∧
      (done = false → t' = t ∧ s' = s) ∧
      (d.isNumeric? = some true → ∀ x, t.readNumber s source = .ok x →
        t.writeNumber s target x = (.ok (), t', s')) ∧
      (d.isNumeric? = some false → ∀ text, e.HandsOver s text →
        t.writeText s target text = (.ok (), t', s')) ∧
      (e.KeepsText s → ∀ text, t.readText s source = .ok text → e.HandsOver s text) := by
  obtain ⟨hlive, hcopy⟩ := copy_eq_copyLive hd he s
  have hnumber (x : Double) : t.readNumber s source = .ok x ↔ e.readNumber s = .ok x :=
    readNumber_eq_ok he
  have htext (text : String) : t.readText s source = .ok text ↔ e.readText s = .ok text :=
    readText_eq_ok he
  simp only [hnumber, htext]
  refine ⟨_, _, _, hcopy.trans hlive, hlive, Entry.copyFrom_done e d s, ?_, ?_, ?_, ?_⟩
  · intro hfalse
    rw [Entry.copyFrom_refused hfalse]
    exact ⟨set_get? hd, rfl⟩
  · intro stored x hx
    rw [Entry.copyFrom_of_isNumeric stored, hx]
    unfold writeNumber onEntry
    simp only [hd, Entry.writeNumber_ok stored]
    rfl
  · intro stored text hands
    rw [Entry.copyFrom_eq_writeText stored hands]
    unfold writeText onEntry
    simp only [hd, Entry.writeText_ok stored]
    rfl
  · intro keeps text hread
    exact keeps.handsOver hread

end Table

/-- A text that spells a number is copied to a double, and the double to a text. -/
theorem Session.copies_between_text_and_number :
    let s := (fresh "root" "").after
      [.ask (.register Table.root "ratio" "" .number), .ask (.register Table.root "label" "" .text),
        .ask (.writeText ⟨2⟩ " 2.5")]
    let x : Double := Binary.div (Binary.ofInt 5) (Binary.ofInt 2)
    (∃ t st, s.table.copy s.store ⟨1⟩ ⟨2⟩ = .ok (true, t, st) ∧
      s.table.writeNumber s.store ⟨1⟩ x = (.ok (), t, st)) ∧
    ∃ t st, s.table.copyLive s.store ⟨2⟩ ⟨1⟩ = .ok (true, t, st) ∧
      s.table.writeText s.store ⟨2⟩ "0" = (.ok (), t, st) := by
  intro s x
  obtain ⟨ratio, hratio, numeric, zero, printed⟩ : ∃ e, s.table.get? ⟨1⟩ = some e ∧
      e.isNumeric? = some true ∧ e.readNumber s.store = .ok Binary.zero ∧
      e.readText s.store = .ok (Binary.zero : Double).toText := ⟨_, rfl, rfl, rfl, rfl⟩
  obtain ⟨label, hlabel, stored⟩ : ∃ e, s.table.get? ⟨2⟩ = some e ∧
      e.isNumeric? = some false := ⟨_, rfl, rfl⟩
  have hx : s.table.readNumber s.store ⟨2⟩ = .ok x := by decide +kernel
  have hzero : (Binary.zero : Double).toText = "0" := by decide +kernel
  constructor
  · obtain ⟨done, t, st, hcopy, -, hdone, -, hnumber, -⟩ :=
      Table.copy_is_a_write hratio hlabel s.store
    obtain rfl : done = true := hdone.mpr (Or.inl ⟨numeric, x, hx⟩)
    exact ⟨t, st, hcopy, hnumber numeric x hx⟩
  · obtain ⟨done, t, st, -, hcopy, hdone, -, -, htext, -⟩ :=
      Table.copy_is_a_write hlabel hratio s.store
    obtain rfl : done = true :=
      hdone.mpr (Or.inr ⟨stored, _, (Table.readText_eq_ok hratio).mpr printed⟩)
    exact ⟨t, st, hcopy, hzero ▸ htext stored _ (.number numeric zero)⟩

/-- A flag that is copied to a text does not arrive as the text that is read from it, nor does an
integer past `2 ^ 53`. -/
theorem Session.copies_lose_texts :
    let flag : HostType := .bool
    let count : HostType := .int .u64
    let value : count.Carrier := (IntType.clamp .u64 9007199254740993 : IntType.Value .u64)
    let s := (fresh "root" "").after
      [.change fun st => (st.add ⟨flag, true⟩).2, .change fun st => (st.add ⟨count, value⟩).2,
        .ask (.register Table.root "flag" "" (.linked (.var flag ⟨0⟩) true)),
        .ask (.register Table.root "count" "" (.linked (.var count ⟨1⟩) value)),
        .ask (.register Table.root "first" "" .text), .ask (.register Table.root "second" "" .text),
        .ask (.copy ⟨3⟩ ⟨1⟩), .copyLive ⟨4⟩ ⟨2⟩]
    let read (id : EntryId) : Option String := (s.table.readText s.store id).toOption
    read ⟨1⟩ = some "true" ∧ read ⟨3⟩ = some "1" ∧
      read ⟨2⟩ = some "9007199254740993" ∧ read ⟨4⟩ = some "9007199254740992" := by
  decide +kernel

end Settings

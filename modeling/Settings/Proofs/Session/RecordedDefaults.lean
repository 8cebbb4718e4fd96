import Settings.Proofs.Listing.Alike
import Settings.Proofs.Session.Builtins
import Settings.Proofs.Session.ValueWrites

/-!
# Recorded defaults

Recording the defaults under the root writes the text of each value into the header of its entry,
and writes of values touch no header. What is saved of an entry is the recorded text, so it stays
what it was at the time of recording, whatever becomes of the value.

The empty text is the mark of an entry for which nothing is recorded. A value that reads as the
empty text when the defaults are recorded therefore has none, and what is saved of it is the live
value, then and later.
-/

set_option autoImplicit false

namespace Settings

namespace Table

variable {t : Table} {s : Store} {id : EntryId} {e : Entry}

theorem serialized_of_live (live : t.get? id = some e) (s : Store) :
    t.serialized s id = Attempt.ofError (e.serialized s) := by
  simp [serialized, liveEntry_eq_ok.mpr live, bind, Except.bind]

/-! ## Recording -/

theorem exists_readText (h : e.isScalar = true) (s : Store) : ∃ text, e.readText s = .ok text := by
  obtain ⟨text, htext⟩ := exists_serialized (e := { e with defaultText := "" }) h s
  exact ⟨text, htext⟩

theorem recordDefault_of_readText {text : String} (h : e.readText s = .ok text) :
    e.recordDefault s = { e with defaultText := text } := by
  unfold Entry.recordDefault
  rw [h]

/-- Nothing can be read of a scope or a function. -/
theorem recordDefault_of_not_isScalar (h : e.isScalar = false) (s : Store) :
    e.recordDefault s = e := by
  unfold Entry.recordDefault Entry.readText
  cases hs : e.storage with
  | function f => rfl
  | scope b => rfl
  | linked target => simp [Entry.isScalar, Entry.isScope, Entry.isFunction, hs] at h
  | number x => simp [Entry.isScalar, Entry.isScope, Entry.isFunction, hs] at h
  | text v => simp [Entry.isScalar, Entry.isScope, Entry.isFunction, hs] at h

/-- Under the root the entries have the texts of their values as defaults, those that have values,
and are the same otherwise. -/
structure RecordedUnderRoot (t : Table) (s : Store) (t' : Table) : Prop where
  sound : t'.Sound
  under : ∀ id e, t.Under root id → t.get? id = some e → t'.get? id = some (e.recordDefault s)

theorem Reachable.run_updateDefault (h : t.Reachable) (s : Store) :
    ∃ t', (updateDefault s root : Edit Empty Unit).run t = (.ok (), t') ∧
      t.RecordedUnderRoot s t' := by
  have sound := h.sound
  obtain ⟨er, _, lr, _⟩ := sound.root
  obtain ⟨x, htree⟩ := sound.exists_tree lr
  obtain ⟨t', hrun, found⟩ := Table.run_updateDefault sound htree s
  obtain ⟨⟨hx, _⟩, hid⟩ := tree_eq_ok_iff.mp htree
  refine ⟨t', hrun, ?_, fun id e hu live => ?_⟩
  · have recorded := sound.updated (ε := Empty) s root
    rwa [hrun] at recorded
  · rw [found, live]
    cases hs : e.isScalar with
    | true =>
      have hfunction : e.isFunction = false := by
        cases hf : e.isFunction with
        | false => rfl
        | true => simp [Entry.isScalar, hf] at hs
      have hids : id ∈ x.ids := (hx.mem_ids sound).mpr (hid ▸ hu)
      rw [if_pos (h.builtinsCallable.mem_registered hx live hfunction hids)]
      rfl
    | false =>
      have hsame := recordDefault_of_not_isScalar hs s
      split
      · rfl
      · rw [hsame]

end Table

/-! ## From the recording on -/

namespace Session

variable {s s' : Session} {id : EntryId} {e : Entry}

/-- The session once the defaults under the root are recorded. -/
def recorded (s : Session) : Session := (Operation.ask (.updateDefault Table.root)).run s

theorem recorded_eq (h : s.table.Reachable) : ∃ t, s.recorded = { s with table := t } ∧
    s.table.RecordedUnderRoot s.store t := by
  obtain ⟨t, hrun, ht⟩ := h.run_updateDefault s.store
  exact ⟨t, run_updateDefault hrun, ht⟩

/-- The entry as it is at any time after the recording, as far as writes of values have gone by. -/
theorem SameShapes.recorded_live (h : s.table.Reachable) (hs : s.recorded.SameShapes s')
    (hu : s.table.Under Table.root id) (live : s.table.get? id = some e) {text : String}
    (htext : e.readText s.store = .ok text) :
    ∃ e', s'.table.get? id = some e' ∧ e'.shape = { e with defaultText := text }.shape := by
  obtain ⟨t, heq, ht⟩ := recorded_eq h
  have lrecorded : s.recorded.table.get? id = some { e with defaultText := text } := by
    rw [heq, ← Table.recordDefault_of_readText htext]
    exact ht.under id e hu live
  exact hs.live lrecorded

/-- What is saved of an entry is the recorded text. The empty text stands for none, so of an entry
that read as the empty text the live value is saved. -/
theorem SameShapes.serialized_entry (h : s.table.Reachable) (hs : s.recorded.SameShapes s')
    (hu : s.table.Under Table.root id) (live : s.table.get? id = some e) {text : String}
    (htext : e.readText s.store = .ok text) {e' : Entry} (live' : s'.table.get? id = some e') :
    e'.serialized s'.store = if text = "" then e'.readText s'.store else .ok text := by
  obtain ⟨_, hlive, hshape⟩ := hs.recorded_live h hu live htext
  obtain rfl := Option.mem_unique live' hlive
  have hdefault : e'.defaultText = text := congrArg Entry.defaultText hshape
  unfold Entry.serialized
  rw [hdefault]

theorem SameShapes.serialized (h : s.table.Reachable) (hs : s.recorded.SameShapes s')
    (hu : s.table.Under Table.root id) (live : s.table.get? id = some e) {text : String}
    (htext : e.readText s.store = .ok text) :
    s'.table.serialized s'.store id =
      if text = "" then s'.table.readText s'.store id else .ok text := by
  obtain ⟨e', live', _⟩ := hs.recorded_live h hu live htext
  rw [Table.serialized_of_live live', Table.readText_of_live live',
    hs.serialized_entry h hu live htext live']
  split <;> rfl

/-- Right after the recording the values are still those that were recorded. -/
theorem readText_recorded (h : s.table.Reachable) (hu : s.table.Under Table.root id)
    (live : s.table.get? id = some e) {text : String} (htext : e.readText s.store = .ok text) :
    s.recorded.table.readText s.recorded.store id = .ok text := by
  obtain ⟨t, heq, ht⟩ := recorded_eq h
  have live' := ht.under id e hu live
  rw [Table.recordDefault_of_readText htext] at live'
  rw [heq]
  exact (Table.readText_eq_ok live').mpr htext

/-- A listing shows the same under the root at two times after the recording, if what read as the
empty text when the defaults were recorded reads as the same text at both. -/
theorem SameShapes.listedAlike (h : s.table.Reachable) (hs : s.recorded.SameShapes s')
    (blank : ∀ id e, s.table.Under Table.root id → s.table.get? id = some e →
      e.readText s.store = .ok "" → s'.table.readText s'.store id = .ok "") :
    s.recorded.table.ListedAlike s.recorded.store s'.table s'.store
      (s.table.Under Table.root) := by
  have sound := h.sound
  obtain ⟨t, heq, ht⟩ := recorded_eq h
  intro id e₁ hu live₁
  obtain ⟨e, live⟩ : ∃ e, s.table.get? id = some e := by
    cases hu with
    | self => obtain ⟨e, _, live, _⟩ := sound.root; exact ⟨e, live⟩
    | owned live _ _ => exact ⟨_, live⟩
  have hrecorded : e₁ = e.recordDefault s.store := by
    rw [heq] at live₁
    exact Option.mem_unique live₁ (ht.under id e hu live)
  have hstorage : e₁.storage = e.storage := by rw [hrecorded, Table.storage_recordDefault]
  obtain ⟨e', live', hshape⟩ := hs.live live₁
  have hsame := Entry.storage_eq_of_shape hshape
  refine ⟨⟨e', live', ?_⟩, ?_⟩
  · constructor
    case name =>
      show e'.shape.name = e₁.shape.name
      rw [hshape]
    case description =>
      show e'.shape.description = e₁.shape.description
      rw [hshape]
    case isFunction => exact Table.isFunction_of_storage hsame
    case entries => rw [Table.scope?_of_storage hsame]
    case serialized =>
      intro hscalar
      have hscalar' : e.isScalar = true := by
        rw [← hscalar]
        unfold Entry.isScalar Entry.isScope Entry.isFunction
        rw [hstorage]
      obtain ⟨text, htext⟩ := Table.exists_readText hscalar' s.store
      have first := (SameShapes.refl (heq ▸ ht.sound)).serialized_entry h hu live htext live₁
      rw [hs.serialized_entry h hu live htext live', first]
      split
      · rename_i hempty
        subst hempty
        rw [(Table.readText_eq_ok live').mp (blank id e hu live htext),
          (Table.readText_eq_ok live₁).mp (readText_recorded h hu live htext)]
      · rfl
  · intro b hb c hc
    have hscope : e.scope? = some b := by
      rw [← hb]
      unfold Entry.scope?
      rw [hstorage]
    have hchild : c ∈ e.children := Table.children_eq hscope ▸ List.mem_append_left _ hc
    obtain ⟨ec, lc, _, howner⟩ := sound.child live hchild
    exact .owned lc howner hu

/-- Once the defaults under the root are recorded, writes of values change nothing of what is saved,
however many there are and wherever they go, of every entry whose value did not read as the empty
text at that time. Of the others the live value is saved, so the text of the whole configuration is
the same as long as they read as the empty text. -/
theorem recorded_defaults_are_saved (s : Session) (h : s.table.Reachable)
    (writes : List ValueWrite) :
    let after := s.recorded.afterWrites writes
    (∀ id e, s.table.Under Table.root id → s.table.get? id = some e → e.isScalar = true →
      ∃ text, e.readText s.store = .ok text ∧
        s.recorded.table.serialized s.recorded.store id = .ok text ∧
        after.table.serialized after.store id =
          if text = "" then after.table.readText after.store id else .ok text) ∧
    ((∀ id e, s.table.Under Table.root id → s.table.get? id = some e →
        e.readText s.store = .ok "" → after.table.readText after.store id = .ok "") →
      ∃ text, s.recorded.table.configText s.recorded.store Table.root = .ok text ∧
        after.table.configText after.store Table.root = .ok text) := by
  intro after
  obtain ⟨t, heq, ht⟩ := recorded_eq h
  have sound : s.recorded.table.Sound := heq ▸ ht.sound
  have hs : s.recorded.SameShapes after := sameShapes_afterWrites sound writes
  constructor
  · intro id e hu live hscalar
    obtain ⟨text, htext⟩ := Table.exists_readText hscalar s.store
    refine ⟨text, htext, ?_, hs.serialized h hu live htext⟩
    rw [(SameShapes.refl sound).serialized h hu live htext,
      readText_recorded h hu live htext]
    split
    · rename_i hempty
      rw [hempty]
    · rfl
  · intro blank
    obtain ⟨er, b, lr, hb, _⟩ := sound.root
    exact sound.configText_alike hs.sound (hs.listedAlike h blank) .self lr hb

/-- A label is saved as it was recorded, whatever is written to it later, and with an empty note
beside it that stays empty. -/
theorem recorded_label_is_saved :
    let s := (fresh "root" "").after
      [.ask (.register Table.root "label" "" .text), .ask (.writeText ⟨1⟩ "a"),
        .ask (.register Table.root "note" "" .text)]
    let writes : List ValueWrite := [.text ⟨1⟩ "b", .copy ⟨1⟩ ⟨2⟩, .assignment Table.root "label=c"]
    let after := s.recorded.afterWrites writes
    s.table.Reachable ∧ after.table.readText after.store ⟨1⟩ = .ok "c" ∧
      after.table.serialized after.store ⟨1⟩ = .ok "a" ∧
      after.table.configText after.store Table.root =
        s.recorded.table.configText s.recorded.store Table.root := by
  intro s writes after
  have h : s.table.Reachable := ⟨"root", "", _, rfl⟩
  obtain ⟨saved, config⟩ := recorded_defaults_are_saved s h writes
  have hread : ∀ i < s.table.slots.size, ∀ e ∈ s.table.get? ⟨i⟩,
      e.readText s.store = .ok "" → after.table.readText after.store ⟨i⟩ = .ok "" := by
    decide +kernel
  obtain ⟨text, before, later⟩ := config fun id e _ live =>
    hread id.index (Table.index_lt_of_get? live) e live
  obtain ⟨e, live, owner, scalar, reads⟩ : ∃ e, s.table.get? ⟨1⟩ = some e ∧
      e.owner = some Table.root ∧ e.isScalar = true ∧ e.readText s.store = .ok "a" :=
    ⟨_, rfl, rfl, rfl, rfl⟩
  obtain ⟨saved₁, htext, _, hlater⟩ := saved ⟨1⟩ e (.owned live owner .self) live scalar
  obtain rfl : "a" = saved₁ := Except.ok.inj (reads.symm.trans htext)
  exact ⟨h, by decide +kernel, hlater.trans (if_neg (by decide)), later.trans before.symm⟩

/-- The empty text is recorded as no text, so what is saved of an empty label changes with it. -/
theorem empty_label_is_saved_live :
    let s := (fresh "root" "").after [.ask (.register Table.root "label" "" .text)]
    let after := s.recorded.afterWrites [.text ⟨1⟩ "x"]
    s.table.Reachable ∧
      s.recorded.table.serialized s.recorded.store ⟨1⟩ = .ok "" ∧
      after.table.serialized after.store ⟨1⟩ = .ok "x" ∧
      s.recorded.table.configText s.recorded.store Table.root = .ok "label = ;\n" ∧
      after.table.configText after.store Table.root = .ok "label = x;\n" :=
  ⟨⟨"root", "", _, rfl⟩, by decide +kernel, by decide +kernel, by decide +kernel,
    by decide +kernel⟩

end Session

end Settings

import Settings.Proofs.Session.ValueWrites

/-!
# Saving settings and restoring them

A host writes down the path and the text of settings, and later assigns each text to its path, as a
script would. What was written in between, and in which order the assignments are made, does not
matter: every one of them succeeds, and in the end all of the settings are as they were.

Four things have to meet. The path leads to the same entry as before, since no write of a value
changes names or owners (`Revalued.lookupPath?`). The assignment is split where the path ends, for
want of an earlier `=`. The text is read as the value that it was printed from, whatever was written
since (`Entry.writeText_back`). And an assignment that comes later leaves alone what is back
already, also where two settings are links to one host variable (`read_putBack_of_back`).
-/

set_option autoImplicit false

namespace Settings

/-- The value is the entry's own or a host variable's, and none that a getter makes up. -/
inductive Storage.Plain : Storage → Prop where
  | number (x : Double) : Plain (.number x)
  | text (text : String) : Plain (.text text)
  | host (type : HostType) (id : VariableId) : Plain (.linked (.var type id))

instance : DecidablePred Storage.Plain
  | .number x => .isTrue (.number x)
  | .text t => .isTrue (.text t)
  | .linked (.var type id) => .isTrue (.host type id)
  | .linked (.accessor _) => .isFalse nofun
  | .function _ => .isFalse nofun
  | .scope _ => .isFalse nofun

theorem Entry.isScalar_of_plain {e : Entry} (h : e.storage.Plain) : e.isScalar = true := by
  unfold isScalar isScope isFunction
  cases hs : e.storage with
  | linked target => rfl
  | number x => rfl
  | text t => rfl
  | function f => rw [hs] at h; cases h
  | scope b => rw [hs] at h; cases h

/-- What a host writes down of a setting. -/
structure Record where
  id : EntryId
  path : String
  text : String

def Record.assignment (r : Record) : String := r.path ++ "=" ++ r.text

/-- The setting is one that can be restored, and the record says what can be read of it. -/
structure Record.Of (r : Record) (s : Session) : Prop where
  plain : ∃ e ∈ s.table.get? r.id, e.storage.Plain
  underRoot : ∃ links ∈ (s.table.chain r.id).toOption,
    links.getLast?.map Prod.fst = some Table.root ∧
    ∀ name ∈ Table.namesTo links, '.' ∉ name.toList ∧ '=' ∉ name.toList
  path : s.table.pathOf r.id = .ok r.path
  text : s.table.readText s.store r.id = .ok r.text
  trim_path : trim r.path = r.path
  trim_text : trim r.text = r.text

instance (r : Record) (s : Session) : Decidable (r.Of s) :=
  decidable_of_iff
    ((∃ e ∈ s.table.get? r.id, e.storage.Plain) ∧
      (∃ links ∈ (s.table.chain r.id).toOption, links.getLast?.map Prod.fst = some Table.root ∧
        ∀ name ∈ Table.namesTo links, '.' ∉ name.toList ∧ '=' ∉ name.toList) ∧
      s.table.pathOf r.id = .ok r.path ∧ s.table.readText s.store r.id = .ok r.text ∧
      trim r.path = r.path ∧ trim r.text = r.text)
    ⟨fun ⟨plain, underRoot, path, text, trim_path, trim_text⟩ =>
      ⟨plain, underRoot, path, text, trim_path, trim_text⟩,
    fun h => ⟨h.plain, h.underRoot, h.path, h.text, h.trim_path, h.trim_text⟩⟩

namespace Record.Of

variable {r : Record} {s : Session}

theorem exists_links (hr : r.Of s) :
    ∃ links, s.table.Links r.id links ∧ links.getLast?.map Prod.fst = some Table.root ∧
      (∀ name ∈ Table.namesTo links, '.' ∉ name.toList ∧ '=' ∉ name.toList) ∧
      pathOfNames (Table.namesTo links) = r.path := by
  obtain ⟨links, hlinks, hroot, free⟩ := hr.underRoot
  have hchain : s.table.chain r.id = .ok links := by
    cases hc : s.table.chain r.id <;> simp_all [Except.toOption]
  have hpath := hr.path
  unfold Table.pathOf at hpath
  rw [hchain] at hpath
  exact ⟨links, (Table.chainWithin_eq_ok_iff.mp hchain).1, hroot, free, Except.ok.inj hpath⟩

/-- The path ends at the first `=`. -/
theorem splitFirst?_assignment (hr : r.Of s) :
    splitFirst? '=' r.assignment = some (r.path, r.text) := by
  obtain ⟨links, _, _, free, hpath⟩ := hr.exists_links
  refine splitFirst?_append ?_ r.text
  rw [← hpath]
  exact not_mem_pathOfNames (by decide) fun name hname => (free name hname).2

end Record.Of

/-! ## One value -/

/-- Writing the text of a value brings the value back. Only its host variable is written, if it has
one. -/
theorem Entry.writeText_back {e e' : Entry} {s s' : Store} {text : String} (hs : s.SameTypes s')
    (plain : e.storage.Plain) (hshape : e'.shape = e.shape) (htext : e.readText s = .ok text) :
    ∃ s'', e'.writeText text s' = (.ok (), e, s'') ∧
      (∀ type id, e.storage = .linked (.var type id) → s''.read type id = s.read type id) ∧
      ∀ type id, s'.read type id = s.read type id → s''.read type id = s.read type id := by
  obtain ⟨storage, hstorage⟩ : ∃ storage, e.storage = storage := ⟨_, rfl⟩
  have hsame := Entry.eq_of_shape hshape
  rw [hstorage] at plain hsame
  unfold readText at htext
  unfold writeText
  cases plain with
  | number x =>
    obtain ⟨y, hy⟩ := Entry.number_of_shape hshape.symm hstorage
    obtain rfl : x.toText = text := by simpa [hstorage] using htext
    refine ⟨s', ?_, by simp [hstorage], fun _ _ back => back⟩
    simp only [hy, parseNumber_toText, hsame]
  | text t =>
    obtain ⟨y, hy⟩ := Entry.text_of_shape hshape.symm hstorage
    obtain rfl : t = text := by simpa [hstorage] using htext
    refine ⟨s', ?_, by simp [hstorage], fun _ _ back => back⟩
    simp only [hy, hsame]
  | host type id =>
    have hlink := Entry.linked_of_shape hshape.symm hstorage
    rw [← hlink] at hsame
    obtain rfl : e' = e := hsame
    have hprinted : (Target.var type id).toText s = text := by simpa [hstorage] using htext
    have hread : type.ofText text = .ok (s.read type id) := by
      rw [← hprinted]
      exact type.ofText_toText (s.read type id)
    refine ⟨s'.write type id (s.read type id), ?_, ?_, ?_⟩
    · simp only [hlink, Target.setText, Target.type, hread, Target.write]
    · intro type' id' hlinked
      obtain ⟨rfl, rfl⟩ : type = type' ∧ id = id' := by simpa [hstorage] using hlinked
      exact Store.read_putBack hs type id
    · intro type' id' back
      exact Store.read_putBack_of_back hs type id back

namespace Session

variable {s s' : Session}

/-- The setting is as it was. -/
structure Back (s s' : Session) (id : EntryId) : Prop where
  entry : s'.table.get? id = s.table.get? id
  host : ∀ e type v, s.table.get? id = some e → e.storage = .linked (.var type v) →
    s'.store.read type v = s.store.read type v

/-! ## One assignment -/

/-- The path leads to the setting, whatever was written. -/
theorem Revalued.lookupPath?_path (revalued : s.Revalued s') {r : Record} (hr : r.Of s) :
    s'.table.lookupPath? Table.root r.path = .ok (some r.id) := by
  obtain ⟨links, hlinks, hroot, free, hpath⟩ := hr.exists_links
  rw [← hpath]
  exact Table.Revalued.lookupPath? revalued hlinks hroot
    (Table.dotFree_iff.mpr fun name hname => (free name hname).1)

/-- The assignment of a record succeeds and brings the setting back. What is back already stays. -/
theorem run_assign_record (hk : s.table.SettersKeepTypes) {r : Record} (hr : r.Of s)
    (revalued : s.Revalued s') :
    ∃ s'', (assign Table.root r.assignment).run s' = (.ok (), s'') ∧ s.Revalued s'' ∧
      s.Back s'' r.id ∧ ∀ id, s.Back s' id → s.Back s'' id := by
  obtain ⟨e, live, plain⟩ := hr.plain
  obtain ⟨e', live', hshape⟩ := revalued.live live
  have hlookup : s'.table.lookupPath? Table.root (trim r.path) = .ok (some r.id) := by
    rw [hr.trim_path]
    exact revalued.lookupPath?_path hr
  have hscalar : e'.isScalar = true :=
    (Entry.isScalar_eq_of_shape hshape).trans (Entry.isScalar_of_plain plain)
  obtain ⟨st, hwrite, hback, hkeep⟩ := Entry.writeText_back revalued.types plain hshape
    ((Table.readText_eq_ok live).mp hr.text)
  have hrun := run_assign_found hr.splitFirst?_assignment hlookup live' hscalar
  have hwithText : s'.withText r.id e' r.text =
      { s' with table := s'.table.set r.id e, store := st } := by
    unfold withText
    rw [hwrite]
  have hset := Table.get?_set s'.table r.id (e := e) (h := Table.index_lt_of_get? live')
  rw [hr.trim_text, hwrite, hwithText] at hrun
  refine ⟨_, hrun, ?_, ⟨?_, ?_⟩, ?_⟩
  · rw [← hwithText]
    exact revalued.trans
      (revalued_withText revalued.sound (revalued.settersKeepTypes hk) live' r.text)
  · rw [hset, if_pos rfl, live]
  · intro e₁ type v live₁ hlinked
    obtain rfl := Option.mem_unique live live₁
    exact hback type v hlinked
  · intro id back
    refine ⟨?_, fun e₁ type v live₁ hlinked => hkeep type v (back.host e₁ type v live₁ hlinked)⟩
    rw [hset]
    by_cases hid : id = r.id
    · rw [if_pos hid, hid, live]
    · rw [if_neg hid, back.entry]

/-! ## All assignments -/

/-- Assigns the texts of records to their paths, one after another. -/
def restore : List Record → Action ScriptError Unit
  | [] => return ()
  | r :: rs => do
      assign Table.root r.assignment
      restore rs

theorem run_restore (hk : s.table.SettersKeepTypes) {records : List Record}
    (hr : ∀ r ∈ records, r.Of s) (revalued : s.Revalued s') :
    ∃ s'', (restore records).run s' = (.ok (), s'') ∧
      (∀ r ∈ records, s.Back s'' r.id) ∧ ∀ id, s.Back s' id → s.Back s'' id := by
  induction records generalizing s' with
  | nil => exact ⟨s', rfl, by simp, fun _ back => back⟩
  | cons r records ih =>
    obtain ⟨hfirst, hrest⟩ := List.forall_mem_cons.mp hr
    obtain ⟨s₁, hrun, revalued₁, back, keep⟩ := run_assign_record hk hfirst revalued
    obtain ⟨s₂, hrun₂, backs, keeps⟩ := ih hrest revalued₁
    refine ⟨s₂, (Action.bind_ok _ hrun).trans hrun₂, ?_, fun id hid => keeps id (keep id hid)⟩
    exact List.forall_mem_cons.mpr ⟨keeps r.id back, backs⟩

/-- Settings that were written down are restored after any run of value writes, by assigning their
texts to their paths in any order. The setters among the links may write to host variables as they
like, but a variable has the type it was made with. -/
theorem restore_after_writes (h : s.table.Reachable) (hk : s.table.SettersKeepTypes)
    {records : List Record} (hr : ∀ r ∈ records, r.Of s) (writes : List ValueWrite) :
    ∃ s', (restore records).run (s.afterWrites writes) = (.ok (), s') ∧
      ∀ r ∈ records, s.Back s' r.id := by
  obtain ⟨s', hrun, back, _⟩ := run_restore hk hr (revalued_afterWrites h.sound hk writes)
  exact ⟨s', hrun, back⟩

/-- Two links to one variable with an integer that no double is, a text with an `=` in it, and a
percentage that is only written to. -/
theorem restore_seed_and_label_after_writes :
    let seed : HostType := .int .i64
    let value : seed.Carrier := (IntType.wrap .i64 9007199254740993 : IntType.Value .i64)
    let ops : List Operation :=
      [.change fun st => (st.add ⟨seed, value⟩).2,
        .change fun st => (st.add ⟨.double, Binary.zero⟩).2,
        .ask (.register Table.root "label" "" .text), .ask (.writeText ⟨1⟩ "a=b"),
        .ask (.register Table.root "pop" "" (.scope "")),
        .ask (.register ⟨2⟩ "seed" "" (.linked (.var seed ⟨0⟩) value)),
        .ask (.register ⟨2⟩ "again" "" (.linked (.var seed ⟨0⟩) value))]
    let linked := (fresh "root" "").after ops
    let rate : Content := .linked (.accessor (.percent ⟨1⟩)) Binary.zero
    let s := (Operation.ask (.register Table.root "rate" "" rate)).run linked
    let records : List Record := [⟨⟨4⟩, "pop.again", "9007199254740993"⟩, ⟨⟨1⟩, "label", "a=b"⟩,
      ⟨⟨3⟩, "pop.seed", "9007199254740993"⟩]
    let writes : List ValueWrite :=
      [.number ⟨3⟩ (Binary.ofInt 1), .copy ⟨1⟩ ⟨4⟩, .assignment Table.root "rate=50"]
    ∃ s', (restore records).run (s.afterWrites writes) = (.ok (), s') ∧
      ∀ r ∈ records, s.Back s' r.id := by
  intro seed value ops linked rate s records writes
  have hlinked : linked.table.Reachable := ⟨"root", "", ops, rfl⟩
  have h : s.table.Reachable := ⟨"root", "", _, congrArg Session.table (after_concat _ ops _)⟩
  have hkeeps : linked.table.SettersKeepTypes := by
    -- all links lead to variables
    have hplain : ∀ i < linked.table.slots.size,
        ∀ e ∈ linked.table.get? ⟨i⟩, e.isLinked = true → e.storage.Plain := by decide +kernel
    intro id e a live hs
    have plain :=
      hplain id.index (Table.index_lt_of_get? live) e live (by simp [Entry.isLinked, hs])
    rw [hs] at plain
    cases plain
  have hk : s.table.SettersKeepTypes := by
    refine settersKeepTypes_register hlinked.sound.slots hkeeps ?_ Table.root "rate" ""
    intro a default hrate
    obtain rfl : .percent ⟨1⟩ = a := Target.accessor.inj (Content.linked.inj hrate).1
    exact Accessor.keepsTypes_percent ⟨1⟩
  have hr : ∀ r ∈ records, r.Of s := by decide +kernel
  exact restore_after_writes h hk hr writes

end Session

end Settings

import Settings.Proofs.Host.Variables
import Settings.Proofs.Session.Paths

/-!
# What writes of values leave alone

An entry without the value that is its own is its `shape`: the header, the place in the tree, and
what a link, a function or a scope is. A write of a value changes the shape of no entry and the type
of no host variable. `Table.Revalued` says so of a table and the host variables, for one write, and
by `Revalued.trans` for any number of them.

What depends on shapes alone is then the same at any later time, above all which entry a path leads
to.
-/

set_option autoImplicit false

namespace Settings

def Storage.shape : Storage → Storage
  | .number _ => .number Binary.zero
  | .text _ => .text ""
  | .linked target => .linked target
  | .function f => .function f
  | .scope b => .scope b

/-- The entry with the value of its own forgotten. -/
def Entry.shape (e : Entry) : Entry := { e with storage := e.storage.shape }

namespace Entry

variable {e e' : Entry} {s s' : Store}

theorem frame_shape (e : Entry) : e.shape.frame = e.frame := by
  unfold shape frame scope?
  cases hs : e.storage <;> rfl

theorem frame_eq_of_shape (h : e'.shape = e.shape) : e'.frame = e.frame := by
  rw [← e'.frame_shape, h, e.frame_shape]

theorem isScalar_shape (e : Entry) : e.shape.isScalar = e.isScalar := by
  unfold shape isScalar isScope isFunction
  cases hs : e.storage <;> rfl

theorem isScalar_eq_of_shape (h : e'.shape = e.shape) : e'.isScalar = e.isScalar := by
  rw [← e'.isScalar_shape, h, e.isScalar_shape]

theorem storage_eq_of_shape (h : e'.shape = e.shape) : e'.storage.shape = e.storage.shape :=
  congrArg Entry.storage h

theorem isNumeric?_of_shape (h : e'.shape = e.shape) : e'.isNumeric? = e.isNumeric? := by
  have hstorage := storage_eq_of_shape h
  unfold isNumeric?
  cases hs : e.storage <;> cases hs' : e'.storage <;> simp_all [Storage.shape]

theorem linked_of_shape (h : e'.shape = e.shape) {target : Target}
    (hs : e'.storage = .linked target) : e.storage = .linked target := by
  have hstorage := storage_eq_of_shape h
  rw [hs] at hstorage
  cases he : e.storage <;> simp_all [Storage.shape]

theorem number_of_shape (h : e'.shape = e.shape) {x : Double} (hs : e'.storage = .number x) :
    ∃ y, e.storage = .number y := by
  have hstorage := storage_eq_of_shape h
  rw [hs] at hstorage
  cases he : e.storage <;> simp_all [Storage.shape]

theorem text_of_shape (h : e'.shape = e.shape) {text : String} (hs : e'.storage = .text text) :
    ∃ other, e.storage = .text other := by
  have hstorage := storage_eq_of_shape h
  rw [hs] at hstorage
  cases he : e.storage <;> simp_all [Storage.shape]

/-- Storage aside, entries of one shape are the same. -/
theorem eq_of_shape (h : e'.shape = e.shape) : { e' with storage := e.storage } = e := by
  have hheader : { e'.shape with storage := e.storage } =
      { e.shape with storage := e.storage } := by
    rw [h]
  exact hheader

/-! ## One entry -/

/-- The entry has kept its shape, and a host variable was written through the entry if any was. -/
structure Revalued (e : Entry) (s : Store) (e' : Entry) (s' : Store) : Prop where
  shape : e'.shape = e.shape
  store : s' = s ∨ ∃ target v, e.storage = .linked target ∧ s' = target.write v s

theorem Revalued.refl (e : Entry) (s : Store) : e.Revalued s e s := ⟨rfl, Or.inl rfl⟩

theorem revalued_writeNumber (x : Double) (e : Entry) (s : Store) :
    e.Revalued s (e.writeNumber x s).2.1 (e.writeNumber x s).2.2 := by
  unfold writeNumber
  cases hs : e.storage with
  | linked target => exact ⟨rfl, Or.inr ⟨target, target.type.ofNumber x, hs, rfl⟩⟩
  | number y => exact ⟨by simp [Entry.shape, Storage.shape, hs], Or.inl rfl⟩
  | text t => exact ⟨by simp [Entry.shape, Storage.shape, hs], Or.inl rfl⟩
  | function f => exact .refl e s
  | scope b => exact .refl e s

theorem revalued_writeText (text : String) (e : Entry) (s : Store) :
    e.Revalued s (e.writeText text s).2.1 (e.writeText text s).2.2 := by
  unfold writeText
  cases hs : e.storage with
  | linked target =>
    simp only [Target.setText]
    cases target.type.ofText text with
    | ok v => exact ⟨rfl, Or.inr ⟨target, v, hs, rfl⟩⟩
    | error x => exact .refl e s
  | number y =>
    cases parseNumber text with
    | ok x => exact ⟨by simp [Entry.shape, Storage.shape, hs], Or.inl rfl⟩
    | error x => exact .refl e s
  | text t => exact ⟨by simp [Entry.shape, Storage.shape, hs], Or.inl rfl⟩
  | function f => exact .refl e s
  | scope b => exact .refl e s

theorem revalued_assign (value : Scalar) (e : Entry) (s : Store) :
    e.Revalued s (e.assign value s).2.1 (e.assign value s).2.2 := by
  unfold assign
  split
  · exact .refl e s
  · split
    · exact revalued_writeNumber _ e s
    · exact .refl e s
  · exact revalued_writeText _ e s

theorem revalued_copyFrom (source e : Entry) (s : Store) :
    e.Revalued s (source.copyFrom e s).2.1 (source.copyFrom e s).2.2 := by
  unfold copyFrom
  split
  · exact revalued_assign _ e s
  · exact .refl e s

end Entry

/-! ## A table and the host variables -/

namespace Table

variable {t t' t'' : Table} {s s' s'' : Store} {ε α : Type}

theorem isFunction_of_storage {e e' : Entry} (h : e'.storage.shape = e.storage.shape) :
    e'.isFunction = e.isFunction := by
  unfold Entry.isFunction
  cases he : e.storage <;> cases he' : e'.storage <;> simp_all [Storage.shape]

theorem scope?_of_storage {e e' : Entry} (h : e'.storage.shape = e.storage.shape) :
    e'.scope? = e.scope? := by
  unfold Entry.scope?
  cases he : e.storage <;> cases he' : e'.storage <;> simp_all [Storage.shape]

theorem function?_of_storage {e e' : Entry} (h : e'.storage.shape = e.storage.shape) :
    e'.function? = e.function? := by
  unfold Entry.function?
  cases he : e.storage <;> cases he' : e'.storage <;> simp_all [Storage.shape]

/-- The setters of all links keep the types of the host variables. -/
def SettersKeepTypes (t : Table) : Prop :=
  ∀ id e a, t.get? id = some e → e.storage = .linked (.accessor a) → a.KeepsTypes

theorem SettersKeepTypes.register (h : t.SlotsOk) (hk : t.SettersKeepTypes) {content : Content}
    (hc : ∀ a default, content = .linked (.accessor a) default → a.KeepsTypes) (s : Store)
    (scope : EntryId) (name description : String) :
    (t.register s scope name description content).2.1.SettersKeepTypes := by
  rcases register_cases h s scope name description content with ⟨x, hx⟩ | ⟨id, t', hrun, hi⟩
  · rw [hx]
    exact hk
  · rw [hrun]
    obtain ⟨p, b, _, _, _, _, rfl, rfl⟩ := hi
    intro other e a live hlink
    rw [get?_setBody, h.get?_alloc, h.get?_alloc] at live
    by_cases hscope : other = scope
    · -- a scope is no link
      rw [if_pos hscope] at live
      obtain ⟨e', _, rfl⟩ := Option.map_eq_some_iff.mp live
      exact absurd hlink (by simp)
    rw [if_neg hscope] at live
    split at live
    · obtain rfl := Option.some.inj live
      have hstorage : (storageOf content).1 = .linked (.accessor a) := hlink
      cases content with
      | linked target default =>
        obtain rfl : target = .accessor a := Storage.linked.inj hstorage
        exact hc a default rfl
      | scope _ => cases hstorage
      | number => cases hstorage
      | text => cases hstorage
    · exact hk other e a live hlink

/-- Only values are different: those that entries have of their own, and those of host variables. -/
structure Revalued (t : Table) (s : Store) (t' : Table) (s' : Store) : Prop where
  sound : t'.Sound
  shape : ∀ id, (t'.get? id).map Entry.shape = (t.get? id).map Entry.shape
  types : s.SameTypes s'

namespace Revalued

theorem refl (h : t.Sound) (s : Store) : t.Revalued s t s := ⟨h, fun _ => rfl, .refl s⟩

theorem trans (h : t.Revalued s t' s') (h' : t'.Revalued s' t'' s'') : t.Revalued s t'' s'' where
  sound := h'.sound
  shape := fun id => (h'.shape id).trans (h.shape id)
  types := h.types.trans h'.types

theorem live (h : t.Revalued s t' s') {id : EntryId} {e : Entry} (live : t.get? id = some e) :
    ∃ e', t'.get? id = some e' ∧ e'.shape = e.shape := by
  have hshape := h.shape id
  rw [live] at hshape
  exact Option.map_eq_some_iff.mp hshape

theorem live_before (h : t.Revalued s t' s') {id : EntryId} {e' : Entry}
    (live : t'.get? id = some e') : ∃ e, t.get? id = some e ∧ e'.shape = e.shape := by
  have hshape := h.shape id
  rw [live] at hshape
  obtain ⟨e, he, heq⟩ := Option.map_eq_some_iff.mp hshape.symm
  exact ⟨e, he, heq.symm⟩

theorem settersKeepTypes (h : t.Revalued s t' s') (hk : t.SettersKeepTypes) :
    t'.SettersKeepTypes := by
  intro id e' a live hs
  obtain ⟨e, live, hshape⟩ := h.live_before live
  exact hk id e a live (Entry.linked_of_shape hshape hs)

/-- The way up meets the same entries and the same names. -/
theorem links (h : t.Revalued s t' s') {id : EntryId} {links : List (EntryId × Entry)}
    (hlinks : t.Links id links) : ∃ links', t'.Links id links' ∧
      links'.map (fun link => (link.1, link.2.name)) =
        links.map fun link => (link.1, link.2.name) := by
  apply hlinks.carried
  intro link hlink
  obtain ⟨e', live', hshape⟩ := h.live (hlinks.live link hlink)
  have hframe := Entry.frame_eq_of_shape hshape
  exact ⟨e', live', congrArg (fun f => f.2.1) hframe, congrArg Prod.fst hframe⟩

end Revalued

/-- A path of names without points leads to the same entry as before. -/
theorem Revalued.lookupPath? (h : t.Revalued s t' s') {id top : EntryId}
    {links : List (EntryId × Entry)} (hlinks : t.Links id links)
    (htop : links.getLast?.map Prod.fst = some top) (free : DotFree links) :
    t'.lookupPath? top (pathOfNames (namesTo links)) = .ok (some id) := by
  obtain ⟨links', hlinks', hsame⟩ := h.links hlinks
  have hnames := namesTo_congr Prod.snd (fun _ => rfl) hsame
  have htop' : links'.getLast?.map Prod.fst = some top := by
    have hlast := congrArg List.getLast? hsame
    rw [List.getLast?_map, List.getLast?_map] at hlast
    have := congrArg (Option.map Prod.fst) hlast
    rw [Option.map_map, Option.map_map] at this
    exact this.trans htop
  obtain ⟨⟨top', etop⟩, hlast, rfl⟩ := Option.map_eq_some_iff.mp htop'
  obtain ⟨found, hfound, hiff⟩ := hlinks'.lookupPath?_pathOfNames h.sound hlast
  have free' : DotFree links' := by
    rw [dotFree_iff, hnames]
    exact dotFree_iff.mp free
  rw [← hnames, hfound, hiff.mpr free']

/-! ## Writes -/

/-- An entry in place of one of the same shape. -/
theorem shape_set {id : EntryId} {e e' : Entry} (live : t.get? id = some e)
    (he : e'.shape = e.shape) (other : EntryId) :
    ((t.set id e').get? other).map Entry.shape = (t.get? other).map Entry.shape := by
  rw [get?_set t id other e' (index_lt_of_get? live)]
  by_cases ho : other = id
  · rw [if_pos ho, ho, live]
    exact congrArg some he
  · rw [if_neg ho]

theorem revalued_set (h : t.Sound) (hk : t.SettersKeepTypes) {id : EntryId} {e e' : Entry}
    (live : t.get? id = some e) (he : e.Revalued s e' s') : t.Revalued s (t.set id e') s' where
  sound := h.set live (Entry.frame_eq_of_shape he.shape)
  shape := shape_set live he.shape
  types := by
    rcases he.store with rfl | ⟨target, v, hs, rfl⟩
    · exact .refl s'
    · refine Target.sameTypes_write ?_ v s
      rintro a rfl
      exact hk id e a live hs

/-- One write to an entry of the set, or none. -/
inductive Writes (t : Table) (s : Store) (P : EntryId → Prop) : Table → Store → Prop
  | same : Writes t s P t s
  | entry {id : EntryId} {e e' : Entry} {s' : Store} (hid : P id) (live : t.get? id = some e)
      (he : e.Revalued s e' s') : Writes t s P (t.set id e') s'

variable {P : EntryId → Prop} {id : EntryId}

theorem Writes.revalued (h : t.Sound) (hk : t.SettersKeepTypes) (hw : t.Writes s P t' s') :
    t.Revalued s t' s' := by
  cases hw with
  | same => exact .refl h s
  | entry hid live he => exact revalued_set h hk live he

theorem writes_onEntry (hid : P id) {f : Entry → Store → Except ε α × Entry × Store}
    (hf : ∀ (e : Entry) (s : Store), e.Revalued s (f e s).2.1 (f e s).2.2) :
    t.Writes s P (t.onEntry s id f).2.1 (t.onEntry s id f).2.2 := by
  unfold onEntry
  cases live : t.get? id with
  | none => exact .same
  | some e => exact .entry hid live (hf e s)

theorem writes_tryOn (hid : P id) {f : Entry → Store → Bool × Entry × Store}
    (hf : ∀ (e : Entry) (s : Store), e.Revalued s (f e s).2.1 (f e s).2.2)
    {done : Bool} (hr : t.tryOn s id f = .ok (done, t', s')) : t.Writes s P t' s' := by
  unfold tryOn at hr
  cases he : t.entry id with
  | error x => simp [he, bind, Except.bind] at hr
  | ok e =>
    obtain ⟨_, rfl, rfl⟩ : _ ∧ t.set id (f e s).2.1 = t' ∧ (f e s).2.2 = s' := by
      simpa [he, bind, Except.bind, pure, Except.pure] using hr
    exact .entry hid (entry_eq_ok.mp he) (hf e s)

theorem writes_copy {target source : EntryId} (hid : P target) {done : Bool}
    (hr : t.copy s target source = .ok (done, t', s')) : t.Writes s P t' s' := by
  rcases copy_cases hr with ⟨_, rfl, rfl⟩ | ⟨value, hv⟩
  · exact .same
  · exact writes_tryOn hid (Entry.revalued_assign value) hv

theorem writes_copyLive {target source : EntryId} (hid : P target) {done : Bool}
    (hr : t.copyLive s target source = .ok (done, t', s')) : t.Writes s P t' s' := by
  obtain ⟨e, -, htry⟩ := copyLive_eq_ok hr
  exact writes_tryOn hid (Entry.revalued_copyFrom e) htry

end Table
end Settings

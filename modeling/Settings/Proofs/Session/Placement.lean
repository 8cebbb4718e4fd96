import Settings.Proofs.Session.Deeds
import Settings.Proofs.Session.Instances

/-!
# Where an instance is

A new instance has a scope that was not there before, and whatever is under the scope came in with
it (`placed_of_instantiate`). So as long as no instance is made under the scope of another, they
have no entry in common (`keeps_of_instantiate`, `apart_of_instantiate`). Host variables they have
none in common because those of a new object come after all that there were.
-/

set_option autoImplicit false

namespace Settings

/-- What the set-up of an object links is local to the fields of the object. -/
def ObjectType.LinksFields (type : ObjectType) : Prop :=
  ∀ o, ∀ step ∈ type.setup o, ∀ target default,
    step.registration = .content (.linked target default) → target.Local (· ∈ o.fields)

theorem Store.mem_addAll {s : Store} {values : List HostValue} {v : VariableId}
    (hv : v ∈ (s.addAll values).1) : s.vars.size ≤ v.index := by
  induction values generalizing s with
  | nil => exact absurd hv (by simp [addAll])
  | cons value values ih =>
    rcases List.mem_cons.mp hv with rfl | hv
    · exact Nat.le_refl _
    · have hle : (s.vars.push ⟨value, []⟩).size ≤ v.index := ih hv
      rw [Array.size_push] at hle
      omega

/-! ## What is added -/

theorem SetupStep.added_storage (step : SetupStep) (owner id : EntryId) :
    (step.added owner id).entry.storage = step.entry.storage := by
  have edits : ∀ (changes : List HeaderEdit) (e : Entry),
      (changes.foldl Entry.edit e).storage = e.storage := by
    intro changes
    induction changes with
    | nil => exact fun _ => rfl
    | cons change changes ih =>
      intro e
      rw [List.foldl_cons, ih]
      cases change <;> rfl
  exact edits step.changes _

theorem SetupStep.linked_entry {step : SetupStep} {target : Target}
    (h : step.entry.storage = .linked target) :
    ∃ default, step.registration = .content (.linked target default) := by
  unfold entry at h
  cases hr : step.registration with
  | function f builtin =>
    rw [hr] at h
    cases h
  | content content =>
    rw [hr] at h
    cases content with
    | linked target' default =>
      obtain rfl : target' = target := Storage.linked.inj h
      exact ⟨default, rfl⟩
    | scope _ => cases h
    | number => cases h
    | text => cases h

theorem mem_addedBySetUp {scope : EntryId} {done ids : List EntryId} {steps : List SetupStep}
    {a : Added} (ha : a ∈ addedBySetUp scope done ids steps) :
    ∃ step ∈ steps, ∃ owner id, a = step.added owner id := by
  induction steps generalizing done ids with
  | nil => cases ids <;> exact absurd ha (by simp [addedBySetUp])
  | cons step steps ih =>
    cases ids with
    | nil => exact absurd ha (by simp [addedBySetUp])
    | cons id ids =>
      rcases List.mem_cons.mp ha with rfl | ha
      · exact ⟨step, List.mem_cons_self, _, _, rfl⟩
      · obtain ⟨step', hstep, owner, other, rfl⟩ := ih ha
        exact ⟨step', List.mem_cons_of_mem _ hstep, owner, other, rfl⟩

theorem Entry.linked_withAdded {e : Entry} {id : EntryId} {added : List Added} {target : Target}
    (h : (e.withAdded id added).storage = .linked target) : e.storage = .linked target := by
  cases hb : e.scope? with
  | none => rwa [withAdded_of_scope?_eq_none hb] at h
  | some b =>
    obtain ⟨b', hb', _⟩ := withAdded_of_scope? hb id added
    rw [Table.scope?_eq_some hb'] at h
    cases h

namespace Session

variable {s s' s'' : Session} {c : Catalogue} {type : String} {parent : EntryId}
  {name description : String} {i j : Instance} {id : EntryId}

/-- A new instance has come in as a row of entries, its scope first. Of the others, none has gone to
a scope that was there before, and what is linked are the fields of the object. -/
theorem grown_of_instantiate (h : s.table.Sound)
    (made : (instantiate c type parent name description).run s = (.ok i, s'))
    (fields : ∀ info, c.find? type = some info → info.type.LinksFields) :
    ∃ (info : TypeInfo) (more : List Added), s.table.Grown (scopeAdded parent name description info.name i.scope :: more)
        s'.table ∧
      (∀ a ∈ more, s.table.get? a.owner = none ∧
        ∀ target, a.entry.storage = .linked target → target.Local (· ∈ i.object.fields)) ∧
      ∀ v ∈ i.object.fields, s.store.vars.size ≤ v.index := by
  obtain ⟨info, s₁, s₂, hc, hobject, hscope, hpopulate⟩ := instantiate_eq_ok made
  have hnew : (newObject info.type : Action BindError Object).run s =
      (.ok ⟨⟨s.objectCount⟩, info.type.tag, (s.store.addAll info.type.initial).1⟩,
        { s with store := (s.store.addAll info.type.initial).2,
                 objectCount := s.objectCount + 1 }) := rfl
  obtain rfl := congrArg Prod.snd (hobject.symm.trans hnew)
  have hfields : i.object.fields = (s.store.addAll info.type.initial).1 :=
    congrArg Object.fields (Except.ok.inj (congrArg Prod.fst (hobject.symm.trans hnew)))
  rcases register_cases (s := { s with
      store := (s.store.addAll info.type.initial).2, objectCount := s.objectCount + 1 })
      h.slots parent name description (.scope info.name) with ⟨x, hx, _⟩ | ⟨scope, t, hrun, hi⟩
  · exact absurd (congrArg Prod.fst (hscope.symm.trans hx)) (by simp)
  · obtain rfl : i.scope = scope := Except.ok.inj (congrArg Prod.fst (hscope.symm.trans hrun))
    have ht : s₂.table = t := congrArg (fun r => r.2.table) (hscope.symm.trans hrun)
    have hg : s.table.Grown [scopeAdded parent name description info.name i.scope] s₂.table :=
      ht ▸ h.grown.inserted (fun _ => Table.entryOf_body) hi
    obtain ⟨more, hgrows, _, hadded⟩ := adds_populate h.slots hg
      (List.mem_singleton_self i.scope) (info.type.setup i.object) i.object info.members
    rw [hpopulate] at hgrows hadded
    obtain ⟨ids, memberIds, _, _, rfl⟩ := hadded () rfl
    refine ⟨info, addedBySetUp i.scope [] ids (info.type.setup i.object) ++
      addedMembers i.scope i.object memberIds info.members, hgrows.grown,
      fun a ha => ⟨hgrows.inside a ha, ?_⟩, ?_⟩
    · intro target hlink
      rcases List.mem_append.mp ha with ha | ha
      · obtain ⟨step, hstep, owner, id, rfl⟩ := mem_addedBySetUp ha
        rw [SetupStep.added_storage] at hlink
        obtain ⟨default, hr⟩ := SetupStep.linked_entry hlink
        exact fields info hc i.object step hstep target default hr
      · obtain ⟨id, m, rfl⟩ := mem_addedMembers ha
        cases hlink
    · intro v hv
      exact Store.mem_addAll (hfields ▸ hv)

/-! ## The places of instances -/

/-- A new instance is in its place. -/
theorem placed_of_instantiate (h : s.table.Sound)
    (made : (instantiate c type parent name description).run s = (.ok i, s'))
    (fields : ∀ info, c.find? type = some info → info.type.LinksFields) : s'.Placed i := by
  obtain ⟨info, more, hg, hmore, _⟩ := grown_of_instantiate h made fields
  have hfirst := hg.new _ List.mem_cons_self
  constructor
  case sound => exact hg.sound
  case scope =>
    obtain ⟨b, hb, _⟩ := Entry.withAdded_of_scope? (show (Table.placed
      (Table.entryOf name description (.scope info.name)) (some parent)).scope? =
        some (.empty info.name) from rfl) i.scope
      (scopeAdded parent name description info.name i.scope :: more)
    exact ⟨_, b, hfirst, hb⟩
  case links =>
    intro id e hu live target hlink
    have hnew : s.table.get? id = none := hg.new_of_under h hu
    rcases hg.known id (Table.contains_iff.mpr ⟨e, live⟩) with hold | hmem
    · simp [Table.contains, hnew] at hold
    · obtain ⟨a, ha, rfl⟩ := List.mem_map.mp hmem
      obtain rfl := Option.mem_unique live (hg.new a ha)
      have hstorage := Entry.linked_withAdded hlink
      rcases List.mem_cons.mp ha with rfl | ha
      · cases hstorage
      · exact (hmore a ha).2 target hstorage

/-- Under the scope of the instance only values have changed. -/
structure Keeps (s : Session) (i : Instance) (s' : Session) : Prop where
  sound : s'.table.Sound
  shape : ∀ id, s.table.Under i.scope id →
    (s'.table.get? id).map Entry.shape = (s.table.get? id).map Entry.shape

theorem Keeps.live (h : s.Keeps i s') (hu : s.table.Under i.scope id) {e' : Entry}
    (live' : s'.table.get? id = some e') : ∃ e, s.table.get? id = some e ∧ e'.shape = e.shape := by
  have hshape := h.shape id hu
  rw [live'] at hshape
  obtain ⟨e, live, heq⟩ := Option.map_eq_some_iff.mp hshape.symm
  exact ⟨e, live, heq.symm⟩

/-- Nothing has come under the scope. -/
theorem Keeps.under (h : s.Keeps i s') (hs : s.table.Sound) (hu : s'.table.Under i.scope id) :
    s.table.Under i.scope id := by
  induction hu with
  | self => exact .self
  | @owned id owner e' live' owned' _ ih =>
    -- the owner lists the same children as before
    obtain ⟨p', b, lp', hb, hm⟩ := h.sound.owned id e' owner live' owned'
    obtain ⟨p, lp, hshape⟩ := h.live ih lp'
    have hb₀ : p.scope? = some b :=
      (Table.scope?_of_storage (Entry.storage_eq_of_shape hshape)).symm.trans hb
    obtain ⟨e, live, _, howner⟩ := hs.child lp (Table.children_eq hb₀ ▸ hm)
    exact .owned live howner ih

theorem Placed.keeps (hi : s.Placed i) (h : s.Keeps i s') : s'.Placed i where
  sound := h.sound
  scope := by
    obtain ⟨e, b, live, hb⟩ := hi.scope
    have hshape := h.shape i.scope .self
    rw [live] at hshape
    obtain ⟨e', live', heq⟩ := Option.map_eq_some_iff.mp hshape
    exact ⟨e', b, live', (Table.scope?_of_storage (Entry.storage_eq_of_shape heq)).trans hb⟩
  links := by
    intro id e' hu live' target hlink
    obtain ⟨e, live, hshape⟩ := h.live (h.under hi.sound hu) live'
    exact hi.links id e (h.under hi.sound hu) live target (Entry.linked_of_shape hshape hlink)

/-- An instance is kept when another one is made, but not under its scope. -/
theorem keeps_of_instantiate (hj : s.Placed j)
    (made : (instantiate c type parent name description).run s = (.ok i, s'))
    (fields : ∀ info, c.find? type = some info → info.type.LinksFields)
    (outside : ¬ s.table.Under j.scope parent) : s.Keeps j s' := by
  obtain ⟨info, more, hg, hmore, _⟩ := grown_of_instantiate hj.sound made fields
  refine ⟨hg.sound, fun id hu => ?_⟩
  obtain ⟨e, live⟩ := hj.live hu
  have hothers : ∀ a ∈ scopeAdded parent name description info.name i.scope :: more,
      a.owner ≠ id := by
    refine List.forall_mem_cons.mpr ⟨?_, ?_⟩
    · intro heq
      exact outside ((show parent = id from heq) ▸ hu)
    · rintro a ha rfl
      rw [(hmore a ha).1] at live
      exact absurd live (by simp)
  rw [hg.old id e live, live, Entry.withAdded_of_ne hothers]

/-- A new instance is apart from one that was there before, if it is not made under its scope. -/
theorem apart_of_instantiate (hj : s.Placed j) (known : ∀ v ∈ j.object.fields,
      v.index < s.store.vars.size)
    (made : (instantiate c type parent name description).run s = (.ok i, s'))
    (fields : ∀ info, c.find? type = some info → info.type.LinksFields)
    (outside : ¬ s.table.Under j.scope parent) : s'.Apart j i where
  scopes := by
    intro id hu hi
    obtain ⟨info, more, hg, _, _⟩ := grown_of_instantiate hj.sound made fields
    have hnew : s.table.get? id = none := hg.new_of_under hj.sound hi
    obtain ⟨e, live⟩ :=
      hj.live ((keeps_of_instantiate hj made fields outside).under hj.sound hu)
    rw [hnew] at live
    exact absurd live (by simp)
  fields := by
    intro v hv hi
    obtain ⟨_, _, _, _, hlater⟩ := grown_of_instantiate hj.sound made fields
    have := known v hv
    have := hlater v hi
    omega

end Session
end Settings

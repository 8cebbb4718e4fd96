import Settings.Binding.Catalogue
import Settings.Proofs.Session.LiveHandles
import Settings.Proofs.Table.Growth
import Settings.Stock.Types

/-!
# Instances

An instance is made by a row of registrations: its scope, then what the set-up of its type
registers, then one builtin for each member. A step can only register in scopes that come with the
instance, and the row stops at the first registration that is refused. `Action.Adds` follows it:
whatever has been registered when the row stops, it lies under the scope of the instance, so that
removing this scope undoes all of it.
-/

set_option autoImplicit false

namespace Settings

/-! ## What is registered -/

theorem Catalogue.find?_name {c : Catalogue} {type : String} {info : TypeInfo}
    (h : c.find? type = some info) : info.name = type := by
  simpa using List.find?_some h

/-- The entry that a step registers, without a place. -/
def SetupStep.entry (step : SetupStep) : Entry :=
  match step.registration with
  | .content content => Table.entryOf step.name step.description content
  | .function f _ => .new step.name step.description (.function f)

def SetupStep.builtin (step : SetupStep) : Bool :=
  match step.registration with
  | .content _ => false
  | .function _ builtin => builtin

/-- The scope that a step registers in, from the handles of the steps before it. -/
def Place.owner (scope : EntryId) (done : List EntryId) : Place → EntryId
  | .top => scope
  | .within n => done.getD n scope

theorem Place.owner_mem (scope : EntryId) (done : List EntryId) (place : Place) :
    place.owner scope done ∈ scope :: done := by
  cases place with
  | top => exact List.mem_cons_self
  | within n =>
    show done.getD n scope ∈ scope :: done
    rw [List.getD_eq_getElem?_getD]
    cases hget : done[n]? with
    | none => exact List.mem_cons_self
    | some id => exact List.mem_cons_of_mem _ (List.mem_of_getElem? hget)

def SetupStep.added (step : SetupStep) (owner id : EntryId) : Added :=
  (Added.inserted id owner step.entry step.builtin).edited step.changes

/-- What the steps of a set-up add, the steps before them having registered `done`. -/
def addedBySetUp (scope : EntryId) : (done ids : List EntryId) → List SetupStep → List Added
  | done, id :: ids, step :: steps =>
      step.added (step.place.owner scope done) id :: addedBySetUp scope (done ++ [id]) ids steps
  | _, _, _ => []

def addedMember (scope : EntryId) (o : Object) (id : EntryId) (m : Member × String) : Added :=
  .inserted id scope (.new m.1.name m.2 (.function (m.1.onObject o))) true

/-- What the members of an object add. -/
def addedMembers (scope : EntryId) (o : Object) (ids : List EntryId)
    (members : List (Member × String)) : List Added :=
  List.zipWith (addedMember scope o) ids members

/-! ## Steps that register -/

namespace Session

/-- Between two sessions more entries were added to those that the table has been given before.
None of them went to a scope that was there at the start. -/
structure Grows (t₀ : Table) (added more : List Added) (s s' : Session) : Prop where
  grown : t₀.Grown (added ++ more) s'.table
  inside : ∀ a ∈ more, t₀.get? a.owner = none
  channel : s'.channel = s.channel
  inUse : s'.inUse = s.inUse
  objectCount : s'.objectCount = s.objectCount

variable {t₀ : Table} {added more : List Added} {s s' s'' : Session}

theorem Grows.trans {more' : List Added} (h : Grows t₀ added more s s')
    (h' : Grows t₀ (added ++ more) more' s' s'') : Grows t₀ added (more ++ more') s s'' where
  grown := by
    rw [← List.append_assoc]
    exact h'.grown
  inside := List.forall_mem_append.mpr ⟨h.inside, h'.inside⟩
  channel := h'.channel.trans h.channel
  inUse := h'.inUse.trans h.inUse
  objectCount := h'.objectCount.trans h.objectCount

theorem Grows.refl (h : t₀.Grown added s.table) : Grows t₀ added [] s s where
  grown := by rwa [List.append_nil]
  inside := by simp
  channel := rfl
  inUse := rfl
  objectCount := rfl

end Session

namespace Action

variable {α β : Type} {m : Action TreeError α} {f : α → Action TreeError β} {s : Session}
  {t₀ : Table} {added : List Added} {P : α → List Added → Prop} {Q : β → List Added → Prop}

theorem run_mapError {ε δ α : Type} (g : ε → δ) (m : Action ε α) (s : Session) :
    (m.mapError g).run s = ((m.run s).1.mapError g, (m.run s).2) := rfl

theorem of_mapError_ok {ε δ : Type} {g : ε → δ} {m : Action ε α} {s s' : Session} {a : α}
    (h : (m.mapError g).run s = (.ok a, s')) : m.run s = (.ok a, s') := by
  rw [run_mapError] at h
  rcases hm : m.run s with ⟨outcome, s₁⟩
  rw [hm] at h
  cases outcome with
  | ok b =>
    obtain rfl : b = a := Except.ok.inj (congrArg Prod.fst h)
    obtain rfl : s₁ = s' := congrArg Prod.snd h
    rfl
  | error x => exact absurd (congrArg Prod.fst h) (by simp [Attempt.mapError])

theorem of_settle_ok {ε δ : Type} {m : Action ε α} {s s' : Session} {a : α}
    (h : (m.settle : Action δ (Except ε α)).run s = (.ok (.ok a), s')) : m.run s = (.ok a, s') := by
  have hrun : (m.settle : Action δ (Except ε α)).run s =
      (.ofFault (m.run s).1.settle, (m.run s).2) := rfl
  rcases hm : m.run s with ⟨outcome, s₁⟩
  rw [hrun, hm] at h
  cases outcome with
  | ok b =>
    obtain rfl : b = a := Except.ok.inj (Except.ok.inj (congrArg Prod.fst h))
    obtain rfl : s₁ = s' := congrArg Prod.snd h
    rfl
  | error x => cases x <;> cases congrArg Prod.fst h

/-- The step adds entries without a fault. If it ends with a value, it has added what is said. -/
def Adds (m : Action TreeError α) (s : Session) (t₀ : Table) (added : List Added)
    (P : α → List Added → Prop) : Prop :=
  ∃ more, Session.Grows t₀ added more s (m.run s).2 ∧ (m.run s).1.Faultless ∧
    ∀ a, (m.run s).1 = .ok a → P a more

theorem Adds.bind (h : m.Adds s t₀ added P)
    (hf : ∀ a more s', P a more → Session.Grows t₀ added more s s' →
      (f a).Adds s' t₀ (added ++ more) fun b more' => Q b (more ++ more')) :
    (m >>= f).Adds s t₀ added Q := by
  obtain ⟨more, hgrows, hfaultless, hP⟩ := h
  rcases hr : m.run s with ⟨outcome, s'⟩
  rw [hr] at hgrows hfaultless hP
  cases outcome with
  | ok a =>
    obtain ⟨more', hgrows', hfaultless', hQ⟩ := hf a more s' (hP a rfl) hgrows
    unfold Adds
    rw [bind_ok f hr]
    exact ⟨more ++ more', hgrows.trans hgrows', hfaultless', hQ⟩
  | error x =>
    unfold Adds
    rw [bind_error f hr]
    exact ⟨more, hgrows, hfaultless.failure rfl, by simp⟩

theorem Adds.pure (a : α) (h : t₀.Grown added s.table) (hP : P a []) :
    (Pure.pure a : Action TreeError α).Adds s t₀ added P := by
  refine ⟨[], .refl h, .ok a, ?_⟩
  intro b hb
  obtain rfl : a = b := Except.ok.inj hb
  exact hP

theorem Adds.discard (h : m.Adds s t₀ added P) :
    (discard m : Action TreeError Unit).Adds s t₀ added fun _ more => ∃ a, P a more := by
  obtain ⟨more, hgrows, hfaultless, hP⟩ := h
  rcases hr : m.run s with ⟨outcome, s'⟩
  rw [hr] at hgrows hfaultless hP
  have hrun : (Functor.discard m : Action TreeError Unit).run s =
      (m >>= fun _ => Pure.pure ()).run s := rfl
  unfold Adds
  cases outcome with
  | ok a =>
    rw [hrun, bind_ok _ hr]
    exact ⟨more, hgrows, .ok (), fun _ _ => ⟨a, hP a rfl⟩⟩
  | error x =>
    rw [hrun, bind_error _ hr]
    exact ⟨more, hgrows, hfaultless.failure rfl, by simp⟩

theorem Adds.mono {R : α → List Added → Prop} (h : m.Adds s t₀ added P)
    (hR : ∀ a more, P a more → R a more) : m.Adds s t₀ added R := by
  obtain ⟨more, hgrows, hfaultless, hP⟩ := h
  exact ⟨more, hgrows, hfaultless, fun a ha => hR a more (hP a ha)⟩

end Action

namespace Session

variable {s : Session} {t₀ : Table} {added : List Added} {owner : EntryId}

/-! ### Single registrations -/

theorem run_register {scope : EntryId} {name description : String} {content : Content}
    {outcome : Attempt TreeError EntryId} {t : Table} {st : Store}
    (h : s.table.register s.store scope name description content = (outcome, t, st))
    (refused : ∀ x, outcome = .error x → t = s.table ∧ st = s.store) :
    (register scope name description content).run s =
      (outcome, { s with table := t, store := st }) := by
  unfold register
  rw [Action.run_bind, run_ask]
  simp only [Request.answer, h, Request.answer.replied]
  cases outcome with
  | ok id => rfl
  | error x =>
    obtain ⟨rfl, rfl⟩ := refused x rfl
    cases x <;> rfl

/-- A registration is refused with nothing changed, or its entry comes in. It faults only where
there is no entry. -/
theorem register_cases (h : s.table.SlotsOk) (scope : EntryId) (name description : String)
    (content : Content) :
    (∃ x, (register scope name description content).run s = (.error x, s) ∧
      (s.table.contains scope = true → ∀ y, x ≠ .fault y)) ∨
    ∃ id t, (register scope name description content).run s =
        (.ok id, { s with table := t, store := Table.storeWith content s.store }) ∧
      s.table.Inserted scope (Table.entryOf name description content) false id t := by
  rcases Table.register_cases h s.store scope name description content with
    ⟨x, hx⟩ | ⟨id, t, hrun, hi⟩
  · refine Or.inl ⟨x, run_register hx fun _ _ => ⟨rfl, rfl⟩, ?_⟩
    rintro hscope y rfl
    obtain ⟨p, live⟩ := Table.contains_iff.mp hscope
    exact Table.register_faultless h live s.store name description content y (congrArg Prod.fst hx)
  · exact Or.inr ⟨id, t, run_register hrun (by simp), hi⟩

theorem run_define {scope : EntryId} {name description : String} {f : Function} {builtin : Bool}
    {outcome : Attempt TreeError EntryId} {t : Table}
    (h : (Table.define scope name f description builtin).run s.table = (outcome, t)) :
    (define scope name f description builtin).run s = (outcome, { s with table := t }) := by
  have hrun : (define scope name f description builtin).run s =
      (((Table.define scope name f description builtin).run s.table).1,
        { s with table := ((Table.define scope name f description builtin).run s.table).2 }) := rfl
  rw [hrun, h]

/-- An action that is refused, or brings an entry into a scope that is new itself. -/
theorem adds_of_inserted {m : Action TreeError EntryId} {e : Entry} {builtin : Bool}
    (hg : t₀.Grown added s.table) (hnew : t₀.get? owner = none)
    (hbody : ∀ b, e.scope? = some b → ∃ s, b = .empty s)
    (hcases : (∃ x, m.run s = (.error x, s) ∧ ∀ y, x ≠ .fault y) ∨ ∃ id t st,
      m.run s = (.ok id, { s with table := t, store := st }) ∧
        s.table.Inserted owner e builtin id t) :
    m.Adds s t₀ added fun id more => more = [.inserted id owner e builtin] := by
  rcases hcases with ⟨x, hx, hno⟩ | ⟨id, t, st, hrun, hi⟩
  · unfold Action.Adds
    rw [hx]
    refine ⟨[], .refl hg, ?_, by simp⟩
    intro y hy
    exact hno y (Except.error.inj hy)
  · unfold Action.Adds
    rw [hrun]
    refine ⟨[.inserted id owner e builtin], ?_, .ok id, ?_⟩
    · exact ⟨hg.inserted hbody hi, List.forall_mem_singleton.mpr hnew, rfl, rfl, rfl⟩
    · intro a ha
      obtain rfl : id = a := Except.ok.inj ha
      rfl

theorem adds_define (h : t₀.SlotsOk) (hg : t₀.Grown added s.table)
    (howner : owner ∈ added.map Added.id) (name : String) (f : Function) (description : String)
    (builtin : Bool) :
    (define owner name f description builtin).Adds s t₀ added fun id more =>
      more = [.inserted id owner (.new name description (.function f)) builtin] := by
  obtain ⟨p, live⟩ := Table.contains_iff.mp (hg.live howner)
  refine adds_of_inserted hg (hg.fresh h howner) ?_ ?_
  · exact fun b hb => absurd hb (by simp [Entry.scope?, Entry.new])
  · rcases Table.insert_atomic hg.sound.slots owner (.new name description (.function f)) builtin
      with ⟨x, hx⟩ | ⟨id, t, hrun, hi⟩
    · refine Or.inl ⟨x, run_define hx, ?_⟩
      rintro y rfl
      exact Table.insert_faultless hg.sound.slots live _ builtin y (congrArg Prod.fst hx)
    · exact Or.inr ⟨id, t, s.store, run_define hrun, hi⟩

theorem adds_register (h : t₀.SlotsOk) (hg : t₀.Grown added s.table)
    (howner : owner ∈ added.map Added.id) (name description : String) (content : Content) :
    (register owner name description content).Adds s t₀ added fun id more =>
      more = [.inserted id owner (Table.entryOf name description content) false] := by
  refine adds_of_inserted hg (hg.fresh h howner) (fun _ => Table.entryOf_body) ?_
  rcases register_cases hg.sound.slots owner name description content with
    ⟨x, hx, hno⟩ | ⟨id, t, hrun, hi⟩
  · exact Or.inl ⟨x, hx, hno (hg.live howner)⟩
  · exact Or.inr ⟨id, t, _, hrun, hi⟩

/-! ### Steps of a set-up -/

theorem run_editAll {ε : Type} (h : t₀.SlotsOk) {a : Added}
    (hg : t₀.Grown (added ++ [a]) s.table) (changes : List HeaderEdit) :
    ∃ t, (editAll a.id changes : Action ε Unit).run s = (.ok (), { s with table := t }) ∧
      t₀.Grown (added ++ [a.edited changes]) t := by
  induction changes generalizing a s with
  | nil => exact ⟨s.table, rfl, hg⟩
  | cons change changes ih =>
    obtain ⟨e, live, hedited⟩ := hg.edited h change
    have hrun : (ask (.edit a.id change) : Action ε Unit).run s =
        (.ok (), { s with table := s.table.set a.id (e.edit change) }) := by
      rw [run_ask]
      simp only [Request.answer, Request.answer.done, Table.run_edit live]
    obtain ⟨t, hrest, hgrown⟩ := ih (s := { s with table := s.table.set a.id (e.edit change) })
      hedited
    exact ⟨t, (Action.bind_ok _ hrun).trans hrest, hgrown⟩

theorem adds_edited (h : t₀.SlotsOk) {m : Action TreeError EntryId} {e : Entry} {builtin : Bool}
    (hm : m.Adds s t₀ added fun id more => more = [.inserted id owner e builtin])
    (changes : List HeaderEdit) :
    (do let id ← m; editAll id changes; return id : Action TreeError EntryId).Adds s t₀ added
      fun id more => more = [(Added.inserted id owner e builtin).edited changes] := by
  obtain ⟨more, hgrows, hfaultless, hP⟩ := hm
  rcases hr : m.run s with ⟨outcome, s'⟩
  rw [hr] at hgrows hfaultless hP
  unfold Action.Adds
  cases outcome with
  | error x =>
    rw [Action.bind_error _ hr]
    exact ⟨more, hgrows, hfaultless.failure rfl, by simp⟩
  | ok id =>
    obtain rfl := hP id rfl
    obtain ⟨t, hedit, hgrown⟩ := run_editAll (ε := TreeError) h hgrows.grown changes
    have hinside := List.forall_mem_singleton.mp hgrows.inside
    have hrun : (do let id ← m; editAll id changes; return id : Action TreeError EntryId).run s =
        (.ok id, { s' with table := t }) :=
      (Action.bind_ok _ hr).trans ((Action.bind_ok _ hedit).trans rfl)
    rw [hrun]
    refine ⟨[(Added.inserted id owner e builtin).edited changes], ?_, .ok id, ?_⟩
    · exact ⟨hgrown, List.forall_mem_singleton.mpr hinside, hgrows.channel, hgrows.inUse,
        hgrows.objectCount⟩
    · intro a ha
      obtain rfl : id = a := Except.ok.inj ha
      rfl

theorem adds_registerStep (h : t₀.SlotsOk) (hg : t₀.Grown added s.table)
    (howner : owner ∈ added.map Added.id) (step : SetupStep) :
    (registerStep owner step).Adds s t₀ added fun id more => more = [step.added owner id] := by
  unfold registerStep SetupStep.added SetupStep.entry SetupStep.builtin
  cases step.registration with
  | content content =>
    exact adds_edited h (adds_register h hg howner step.name step.description content) step.changes
  | function f builtin =>
    exact adds_edited h (adds_define h hg howner step.name f step.description builtin) step.changes

/-- The steps of a set-up that were taken before are at hand, like the scope. -/
theorem adds_setUp (h : t₀.SlotsOk) {scope : EntryId} {done : List EntryId}
    (hg : t₀.Grown added s.table) (hdone : ∀ id ∈ scope :: done, id ∈ added.map Added.id)
    (steps : List SetupStep) :
    (setUp scope done steps).Adds s t₀ added fun _ more =>
      ∃ ids, ids.length = steps.length ∧ more = addedBySetUp scope done ids steps := by
  induction steps generalizing done added s with
  | nil => exact .pure () hg ⟨[], rfl, rfl⟩
  | cons step steps ih =>
    have howner := hdone _ (step.place.owner_mem scope done)
    refine (adds_registerStep h hg howner step).bind ?_
    rintro id more s' rfl hgrows
    have hmem : ∀ other ∈ scope :: (done ++ [id]),
        other ∈ (added ++ [step.added (step.place.owner scope done) id]).map Added.id := by
      intro other hother
      rw [List.map_append]
      rcases List.mem_append.mp (show other ∈ (scope :: done) ++ [id] from hother) with hold | hnew
      · exact List.mem_append_left _ (hdone other hold)
      · exact List.mem_append_right _ hnew
    refine (ih hgrows.grown hmem).mono ?_
    rintro _ more ⟨ids, hlen, rfl⟩
    exact ⟨id :: ids, by simp [hlen], rfl⟩

theorem adds_defineMembers (h : t₀.SlotsOk) {scope : EntryId} (hg : t₀.Grown added s.table)
    (hscope : scope ∈ added.map Added.id) (o : Object) (members : List (Member × String)) :
    (defineMembers scope o members).Adds s t₀ added fun _ more =>
      ∃ ids, ids.length = members.length ∧ more = addedMembers scope o ids members := by
  induction members generalizing added s with
  | nil => exact .pure () hg ⟨[], rfl, rfl⟩
  | cons m members ih =>
    obtain ⟨m, description⟩ := m
    have hdefine := adds_define h hg hscope m.name (m.onObject o) description true
    refine hdefine.discard.bind ?_
    rintro _ more s' ⟨id, rfl⟩ hgrows
    refine (ih hgrows.grown (by simp [hscope])).mono ?_
    rintro _ more ⟨ids, hlen, rfl⟩
    exact ⟨id :: ids, by simp [hlen], rfl⟩

/-- The set-up of an object, then its members. -/
theorem adds_populate (h : t₀.SlotsOk) {scope : EntryId} (hg : t₀.Grown added s.table)
    (hscope : scope ∈ added.map Added.id) (steps : List SetupStep) (o : Object)
    (members : List (Member × String)) :
    (do setUp scope [] steps; defineMembers scope o members : Action TreeError Unit).Adds s t₀ added
      fun _ more => ∃ ids memberIds, ids.length = steps.length ∧
        memberIds.length = members.length ∧
        more = addedBySetUp scope [] ids steps ++ addedMembers scope o memberIds members := by
  refine (adds_setUp h hg (List.forall_mem_singleton.mpr hscope) steps).bind ?_
  rintro _ more s' ⟨ids, hlen, rfl⟩ hgrows
  refine (adds_defineMembers h hgrows.grown ?_ o members).mono ?_
  · rw [List.map_append]
    exact List.mem_append_left _ hscope
  · rintro _ more ⟨memberIds, hlen', rfl⟩
    exact ⟨ids, memberIds, hlen, hlen', rfl⟩

/-! ## All or nothing -/

theorem mem_addedMembers {scope : EntryId} {o : Object} {ids : List EntryId}
    {members : List (Member × String)} {a : Added} (ha : a ∈ addedMembers scope o ids members) :
    ∃ id m, a = addedMember scope o id m := by
  induction ids generalizing members with
  | nil => simp [addedMembers] at ha
  | cons id ids ih =>
    cases members with
    | nil => simp [addedMembers] at ha
    | cons m members =>
      rcases List.mem_cons.mp ha with rfl | ha
      · exact ⟨id, m, rfl⟩
      · exact ih ha

/-- The scope of an instance, as it is registered. -/
def scopeAdded (parent : EntryId) (name description type : String) (scope : EntryId) : Added :=
  .inserted scope parent (Table.entryOf name description (.scope type)) false

/-- The steps by which an instance has been made. -/
theorem instantiate_eq_ok {c : Catalogue} {type : String} {parent : EntryId}
    {name description : String} {i : Instance} {s' : Session}
    (h : (instantiate c type parent name description).run s = (.ok i, s')) :
    ∃ info s₁ s₂, c.find? type = some info ∧
      (newObject info.type : Action BindError Object).run s = (.ok i.object, s₁) ∧
      (register parent name description (.scope info.name)).run s₁ = (.ok i.scope, s₂) ∧
      (do
        setUp i.scope [] (info.type.setup i.object)
        defineMembers i.scope i.object info.members : Action TreeError Unit).run s₂ =
          (.ok (), s') := by
  unfold instantiate at h
  cases hc : c.find? type with
  | none =>
    rw [hc] at h
    simp only [Action.run_fail] at h
    cases h
  | some info =>
    rw [hc] at h
    simp only at h
    obtain ⟨o, s₁, hobject, h⟩ := Action.of_bind_ok h
    obtain ⟨scope, s₂, hscope, h⟩ := Action.of_bind_ok h
    obtain ⟨outcome, s₃, hpopulate, h⟩ := Action.of_bind_ok h
    cases outcome with
    | ok u =>
      obtain rfl : ⟨o, scope⟩ = i := Except.ok.inj (congrArg Prod.fst h)
      obtain rfl : s₃ = s' := congrArg Prod.snd h
      exact ⟨info, s₁, s₂, rfl, hobject, Action.of_mapError_ok hscope,
        Action.of_settle_ok hpopulate⟩
    | error e =>
      obtain ⟨_, _, _, h⟩ := Action.of_bind_ok h
      rw [Action.run_fail] at h
      cases h

end Session

end Settings

import Settings.Proofs.Session.Builtins
import Settings.Proofs.Session.Instances
import Settings.Proofs.Session.StaleHandles

/-!
# Receivers

A member is written for objects of one type, and nothing but this type is checked when it is called:
a member that was put on an object of another type is a function like any other until then, and
calling it is a fault. A function is wired if it is not such a member and registers no such member,
at any depth. What the functions of a table are does not change when entries are copied, moved or
renamed, so a table of wired functions stays one for as long as only wired functions are registered
(`Table.Wired.step`), and in such a table no call ever meets the fault, however deep it is nested
(`meets_invokeWithin`).
-/

set_option autoImplicit false

namespace Settings

mutual

/-- All functions that the body registers are wired. -/
inductive Body.Wired : Body → Prop
  | done (outcome : Except CallError EntryId) : Body.Wired (.done outcome)
  | ask (r : Request) {next : r.Reply → Body} (hnext : ∀ reply, (next reply).Wired) :
      Body.Wired (.ask r next)
  | invoke (f : EntryId) (args : List EntryId) {next : Except CallError EntryId → Body}
      (hnext : ∀ outcome, (next outcome).Wired) : Body.Wired (.invoke f args next)
  | define (scope : EntryId) (name : String) {f : Function} (description : String)
      (builtin : Bool) {next : Except TreeError EntryId → Body} (hf : f.Wired)
      (hnext : ∀ outcome, (next outcome).Wired) :
      Body.Wired (.define scope name f description builtin next)
  | inspect {next : Store → Body} (hnext : ∀ s, (next s).Wired) : Body.Wired (.inspect next)
  | update (change : Store → Store) {next : Body} (hnext : next.Wired) :
      Body.Wired (.update change next)

/-- A receiver is of the type that the member is written for. -/
inductive Function.Wired : Function → Prop
  | mk {arity : Arity} {receiver : Option Receiver} {call : List EntryId → Body}
      (tag : ∀ r, receiver = some r → r.object.tag = r.tag) (bodies : ∀ args, (call args).Wired) :
      Function.Wired (.mk arity receiver call)

end

/-- On an object of its type the member registers wired functions only. -/
def Member.Wired (m : Member) : Prop := ∀ o args, o.tag = m.tag → (m.call o args).Wired

theorem Member.Wired.onObject {m : Member} (h : m.Wired) {o : Object} (ho : o.tag = m.tag) :
    (m.onObject o).Wired := by
  refine .mk ?_ fun args => h o args ho
  rintro r hr
  obtain rfl := Option.some.inj hr
  exact ho

/-! ## Functions with typed parameters -/

theorem Body.wired_finish (outcome : Except CallError Returned) : (Body.finish outcome).Wired := by
  cases outcome with
  | error e => exact .done _
  | ok returned =>
    cases returned with
    | scalar v => exact .ask _ fun _ => .done _
    | entry id => exact .done _

theorem Body.wired_convertArgs (name : String) {params : List Param} (position : Nat)
    (args : List EntryId) {next : Args params → Body} (hnext : ∀ vs, (next vs).Wired) :
    (Body.convertArgs name params position args next).Wired := by
  induction params generalizing position args with
  | nil => exact hnext ()
  | cons p params ih =>
    cases args with
    | nil => exact .done _
    | cons id args =>
      refine .ask _ fun reply => ?_
      cases reply with
      | error e => exact .done _
      | ok v => exact ih (position + 1) args fun vs => hnext (v, vs)

/-- A function on values registers nothing. -/
theorem Body.wired_typed (name : String) {params : List Param}
    (f : Args params → StateM Store (Except CallError Returned)) (args : List EntryId) :
    (Body.typed name params f args).Wired := by
  unfold Body.typed
  split
  · exact wired_convertArgs name 1 args fun vs => .inspect fun s => .update _ (wired_finish _)
  · exact .done _

/-! ## Tables -/

namespace Table

variable {t t' : Table} {ids : List EntryId} {new : Option Entry}

def Wired (t : Table) : Prop :=
  ∀ id e f, t.get? id = some e → e.function? = some f → f.Wired

theorem function?_of_scope? {e : Entry} {b : ScopeBody} (h : e.scope? = some b) :
    e.function? = none := by
  unfold Entry.scope? at h
  unfold Entry.function?
  cases hs : e.storage <;> simp_all

theorem function?_copied (e : Entry) (f : EntryId → EntryId) (owner : Option EntryId) :
    (e.copied f owner).function? = e.function? := by
  cases hb : e.scope? with
  | none =>
    unfold Entry.copied
    rw [hb]
    rfl
  | some b =>
    have hcopied := e.scope?_copied f owner
    rw [hb] at hcopied
    rw [function?_of_scope? hb, function?_of_scope? hcopied]

/-- Whatever a step does, the functions are those that there were, or one that it brings in. -/
theorem Step.function_from (h : t.Sound) (hs : t.Step ids new t') {y : EntryId} {e' : Entry}
    {f : Function} (live' : t'.get? y = some e') (hf : e'.function? = some f) :
    (∃ z e, t.get? z = some e ∧ e.function? = some f) ∨
      ∃ e, new = some e ∧ e.function? = some f := by
  cases hs.origin h live' with
  | @kept e _ live hshape =>
    exact Or.inl ⟨y, e, live, (function?_of_storage hshape).symm.trans hf⟩
  | scope live hb hb' builtins =>
    rw [function?_of_scope? hb'] at hf
    exact absurd hf (by simp)
  | temp fresh value =>
    cases value <;> exact absurd hf (by simp [Entry.function?, Entry.temp, Entry.new])
  | @copy id z e g owner fresh hid hz live children =>
    rw [function?_copied] at hf
    exact Or.inl ⟨z, e, live, hf⟩
  | @new e scope fresh hbrought body => exact Or.inr ⟨e, hbrought, hf⟩

theorem Wired.step (h : t.Sound) (hw : t.Wired) (hs : t.Step ids new t')
    (hnew : ∀ e f, new = some e → e.function? = some f → f.Wired) : t'.Wired := by
  intro y e' f live' hf
  rcases hs.function_from h live' hf with ⟨z, e, live, hold⟩ | ⟨e, hbrought, hfun⟩
  · exact hw z e f live hold
  · exact hnew e f hbrought hfun

theorem function?_withRoot {name description : String} {id : EntryId} {e : Entry}
    (live : (withRoot name description).get? id = some e) : e.function? = none := by
  obtain rfl : id = root := EntryId.eq_of_index (Nat.lt_one_iff.mp (index_lt_of_get? live))
  obtain rfl := Option.some.inj live
  simp [Entry.function?, Entry.new]

theorem wired_withRoot (name description : String) : (withRoot name description).Wired := by
  intro id e f live hf
  rw [function?_withRoot live] at hf
  exact absurd hf (by simp)

/-- A content is no function. -/
theorem function?_entryOf (name description : String) (content : Content) :
    (entryOf name description content).function? = none := by
  cases content <;> rfl

end Table

/-- Only registering a function by itself brings in a function. -/
theorem Request.function?_registers {r : Request} {e : Entry} (h : r.registers = some e) :
    e.function? = none := by
  cases r with
  | register scope name description content =>
    obtain rfl := Option.some.inj h
    exact Table.function?_entryOf name description content
  | _ => exact absurd h (by simp [Request.registers])

/-! ## Sessions -/

namespace Session

/-- The table is sound, and all its functions are wired. -/
structure Wired (s : Session) : Prop where
  sound : s.table.Sound
  functions : s.table.Wired

variable {s : Session}

theorem Wired.answered (h : s.Wired) {r : Request} {reply : r.Reply} {t : Table} {st : Store}
    (hr : r.answer s.table s.store = .ok (reply, t, st)) :
    ({ s with table := t, store := st } : Session).Wired := by
  refine ⟨Request.sound_answer h.sound hr, ?_⟩
  refine h.functions.step h.sound (Request.step_answer h.sound hr) ?_
  intro e f hnew hf
  rw [Request.function?_registers hnew] at hf
  exact absurd hf (by simp)

theorem Wired.defined (h : s.Wired) {f : Function} (hf : f.Wired) (scope : EntryId)
    (name description : String) (builtin : Bool) :
    ({ s with table := ((Table.define scope name f description builtin).run s.table).2 } :
      Session).Wired := by
  refine ⟨h.sound.define scope name f description builtin, ?_⟩
  refine h.functions.step h.sound
    (Table.step_define h.sound scope name f description builtin) ?_
  rintro e g hnew hg
  obtain rfl := Option.some.inj hnew
  obtain rfl : f = g := Option.some.inj hg
  exact hf

/-! ## Calls -/

/-- The call met no object of another type, and it leaves wired functions only. -/
structure Meets (r : CallOutcome) : Prop where
  receivers : ∀ m, r.1 ≠ .error (.fault (.wrongReceiver m))
  wired : r.2.Wired

theorem meets_runBody {call : EntryId → List EntryId → Session → CallOutcome}
    (hcall : ∀ id args s, s.Wired → Meets (call id args s)) :
    ∀ body : Body, body.Wired → ∀ s : Session, s.Wired → Meets (runBody call body s)
  | .done outcome, _, s, hs => ⟨fun m => by cases outcome <;> simp [runBody, Attempt.ofError], hs⟩
  | .ask r next, hb, s, hs => by
    cases hb with
    | ask _ hnext =>
      unfold runBody
      cases hr : r.answer s.table s.store with
      | error x =>
        obtain ⟨id, _, _, rfl⟩ := Request.stale_of_fault hs.sound hr
        exact ⟨fun m => by simp, hs⟩
      | ok answer =>
        obtain ⟨reply, t, st⟩ := answer
        exact meets_runBody hcall (next reply) (hnext reply) _ (hs.answered hr)
  | .invoke f args next, hb, s, hs => by
    cases hb with
    | invoke _ _ hnext =>
      unfold runBody
      have hmeets := hcall f args s hs
      rcases hr : call f args s with ⟨outcome, s'⟩
      rw [hr] at hmeets
      cases outcome with
      | ok id => exact meets_runBody hcall (next (.ok id)) (hnext _) s' hmeets.wired
      | error x =>
        cases x with
        | error e => exact meets_runBody hcall (next (.error e)) (hnext _) s' hmeets.wired
        | fault y => exact ⟨fun m hm => hmeets.receivers m (by simpa using hm), hmeets.wired⟩
  | .define scope name f description builtin next, hb, s, hs => by
    cases hb with
    | define _ _ _ _ hf hnext =>
      unfold runBody
      have hdefined := hs.defined hf scope name description builtin
      have hfaults := hs.sound.define_faultsAt scope name f description builtin
      rcases hr : (Table.define scope name f description builtin).run s.table with ⟨outcome, t⟩
      rw [hr] at hdefined hfaults
      cases outcome with
      | ok id => exact meets_runBody hcall (next (.ok id)) (hnext _) _ hdefined
      | error x =>
        cases x with
        | error e => exact meets_runBody hcall (next (.error e)) (hnext _) _ hdefined
        | fault y =>
          obtain rfl := hfaults y rfl
          exact ⟨fun m => by simp, hdefined⟩
  | .inspect next, hb, s, hs => by
    cases hb with
    | inspect hnext =>
      unfold runBody
      exact meets_runBody hcall (next s.store) (hnext _) s hs
  | .update change next, hb, s, hs => by
    cases hb with
    | update _ hnext =>
      unfold runBody
      exact meets_runBody hcall next hnext _ ⟨hs.sound, hs.functions⟩

/-- A call of a member on an object of its type runs its body, or is refused because the object is
in use. -/
theorem withReceiver_of_tag {r : Receiver} (h : r.object.tag = r.tag)
    (body : Session → CallOutcome) (s : Session) :
    withReceiver (some r) body s =
      if r.object.id ∈ s.inUse then (.error (.error (.reentrant r.member)), s)
      else ((body { s with inUse := r.object.id :: s.inUse }).1,
        { (body { s with inUse := r.object.id :: s.inUse }).2 with
          inUse := (body { s with inUse := r.object.id :: s.inUse }).2.inUse.erase
            r.object.id }) := by
  unfold withReceiver
  simp only [h, ne_eq, not_true_eq_false, if_false]

theorem meets_apply {call : EntryId → List EntryId → Session → CallOutcome}
    (hcall : ∀ id args s, s.Wired → Meets (call id args s)) {f : Function} (hf : f.Wired)
    (args : List EntryId) (hs : s.Wired) : Meets (apply call f args s) := by
  cases hf with
  | @mk arity receiver body tag bodies =>
    show Meets (withReceiver receiver (runBody call (body args)) s)
    cases receiver with
    | none => exact meets_runBody hcall _ (bodies args) s hs
    | some r =>
      rw [withReceiver_of_tag (tag r rfl)]
      split
      · exact ⟨fun m => by simp, hs⟩
      · have hmeets := meets_runBody hcall _ (bodies args)
          { s with inUse := r.object.id :: s.inUse } ⟨hs.sound, hs.functions⟩
        exact ⟨hmeets.receivers, hmeets.wired.sound, hmeets.wired.functions⟩

theorem meets_reported {r : CallOutcome} (h : Meets r) : Meets (reported r) := by
  obtain ⟨outcome, s⟩ := r
  cases outcome with
  | ok id => exact h
  | error x =>
    cases x with
    | error e => exact ⟨fun m => by simp [reported], h.wired.sound, h.wired.functions⟩
    | fault y => exact h

/-- However deep calls are nested, none meets an object of another type. -/
theorem meets_invokeWithin (depth : Nat) (id : EntryId) (args : List EntryId) {s : Session}
    (hs : s.Wired) : Meets (invokeWithin depth id args s) := by
  induction depth generalizing id args s with
  | zero => exact ⟨fun m => by simp [invokeWithin], hs⟩
  | succ depth ih =>
    cases live : s.table.get? id with
    | none =>
      unfold invokeWithin
      rw [Table.entry_eq_error live]
      exact ⟨fun m => by simp, hs⟩
    | some e =>
      unfold invokeWithin
      rw [Table.entry_eq_ok.mpr live]
      refine meets_reported ?_
      cases hf : e.function? with
      | none => exact ⟨fun m => by simp, hs⟩
      | some f =>
        exact meets_apply (fun id args s hs => ih id args hs) (hs.functions id e f live hf) args hs

end Session

/-! ## Steps of a host -/

/-- What the operation registers or calls by itself is wired. -/
def Operation.Wired : Operation → Prop
  | .define _ _ f _ _ => f.Wired
  | .callMember m o _ => (m.onObject o).Wired
  | .ask _ | .copyLive _ _ | .invoke _ _ | .newObject _ | .change _ | .setChannel _ => True

/-- The set-up and the members of the type register wired functions only. -/
structure TypeInfo.Wired (info : TypeInfo) : Prop where
  setup : ∀ o, o.tag = info.type.tag → ∀ step ∈ info.type.setup o, ∀ f builtin,
    step.registration = .function f builtin → f.Wired
  tags : ∀ m ∈ info.members, m.1.tag = info.type.tag
  members : ∀ m ∈ info.members, m.1.Wired

namespace Action

variable {ε δ α β : Type}

/-- However the step ends, it leaves wired functions only. -/
def KeepsWired (m : Action ε α) : Prop := ∀ s, s.Wired → (m.run s).2.Wired

theorem KeepsWired.of_same {m : Action ε α} (h : ∀ s, (m.run s).2.table = s.table) :
    m.KeepsWired := by
  intro s hs
  constructor
  · rw [h]
    exact hs.sound
  · rw [h]
    exact hs.functions

theorem KeepsWired.pure (a : α) : (Pure.pure a : Action ε α).KeepsWired := .of_same fun _ => rfl

theorem KeepsWired.bind {m : Action ε α} {f : α → Action ε β} (hm : m.KeepsWired)
    (hf : ∀ a, (f a).KeepsWired) : (m >>= f).KeepsWired := by
  intro s hs
  have hkept := hm s hs
  rcases hr : m.run s with ⟨outcome, s'⟩
  rw [hr] at hkept
  cases outcome with
  | ok a =>
    rw [bind_ok f hr]
    exact hf a s' hkept
  | error x =>
    rw [bind_error f hr]
    exact hkept

theorem KeepsWired.discard {m : Action ε α} (hm : m.KeepsWired) :
    (discard m : Action ε Unit).KeepsWired :=
  .bind (f := fun _ => Pure.pure ()) hm fun _ => .pure ()

end Action

namespace Session

variable {ε : Type}

theorem keepsWired_ask (r : Request) : (ask r : Action ε r.Reply).KeepsWired := by
  intro s hs
  rw [run_ask]
  cases hr : r.answer s.table s.store with
  | error x => exact hs
  | ok answer => exact hs.answered hr

theorem keepsWired_define {f : Function} (hf : f.Wired) (scope : EntryId)
    (name description : String) (builtin : Bool) :
    (define scope name f description builtin).KeepsWired :=
  fun _ hs => hs.defined hf scope name description builtin

theorem keepsWired_register (scope : EntryId) (name description : String) (content : Content) :
    (register scope name description content).KeepsWired :=
  (keepsWired_ask _).bind fun _ => .of_same fun _ => rfl

theorem keepsWired_editAll (id : EntryId) (changes : List HeaderEdit) :
    (editAll id changes : Action ε Unit).KeepsWired := by
  induction changes with
  | nil => exact .pure ()
  | cons change changes ih => exact (keepsWired_ask _).bind fun _ => ih

theorem keepsWired_registerStep (scope : EntryId) {step : SetupStep}
    (h : ∀ f builtin, step.registration = .function f builtin → f.Wired) :
    (registerStep scope step).KeepsWired := by
  unfold registerStep
  cases hr : step.registration with
  | content content =>
    exact (keepsWired_register _ _ _ content).bind fun id =>
      (keepsWired_editAll id step.changes).bind fun _ => .pure id
  | function f builtin =>
    exact (keepsWired_define (h f builtin hr) _ _ _ builtin).bind fun id =>
      (keepsWired_editAll id step.changes).bind fun _ => .pure id

theorem keepsWired_setUp (scope : EntryId) {steps : List SetupStep}
    (h : ∀ step ∈ steps, ∀ f builtin, step.registration = .function f builtin → f.Wired)
    (done : List EntryId) : (setUp scope done steps).KeepsWired := by
  induction steps generalizing done with
  | nil => exact .pure ()
  | cons step steps ih =>
    obtain ⟨hstep, hsteps⟩ := List.forall_mem_cons.mp h
    exact (keepsWired_registerStep _ hstep).bind fun id => ih hsteps (done ++ [id])

theorem keepsWired_defineMembers (scope : EntryId) (o : Object)
    {members : List (Member × String)} (h : ∀ m ∈ members, o.tag = m.1.tag ∧ m.1.Wired) :
    (defineMembers scope o members).KeepsWired := by
  induction members with
  | nil => exact .pure ()
  | cons m members ih =>
    obtain ⟨⟨htag, hm⟩, hmembers⟩ := List.forall_mem_cons.mp h
    exact (keepsWired_define (hm.onObject htag) _ _ _ true).discard.bind fun _ => ih hmembers

theorem keepsWired_instantiate {c : Catalogue} {type : String}
    (h : ∀ info, c.find? type = some info → info.Wired) (parent : EntryId)
    (name description : String) :
    (instantiate c type parent name description).KeepsWired := by
  unfold instantiate
  cases hc : c.find? type with
  | none => exact .of_same fun _ => rfl
  | some info =>
    have hw := h info hc
    intro s hs
    -- the object is of the type, and nothing is registered before it is there
    have hobject : (newObject info.type : Action BindError Object).run s =
        (.ok ⟨⟨s.objectCount⟩, info.type.tag, (s.store.addAll info.type.initial).1⟩,
          { s with store := (s.store.addAll info.type.initial).2,
                   objectCount := s.objectCount + 1 }) := rfl
    simp only
    rw [Action.bind_ok _ hobject]
    have hscope : ((register parent name description (.scope info.name)).mapError
        BindError.tree).KeepsWired := keepsWired_register _ _ _ _
    refine hscope.bind (fun scope => ?_) _ ⟨hs.sound, hs.functions⟩
    have hpopulate : (do
        setUp scope [] (info.type.setup
          ⟨⟨s.objectCount⟩, info.type.tag, (s.store.addAll info.type.initial).1⟩)
        defineMembers scope
          ⟨⟨s.objectCount⟩, info.type.tag, (s.store.addAll info.type.initial).1⟩
          info.members : Action TreeError Unit).KeepsWired :=
      (keepsWired_setUp scope (hw.setup _ rfl) []).bind fun _ =>
        keepsWired_defineMembers scope _ fun m hm => ⟨(hw.tags m hm).symm, hw.members m hm⟩
    refine .bind (m := Action.settle _) hpopulate fun outcome => ?_
    cases outcome with
    | ok _ => exact .pure _
    | error e => exact (keepsWired_ask _).discard.bind fun _ => .of_same fun _ => rfl

end Session

theorem Operation.wired_run {op : Operation} (hop : op.Wired) {s : Session} (hs : s.Wired) :
    (op.run s).Wired := by
  cases op with
  | ask r => exact Session.keepsWired_ask (ε := Empty) r s hs
  | define scope name f description builtin => exact hs.defined hop scope name description builtin
  | copyLive target source =>
    refine ⟨Table.kept_sound.run _ s hs.sound, ?_⟩
    rcases Session.copyLive_cases target source s with hsame | ⟨done, t, st, hcopy, hrun⟩
    · rw [hsame]
      exact hs.functions
    · rw [hrun]
      have hstep : s.table.Step [target, source] none t := Table.step_copyLive hcopy
      exact hs.functions.step hs.sound hstep (by simp)
  | invoke f args => exact (Session.meets_invokeWithin _ f args hs).wired
  | callMember m o args =>
    exact (Session.meets_apply (fun id args s hs => Session.meets_invokeWithin _ id args hs) hop
      args hs).wired
  | newObject type => exact ⟨hs.sound, hs.functions⟩
  | change f => exact ⟨hs.sound, hs.functions⟩
  | setChannel c => exact ⟨hs.sound, hs.functions⟩

end Settings

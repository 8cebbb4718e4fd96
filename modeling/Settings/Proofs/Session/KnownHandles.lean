import Settings.Proofs.Session.History
import Settings.Proofs.Session.Receivers
import Settings.Proofs.Session.ScriptCalls

/-!
# Handles that are known

A handle cannot be made up: whoever has one was given it by the table, at first or at second hand.
`Function.KeepsTo known` says so of a function: it uses the handles that are known when it is
registered, those that it is called with, and those that it gets in reply, and no others. The same
is said of an operation of a host.

A handle that was given out has a slot, and slots are never given up. So in a run that keeps to
handles that were given out before, all handles that are given out have slots in the end
(`Session.closed_after`). What is asked of the table brings in handles of live entries alone
(`Request.hasSlot_of_gives`); all else is passed on from hand to hand.
-/

set_option autoImplicit false

namespace Settings

/-- There is a slot for the handle, be it empty or not. -/
def Table.HasSlot (t : Table) (id : EntryId) : Prop := id.index < t.slots.size

/-! ## Requests -/

namespace Request

/-- All handles in a request. -/
def uses : Request → List EntryId
  | .contains id => [id]
  | r => r.handles

/-- All handles in the reply to a request. -/
def gives : (r : Request) → r.Reply → List EntryId
  | .find .., found | .lookup .., found | .lookupPath .., found => Option.toList found
  | .makeTemp _, id | .clone _, id => [id]
  | .convert .entry _, .ok id => [id]
  | .register .., .ok id => [id]
  | _, _ => []

end Request

namespace Table

variable {t t' : Table} {s s' : Store} {id : EntryId}

theorem HasSlot.mono (h : t.HasSlot id) (grown : t.slots.size ≤ t'.slots.size) : t'.HasSlot id :=
  Nat.lt_of_lt_of_le h grown

theorem hasSlot_of_contains (h : t.contains id = true) : t.HasSlot id := by
  obtain ⟨e, live⟩ := contains_iff.mp h
  exact index_lt_of_get? live

theorem Owned.contains (h : t.Owned id) : t.contains id = true := by
  obtain ⟨e, _, live, _⟩ := h
  exact contains_iff.mpr ⟨e, live⟩

/-- What a name leads to is an entry that is there, or the place where the lookup started. -/
theorem Sound.of_lookup? (h : t.Sound) {start : EntryId} {name : String} {enclosing : Bool}
    (hfound : t.lookup? start name enclosing = .ok (some id)) :
    id = start ∨ t.contains id = true := by
  by_cases hname : name = ""
  · rw [lookup?, if_pos hname] at hfound
    exact Or.inl (by simpa using hfound.symm)
  cases live : t.get? start with
  | none =>
    rw [lookup?_of_stale live, if_neg hname] at hfound
    exact absurd hfound (by simp)
  | some e =>
    cases enclosing with
    | true =>
      obtain ⟨found, hrun, howned⟩ := h.exists_lookup? live name
      obtain rfl : found = some id := Except.ok.inj (hrun.symm.trans hfound)
      exact (howned id rfl).imp And.left Owned.contains
    | false =>
      rw [lookup?, if_neg hname] at hfound
      exact Or.inr (h.owned_of_find? hfound).contains

theorem Sound.of_lookupPath? (h : t.Sound) {start : EntryId} {path : String}
    (hfound : t.lookupPath? start path = .ok (some id)) : id = start ∨ t.contains id = true := by
  unfold lookupPath? at hfound
  by_cases hpath : path = ""
  · rw [if_pos hpath] at hfound
    exact Or.inl (by simpa using hfound.symm)
  rw [if_neg hpath] at hfound
  cases hnames : pathNames path with
  | nil => simp [hnames] at hfound
  | cons first names =>
    simp only [hnames] at hfound
    cases hfirst : t.lookup? start first true with
    | error x => simp [hfirst, bind, Except.bind] at hfound
    | ok found =>
      cases found with
      | none => simp [hfirst, bind, Except.bind, pure, Except.pure] at hfound
      | some c =>
        simp only [hfirst, bind, Except.bind] at hfound
        by_cases hrest : names = []
        · rw [hrest, descend?] at hfound
          obtain rfl : c = id := by simpa using hfound
          exact h.of_lookup? hfirst
        · exact Or.inr (h.owned_of_descend? hrest hfound).contains

end Table

/-- What a reply gives was in the request, or is the handle of an entry that is there now. -/
theorem Request.hasSlot_of_gives {t t' : Table} {s s' : Store} (h : t.Sound) {r : Request}
    {reply : r.Reply} (hr : r.answer t s = .ok (reply, t', s')) {id : EntryId}
    (hid : id ∈ r.gives reply) : id ∈ r.uses ∨ t'.contains id = true := by
  cases r with
  | find scope name =>
    obtain ⟨hfound, rfl, _⟩ := map_eq_ok hr
    obtain rfl : reply = some id := Option.mem_toList.mp hid
    exact Or.inr (h.owned_of_find? hfound).contains
  | lookup start name enclosing =>
    obtain ⟨hfound, rfl, _⟩ := map_eq_ok hr
    obtain rfl : reply = some id := Option.mem_toList.mp hid
    exact (h.of_lookup? hfound).imp_left fun heq => by simp [uses, handles, heq]
  | lookupPath start path =>
    obtain ⟨hfound, rfl, _⟩ := map_eq_ok hr
    obtain rfl : reply = some id := Option.mem_toList.mp hid
    exact (h.of_lookupPath? hfound).imp_left fun heq => by simp [uses, handles, heq]
  | makeTemp value =>
    obtain ⟨rfl, rfl, -⟩ := makeTemp_eq_ok hr
    obtain rfl := List.mem_singleton.mp hid
    exact Or.inr (by simp [Table.contains, h.slots.get?_alloc])
  | clone source =>
    obtain ⟨f, x, htree, rfl, hc⟩ := clone_eq_ok h hr
    obtain rfl := List.mem_singleton.mp hid
    have held := hc.held.live
    rw [Tree.id_copied, (Table.tree_eq_ok_iff.mp htree).2] at held
    exact Or.inr (Table.contains_iff.mpr ⟨_, held⟩)
  | convert p source =>
    cases p with
    | value type => exact absurd hid (by simp [gives])
    | entry =>
      have hreply : (.ok source : Except EntryError EntryId) = reply :=
        congrArg Prod.fst (Except.ok.inj hr)
      subst hreply
      obtain rfl := List.mem_singleton.mp hid
      exact Or.inl (by simp [uses, handles])
  | register scope name description content =>
    rcases register_eq_ok h.slots hr with ⟨⟨x, rfl⟩, _⟩ | ⟨new, rfl, _, hi⟩
    · exact absurd hid (by simp [gives])
    · obtain rfl := List.mem_singleton.mp hid
      exact Or.inr (hi.contains h.slots)
  | _ => exact absurd hid (by simp [gives])

/-! ## Functions and operations -/

mutual

/-- The body uses known handles, those that it gets in reply, and no others. -/
inductive Body.KeepsTo : (EntryId → Prop) → Body → Prop
  | done {known : EntryId → Prop} {outcome : Except CallError EntryId}
      (result : ∀ id, outcome = .ok id → known id) : Body.KeepsTo known (.done outcome)
  | ask {known : EntryId → Prop} {r : Request} {next : r.Reply → Body}
      (uses : ∀ id ∈ r.uses, known id)
      (rest : ∀ reply, Body.KeepsTo (fun id => known id ∨ id ∈ r.gives reply) (next reply)) :
      Body.KeepsTo known (.ask r next)
  | invoke {known : EntryId → Prop} {f : EntryId} {args : List EntryId}
      {next : Except CallError EntryId → Body} (uses : ∀ id ∈ f :: args, known id)
      (rest : ∀ outcome, Body.KeepsTo (fun id => known id ∨ outcome = .ok id) (next outcome)) :
      Body.KeepsTo known (.invoke f args next)
  | define {known : EntryId → Prop} {scope : EntryId} {name : String} {f : Function}
      {description : String} {builtin : Bool} {next : Except TreeError EntryId → Body}
      (uses : known scope) (function : Function.KeepsTo known f)
      (rest : ∀ outcome, Body.KeepsTo (fun id => known id ∨ outcome = .ok id) (next outcome)) :
      Body.KeepsTo known (.define scope name f description builtin next)
  | inspect {known : EntryId → Prop} {next : Store → Body}
      (rest : ∀ s, Body.KeepsTo known (next s)) : Body.KeepsTo known (.inspect next)
  | update {known : EntryId → Prop} {change : Store → Store} {next : Body}
      (rest : Body.KeepsTo known next) : Body.KeepsTo known (.update change next)

/-- The function uses known handles, those that it is called with or gets in reply, and no
others. -/
inductive Function.KeepsTo : (EntryId → Prop) → Function → Prop
  | mk {known : EntryId → Prop} {arity : Arity} {receiver : Option Receiver}
      {call : List EntryId → Body}
      (bodies : ∀ args, Body.KeepsTo (fun id => known id ∨ id ∈ args) (call args)) :
      Function.KeepsTo known (.mk arity receiver call)

end

mutual

theorem Body.KeepsTo.mono {known known' : EntryId → Prop} : ∀ {body : Body},
    body.KeepsTo known → (∀ id, known id → known' id) → body.KeepsTo known'
  | .done _, .done result, h => .done fun id hid => h id (result id hid)
  | .ask _ _, .ask uses rest, h =>
    .ask (fun id hid => h id (uses id hid)) fun reply =>
      (rest reply).mono fun id => Or.imp_left (h id)
  | .invoke _ _ _, .invoke uses rest, h =>
    .invoke (fun id hid => h id (uses id hid)) fun outcome =>
      (rest outcome).mono fun id => Or.imp_left (h id)
  | .define .., .define uses function rest, h =>
    .define (h _ uses) (function.mono h) fun outcome =>
      (rest outcome).mono fun id => Or.imp_left (h id)
  | .inspect _, .inspect rest, h => .inspect fun s => (rest s).mono h
  | .update _ _, .update rest, h => .update (rest.mono h)

theorem Function.KeepsTo.mono {known known' : EntryId → Prop} : ∀ {f : Function},
    f.KeepsTo known → (∀ id, known id → known' id) → f.KeepsTo known'
  | .mk _ _ _, .mk bodies, h =>
    .mk fun args => (bodies args).mono fun id => Or.imp_left (h id)

end

/-- What the operation uses is known, and what it registers or calls by hand keeps to what is. -/
def Operation.KeepsTo (known : EntryId → Prop) : Operation → Prop
  | .ask r => ∀ id ∈ r.uses, known id
  | .define scope _ f _ _ => known scope ∧ f.KeepsTo known
  | .copyLive target source => known target ∧ known source
  | .invoke f args => known f ∧ ∀ a ∈ args, known a
  | .callMember m o args => (m.onObject o).KeepsTo known ∧ ∀ a ∈ args, known a
  | .newObject _ | .change _ | .setChannel _ => True

theorem Operation.KeepsTo.mono {known known' : EntryId → Prop} {op : Operation}
    (h : op.KeepsTo known) (hmono : ∀ id, known id → known' id) : op.KeepsTo known' := by
  cases op with
  | ask r => exact fun id hid => hmono id (h id hid)
  | define => exact ⟨hmono _ h.1, h.2.mono hmono⟩
  | copyLive => exact ⟨hmono _ h.1, hmono _ h.2⟩
  | invoke => exact ⟨hmono _ h.1, fun a ha => hmono a (h.2 a ha)⟩
  | callMember => exact ⟨h.1.mono hmono, fun a ha => hmono a (h.2 a ha)⟩
  | newObject | change | setChannel => exact trivial

/-- The handle that there is if all went well. -/
def Attempt.given {ε : Type} : Attempt ε EntryId → List EntryId
  | .ok id => [id]
  | .error _ => []

/-- The handles that the operation returns. -/
def Operation.returns : Operation → Session → List EntryId
  | .ask r, s =>
      match r.answer s.table s.store with
      | .ok (reply, _, _) => r.gives reply
      | .error _ => []
  | .define scope name f description builtin, s =>
      ((Session.define scope name f description builtin).run s).1.given
  | .invoke f args, s => ((Session.invoke f args).run s).1.given
  | .callMember m o args, s => ((Session.callMember m o args).run s).1.given
  | .copyLive _ _, _ | .newObject _, _ | .change _, _ | .setChannel _, _ => []

theorem Attempt.mem_given {ε : Type} {r : Attempt ε EntryId} {id : EntryId} :
    id ∈ r.given ↔ r = .ok id := by
  cases r <;> simp [given, eq_comm]

theorem Function.KeepsTo.body {known : EntryId → Prop} {f : Function} (h : f.KeepsTo known)
    (args : List EntryId) : (f.call args).KeepsTo fun id => known id ∨ id ∈ args := by
  cases h with
  | mk bodies => exact bodies args

/-! ### Functions with typed parameters -/

theorem Body.keepsTo_finish {known : EntryId → Prop} {outcome : Except CallError Returned}
    (h : ∀ id, outcome = .ok (.entry id) → known id) : (Body.finish outcome).KeepsTo known := by
  cases outcome with
  | error e => exact .done (by simp)
  | ok returned =>
    cases returned with
    | scalar v =>
      refine .ask (by simp [Request.uses, Request.handles]) fun id => .done ?_
      rintro _ hid
      obtain rfl := Except.ok.inj hid
      exact Or.inr (List.mem_singleton_self _)
    | entry id =>
      refine .done ?_
      rintro _ hid
      obtain rfl := Except.ok.inj hid
      exact h id rfl

/-- What comes after the arguments may keep to their values and to all that is known by then. -/
theorem Body.keepsTo_convertArgs {known : EntryId → Prop} (name : String) {params : List Param}
    (position : Nat) {args : List EntryId} {next : Args params → Body}
    (hargs : ∀ a ∈ args, known a)
    (hnext : ∀ (known' : EntryId → Prop) vs, (∀ id, known id → known' id) →
      (∀ id ∈ Args.handles params vs, known' id) → (next vs).KeepsTo known') :
    (Body.convertArgs name params position args next).KeepsTo known := by
  induction params generalizing position args known with
  | nil => exact hnext known () (fun _ => id) (by simp [Args.handles])
  | cons p params ih =>
    cases args with
    | nil => exact .done (by simp)
    | cons id args =>
      obtain ⟨hid, hargs⟩ := List.forall_mem_cons.mp hargs
      refine .ask (by simpa [Request.uses, Request.handles] using hid) fun reply => ?_
      cases reply with
      | error e => exact .done (by simp)
      | ok v =>
        refine ih (position + 1) (fun a ha => Or.inl (hargs a ha)) fun known' vs hmono hvs => ?_
        refine hnext known' (v, vs) (fun id hid => hmono id (Or.inl hid)) ?_
        cases p with
        | value type => exact hvs
        | entry =>
          exact List.forall_mem_cons.mpr ⟨hmono v (Or.inr (List.mem_singleton_self v)), hvs⟩

/-- Functions on values that pass handles on keep to whatever is known. -/
theorem Function.PassesOn.keepsTo {g : Function} (h : g.PassesOn) (known : EntryId → Prop) :
    g.KeepsTo known := by
  obtain ⟨name, ps, f, hosts, hpass⟩ := h
  have hbody (args : List EntryId) :
      (Body.typed name ps f args).KeepsTo fun id => known id ∨ id ∈ args := by
    unfold Body.typed
    split
    · refine Body.keepsTo_convertArgs name 1 (fun a => Or.inr) fun known' vs _ hvs => ?_
      refine .inspect fun s => .update (Body.keepsTo_finish fun id hid => ?_)
      exact hvs id (hpass vs s id _ (Prod.ext hid rfl))
    · exact .done (by simp)
  cases g with
  | mk arity receiver call =>
    refine .mk fun args => ?_
    have hcall : call args = Body.typed name ps f args := hosts.call_eq args
    rw [hcall]
    exact hbody args

/-! ## Sessions -/

namespace Table

variable {t t' : Table} {s s' : Store} {ids : List EntryId} {new : Option Entry}

/-- The table is sound, and its functions keep to handles that have slots in it. -/
structure Closed (t : Table) : Prop where
  sound : t.Sound
  functions : ∀ id e f, t.get? id = some e → e.function? = some f → f.KeepsTo t.HasSlot

theorem Closed.step (h : t.Closed) (hs : t.Step ids new t') (sound : t'.Sound)
    (grown : t.slots.size ≤ t'.slots.size)
    (hnew : ∀ e f, new = some e → e.function? = some f → f.KeepsTo t.HasSlot) : t'.Closed := by
  refine ⟨sound, fun y e' f live' hf => ?_⟩
  have hkeeps : f.KeepsTo t.HasSlot := by
    rcases hs.function_from h.sound live' hf with ⟨z, e, live, hold⟩ | ⟨e, hbrought, hfun⟩
    · exact h.functions z e f live hold
    · exact hnew e f hbrought hfun
  exact hkeeps.mono fun id hid => hid.mono grown

theorem Closed.answered (h : t.Closed) {r : Request} {reply : r.Reply}
    (hr : r.answer t s = .ok (reply, t', s')) :
    t'.Closed ∧ t.slots.size ≤ t'.slots.size ∧
      ((∀ a ∈ r.uses, t.HasSlot a) → ∀ id ∈ r.gives reply, t'.HasSlot id) := by
  have grown := (Request.leads_moments h.sound hr).slots_le
  refine ⟨h.step (Request.step_answer h.sound hr) (Request.sound_answer h.sound hr) grown ?_,
    grown, ?_⟩
  · intro e f hnew hf
    rw [Request.function?_registers hnew] at hf
    exact absurd hf (by simp)
  · intro uses id hid
    rcases Request.hasSlot_of_gives h.sound hr hid with hused | hlive
    · exact (uses id hused).mono grown
    · exact hasSlot_of_contains hlive

theorem Closed.defined (h : t.Closed) {f : Function} (hf : f.KeepsTo t.HasSlot) (scope : EntryId)
    (name description : String) (builtin : Bool) :
    ((define scope name f description builtin).run t).2.Closed ∧
      t.slots.size ≤ ((define scope name f description builtin).run t).2.slots.size ∧
      ∀ id, ((define scope name f description builtin).run t).1 = .ok id →
        ((define scope name f description builtin).run t).2.HasSlot id := by
  have grown := (tick_define h.sound.slots scope name f description builtin).grows.1
  refine ⟨h.step (step_define h.sound scope name f description builtin)
    (h.sound.define scope name f description builtin) grown ?_, grown, ?_⟩
  · rintro e g hnew hg
    obtain rfl := Option.some.inj hnew
    obtain rfl : f = g := Option.some.inj hg
    exact hf
  · intro id hid
    rcases hrun : (define scope name f description builtin).run t with ⟨outcome, u⟩
    rw [hrun] at hid
    obtain rfl : outcome = .ok id := hid
    have hi := (insert_atomic h.sound.slots scope _ builtin).of_ok hrun
    exact hasSlot_of_contains (Inserted.contains h.sound.slots hi)

end Table

namespace Session

/-- The functions that are left keep to handles that have slots, no slot is gone, and the result, if
there is one, has a slot. -/
structure EndsClosed (t : Table) (o : CallOutcome) : Prop where
  closed : o.2.table.Closed
  grown : t.slots.size ≤ o.2.table.slots.size
  result : ∀ id, o.1 = .ok id → o.2.table.HasSlot id

/-- Calls with handles that have slots end so. -/
def CallsEndClosed (call : EntryId → List EntryId → Session → CallOutcome) : Prop :=
  ∀ f args s, s.table.Closed → (∀ a ∈ args, s.table.HasSlot a) → EndsClosed s.table (call f args s)

variable {call : EntryId → List EntryId → Session → CallOutcome} {t : Table} {s : Session}

theorem EndsClosed.of_grown {o : CallOutcome} (h : EndsClosed s.table o)
    (grown : t.slots.size ≤ s.table.slots.size) : EndsClosed t o :=
  ⟨h.closed, grown.trans h.grown, h.result⟩

theorem EndsClosed.of_table {o : CallOutcome} (h : EndsClosed t o) {s' : Session}
    (same : s'.table = o.2.table) : EndsClosed t (o.1, s') :=
  ⟨same ▸ h.closed, same ▸ h.grown, same ▸ h.result⟩

theorem endsClosed_error (h : s.table.Closed) (x : Failure CallError) :
    EndsClosed s.table (.error x, s) := ⟨h, Nat.le_refl _, by simp⟩

theorem endsClosed_runBody (hcall : CallsEndClosed call) {body : Body} {known : EntryId → Prop}
    (hbody : body.KeepsTo known) (h : s.table.Closed)
    (hknown : ∀ id, known id → s.table.HasSlot id) :
    EndsClosed s.table (runBody call body s) := by
  fun_induction runBody call body s generalizing known with
  | case1 outcome s =>
    cases hbody with
    | done result =>
      refine ⟨h, Nat.le_refl _, fun id hid => hknown id (result id ?_)⟩
      cases outcome with
      | ok other => simpa [Attempt.ofError] using hid
      | error e => exact absurd hid (by simp [Attempt.ofError])
  | case2 r next s reply t st hr ih =>
    cases hbody with
    | ask uses rest =>
      obtain ⟨closed, grown, given⟩ := h.answered hr
      refine (ih (rest reply) closed ?_).of_grown grown
      rintro id (hid | hid)
      · exact (hknown id hid).mono grown
      · exact given (fun a ha => hknown a (uses a ha)) id hid
  | case3 r next s x hr => exact endsClosed_error h _
  | case4 f args next s result s' hr ih | case5 f args next s e s' hr ih =>
    cases hbody with
    | invoke uses rest =>
      have hends := hcall f args s h fun a ha => hknown a (uses a (List.mem_cons_of_mem f ha))
      rw [hr] at hends
      refine (ih (rest _) hends.closed ?_).of_grown hends.grown
      rintro id (hid | hid)
      · exact (hknown id hid).mono hends.grown
      · exact hends.result id (congrArg Attempt.ofError hid)
  | case6 f args next s x s' hr =>
    cases hbody with
    | invoke uses rest =>
      have hends := hcall f args s h fun a ha => hknown a (uses a (List.mem_cons_of_mem f ha))
      rw [hr] at hends
      exact ⟨hends.closed, hends.grown, by simp⟩
  | case7 scope name f description builtin next s t result hr ih
  | case8 scope name f description builtin next s t e hr ih =>
    cases hbody with
    | define uses function rest =>
      obtain ⟨closed, grown, defined⟩ :=
        h.defined (function.mono hknown) scope name description builtin
      rw [hr] at closed grown defined
      refine (ih (rest _) closed ?_).of_grown grown
      rintro id (hid | hid)
      · exact (hknown id hid).mono grown
      · exact defined id (congrArg Attempt.ofError hid)
  | case9 scope name f description builtin next s t x hr =>
    cases hbody with
    | define uses function rest =>
      obtain ⟨closed, grown, _⟩ := h.defined (function.mono hknown) scope name description builtin
      rw [hr] at closed grown
      exact ⟨closed, grown, by simp⟩
  | case10 next s ih =>
    cases hbody with
    | inspect rest => exact ih (rest s.store) h hknown
  | case11 change next s ih =>
    cases hbody with
    | update rest => exact ih rest h hknown

theorem endsClosed_apply (hcall : CallsEndClosed call) {g : Function}
    (hg : g.KeepsTo s.table.HasSlot) {args : List EntryId} (h : s.table.Closed)
    (hargs : ∀ a ∈ args, s.table.HasSlot a) : EndsClosed s.table (apply call g args s) := by
  cases he : g.enters s with
  | true =>
    rw [apply_of_enters he]
    have hends := endsClosed_runBody hcall (s := s.holding g.receiver) (hg.body args)
      (by rwa [table_holding]) (by
        rw [table_holding]
        rintro id (hid | hid)
        · exact hid
        · exact hargs id hid)
    rw [table_holding] at hends
    exact hends.of_table (table_releasing _ _)
  | false =>
    obtain ⟨r, hr, hused | ⟨_, hfault⟩⟩ := apply_of_not_enters he call args
    · rw [apply_of_inUse hr hused]
      exact endsClosed_error h _
    · rw [hfault]
      exact endsClosed_error h _

theorem EndsClosed.reported {o : CallOutcome} (h : EndsClosed t o) : EndsClosed t (reported o) := by
  obtain ⟨outcome, s⟩ := o
  cases outcome with
  | ok id => exact h
  | error x =>
    cases x with
    | error e => exact h.of_table rfl
    | fault y => exact h

theorem callsEndClosed (depth : Nat) : CallsEndClosed (invokeWithin depth) := by
  intro f args s h hargs
  induction depth generalizing f args s with
  | zero => exact endsClosed_error h _
  | succ depth ih =>
    cases live : s.table.get? f with
    | none =>
      unfold invokeWithin
      rw [Table.entry_eq_error live]
      exact endsClosed_error h _
    | some e =>
      cases hf : e.function? with
      | none =>
        unfold invokeWithin
        rw [Table.entry_eq_ok.mpr live]
        simp only [hf]
        exact (endsClosed_error h _).reported
      | some g =>
        rw [invokeWithin_succ live hf]
        exact (endsClosed_apply ih (h.functions f e g live hf) h hargs).reported

end Session

/-! ## Runs -/

theorem Table.closed_withRoot (name description : String) : (withRoot name description).Closed := by
  refine ⟨sound_withRoot name description, fun id e f live hf => ?_⟩
  rw [function?_withRoot live] at hf
  exact absurd hf (by simp)

/-- An operation with handles that have slots leaves such functions, and what it returns has a
slot. -/
theorem Operation.closed_run {op : Operation} {s : Session} (h : s.table.Closed)
    (hop : op.KeepsTo s.table.HasSlot) :
    (op.run s).table.Closed ∧ ∀ id ∈ op.returns s, (op.run s).table.HasSlot id := by
  have ends {o : Session.CallOutcome} (ho : Session.EndsClosed s.table o) :
      o.2.table.Closed ∧ ∀ id ∈ o.1.given, o.2.table.HasSlot id :=
    ⟨ho.closed, fun id hid => ho.result id (Attempt.mem_given.mp hid)⟩
  cases op with
  | ask r =>
    show ((Session.ask r : Action Empty r.Reply).run s).2.table.Closed ∧
      ∀ id ∈ (Operation.ask r).returns s,
        ((Session.ask r : Action Empty r.Reply).run s).2.table.HasSlot id
    rw [Session.run_ask]
    simp only [returns]
    cases hr : r.answer s.table s.store with
    | error x => exact ⟨h, by simp⟩
    | ok answer =>
      obtain ⟨closed, _, given⟩ := h.answered hr
      exact ⟨closed, given hop⟩
  | define scope name f description builtin =>
    obtain ⟨closed, _, defined⟩ := h.defined hop.2 scope name description builtin
    exact ⟨closed, fun id hid => defined id (Attempt.mem_given.mp hid)⟩
  | copyLive target source =>
    refine ⟨?_, by simp [returns]⟩
    rcases Session.copyLive_cases target source s with hsame | ⟨done, t, st, hcopy, hrun⟩
    · rw [hsame]
      exact h
    · have sound := Table.kept_sound.run (.copyLive target source) s h.sound
      rw [hrun] at sound ⊢
      have same := (Table.writes_copyLive (P := fun _ => True) trivial hcopy).sameSlots
      have hstep : s.table.Step [target, source] none t := Table.step_copyLive hcopy
      exact h.step hstep sound same.2.ge (by simp)
  | invoke f args => exact ends (Session.callsEndClosed _ f args s h hop.2)
  | callMember m o args =>
    exact ends (Session.endsClosed_apply (Session.callsEndClosed _) hop.1 h hop.2)
  | newObject | change | setChannel => exact ⟨h, by simp [returns]⟩

namespace Session

/-- The handles that the operations of a run return. -/
def returned (s : Session) : List Operation → List EntryId
  | [] => []
  | op :: ops => op.returns s ++ (op.run s).returned ops

/-- Each operation keeps to handles of entries that were live at a moment of the run before it. -/
def KeepsToKnown (s : Session) (ops : List Operation) : Prop :=
  ∀ before op rest, ops = before ++ op :: rest →
    op.KeepsTo fun id => ∃ t ∈ s.moments before, t.contains id = true

theorem returned_concat (s : Session) (ops : List Operation) (op : Operation) :
    s.returned (ops ++ [op]) = s.returned ops ++ op.returns (s.after ops) := by
  induction ops generalizing s with
  | nil => exact List.append_nil _
  | cons first ops ih =>
    show first.returns s ++ (first.run s).returned (ops ++ [op]) = _
    rw [ih, ← List.append_assoc]
    rfl

/-- Handles that were in use at some moment have slots at the end. -/
theorem hasSlot_of_moment {s : Session} (h : s.table.Sound) {ops : List Operation} {id : EntryId}
    (hid : ∃ t ∈ s.moments ops, t.contains id = true) : (s.after ops).table.HasSlot id := by
  obtain ⟨t, ht, hlive⟩ := hid
  exact (Table.hasSlot_of_contains hlive).mono ((s.leads_moments ops h).slots_le_last ht)

theorem keepsToKnown_nil (s : Session) : s.KeepsToKnown [] := by
  intro before op rest heq
  exact absurd heq (by simp)

theorem KeepsToKnown.concat {s : Session} {ops : List Operation} {op : Operation}
    (h : s.KeepsToKnown ops)
    (hop : op.KeepsTo fun id => ∃ t ∈ s.moments ops, t.contains id = true) :
    s.KeepsToKnown (ops ++ [op]) := by
  intro before op' rest heq
  rcases List.eq_nil_or_concat rest with rfl | ⟨rest, last, rfl⟩
  · obtain ⟨rfl, hlast⟩ := List.append_inj' heq rfl
    obtain rfl : op = op' := by simpa using hlast
    exact hop
  · have happend : ops ++ [op] = (before ++ op' :: rest) ++ [last] := by simpa using heq
    exact h before op' rest (List.append_inj' happend rfl).1

/-- Where no handle is made up, all handles that are returned have slots. -/
theorem closed_after {s : Session} (h : s.table.Closed) {ops : List Operation}
    (hops : s.KeepsToKnown ops) : (s.after ops).table.Closed ∧
      ∀ id ∈ s.returned ops, (s.after ops).table.HasSlot id := by
  -- from the end, since what an operation may use is told by those before it
  induction ops using List.reverseRecOn with
  | nil => exact ⟨h, by simp [returned]⟩
  | append_singleton ops op ih =>
    obtain ⟨closed, slots⟩ := ih fun before op' rest heq =>
      hops before op' (rest ++ [op]) (by rw [heq, List.append_assoc, List.cons_append])
    have hop := (hops ops op [] rfl).mono fun id => hasSlot_of_moment h.sound
    obtain ⟨closed', slots'⟩ := op.closed_run closed hop
    have grown := (op.leads_moments closed.sound).slots_le
    rw [after_concat, returned_concat]
    refine ⟨closed', fun id hid => ?_⟩
    rcases List.mem_append.mp hid with hid | hid
    · exact (slots id hid).mono grown
    · exact slots' id hid

end Session

end Settings

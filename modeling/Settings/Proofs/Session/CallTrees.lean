import Settings.Proofs.Session.Calls

/-!
# Calls inside calls

A call may make others, and they may make others again. `Session.callTree` follows the run of a call
and gives the tree of all of them, each with the session before it, the calls made in its body in
their order, and its outcome, which is the outcome of the call as it is made (`invokeWithin`).

`Within top stack c` leads to a call of the tree. On its way it collects the calls above, and those
are the calls that are running when `c` is made: a body goes on only after a call in it has ended,
so whatever it has called before is over by then. The receivers in use at that time are the
receivers of the stack (`Within.inUse_before`), because every call leaves in use what it has found
in use, however it ends (`invokeWithin_inUse`). What is true of the receivers in use is thereby true
of the stack.
-/

set_option autoImplicit false

namespace Settings

/-! ## Taking a receiver and giving it back -/

/-- Whether the body of a function may run: a receiver is free, and of the member's type. -/
def Function.enters (g : Function) (s : Session) : Bool :=
  match g.receiver with
  | none => true
  | some r => r.object.id ∉ s.inUse && r.object.tag = r.tag

namespace Session

/-- The session in which a body runs. -/
def holding (s : Session) : Option Receiver → Session
  | none => s
  | some r => { s with inUse := r.object.id :: s.inUse }

/-- The session after a body has run. -/
def releasing (s : Session) : Option Receiver → Session
  | none => s
  | some r => { s with inUse := s.inUse.erase r.object.id }

@[simp] theorem table_holding (s : Session) (receiver : Option Receiver) :
    (s.holding receiver).table = s.table := by
  cases receiver <;> rfl

@[simp] theorem table_releasing (s : Session) (receiver : Option Receiver) :
    (s.releasing receiver).table = s.table := by
  cases receiver <;> rfl

variable {call : EntryId → List EntryId → Session → CallOutcome} {g : Function} {r : Receiver}
  {s : Session} {args : List EntryId}

theorem apply_of_enters (h : g.enters s = true) : apply call g args s =
    ((runBody call (g.call args) (s.holding g.receiver)).1,
      (runBody call (g.call args) (s.holding g.receiver)).2.releasing g.receiver) := by
  unfold apply withReceiver
  cases hr : g.receiver with
  | none => rfl
  | some r =>
    obtain ⟨hfree, htag⟩ : r.object.id ∉ s.inUse ∧ r.object.tag = r.tag := by
      simpa [Function.enters, hr] using h
    simp [hfree, htag, holding, releasing]

theorem apply_of_inUse (hr : g.receiver = some r) (h : r.object.id ∈ s.inUse) :
    apply call g args s = (.error (.error (.reentrant r.member)), s) := by
  unfold apply withReceiver
  simp [hr, h]

/-- A body that may not run does not: the receiver is in use, or of another type. -/
theorem apply_of_not_enters (h : g.enters s = false)
    (call : EntryId → List EntryId → Session → CallOutcome) (args : List EntryId) :
    ∃ r, g.receiver = some r ∧ (r.object.id ∈ s.inUse ∨ r.object.id ∉ s.inUse ∧
      apply call g args s = (.error (.fault (.wrongReceiver r.member)), s)) := by
  cases hr : g.receiver with
  | none => simp [Function.enters, hr] at h
  | some r =>
    refine ⟨r, rfl, ?_⟩
    by_cases hfree : r.object.id ∈ s.inUse
    · exact Or.inl hfree
    · have htag : r.object.tag ≠ r.tag := by
        simpa [Function.enters, hr, hfree] using h
      refine Or.inr ⟨hfree, ?_⟩
      unfold apply withReceiver
      simp [hr, hfree, htag]

/-! ## What is in use after a call -/

/-- A call leaves in use what it has found in use. -/
def LeavesInUse (call : EntryId → List EntryId → Session → CallOutcome) : Prop :=
  ∀ id args s, (call id args s).2.inUse = s.inUse

theorem runBody_inUse (hcall : LeavesInUse call) (body : Body) (s : Session) :
    (runBody call body s).2.inUse = s.inUse := by
  fun_induction runBody call body s with
  | case1 | case3 | case9 => rfl
  | case2 _ _ _ _ _ _ _ ih | case7 _ _ _ _ _ _ _ _ _ _ ih | case8 _ _ _ _ _ _ _ _ _ _ ih
  | case10 _ _ ih | case11 _ _ _ ih => exact ih
  | case4 f args next s id s' hr ih | case5 f args next s e s' hr ih =>
    exact ih.trans (by simpa [hr] using hcall f args s)
  | case6 f args next s x s' hr => simpa [hr] using hcall f args s

theorem apply_inUse (hcall : LeavesInUse call) (g : Function) (args : List EntryId) (s : Session) :
    (apply call g args s).2.inUse = s.inUse := by
  cases he : g.enters s with
  | true =>
    rw [apply_of_enters he]
    have hrun := runBody_inUse hcall (g.call args) (s.holding g.receiver)
    cases hr : g.receiver with
    | none =>
      rw [hr] at hrun
      exact hrun
    | some r =>
      rw [hr] at hrun
      simp only [releasing]
      rw [hrun]
      exact List.erase_cons_head r.object.id s.inUse
  | false =>
    obtain ⟨r, hr, hused | ⟨_, hfault⟩⟩ := apply_of_not_enters he call args
    · rw [apply_of_inUse hr hused]
    · rw [hfault]

theorem inUse_reported (o : CallOutcome) : (reported o).2.inUse = o.2.inUse := by
  unfold reported
  split <;> rfl

/-- However a call ends, the receivers in use are the same as before. -/
theorem invokeWithin_inUse (depth : Nat) : LeavesInUse (invokeWithin depth) := by
  induction depth with
  | zero => exact fun _ _ _ => rfl
  | succ depth ih =>
    intro id args s
    unfold invokeWithin
    split
    · rfl
    · rw [inUse_reported]
      split
      · exact apply_inUse ih _ args s
      · rfl

/-! ## The tree of a call -/

/-- A call with the calls that were made in its body. A call whose body did not run has none. -/
structure CallTree where
  function : EntryId
  args : List EntryId
  /-- The function that was found, if any. -/
  callee : Option Function
  before : Session
  /-- Whether its body ran. -/
  entered : Bool
  calls : List CallTree
  outcome : CallOutcome

namespace CallTree

def receiver (c : CallTree) : Option Receiver := c.callee.bind Function.receiver

/-- The messages of a call that ended with an error: one, its text. -/
def said (o : CallOutcome) : List String :=
  match o.1 with
  | .error (.error e) => [e.message]
  | .error (.fault _) | .ok _ => []

mutual

/-- The messages of the calls made inside, in their order, and then the call's own. -/
def messages : CallTree → List String
  | ⟨_, _, _, _, _, cs, o⟩ => messagesAll cs ++ said o

def messagesAll : List CallTree → List String
  | [] => []
  | c :: cs => messages c ++ messagesAll cs

end

/-- The object is the receiver of the call. -/
def Uses (c : CallTree) (o : ObjectId) : Prop := c.receiver.map (fun r => r.object.id) = some o

/-- The call was refused because its receiver was in use. Its body did not run, and nothing is
different but that the channel was told. -/
structure Refused (c : CallTree) (r : Receiver) : Prop where
  entered : c.entered = false
  calls : c.calls = []
  outcome : c.outcome =
    (.error (.error (.reentrant r.member)), c.before.report (.reentrant r.member))

end CallTree

/-- The calls made by a body; `sub` is the tree of each. -/
def callsOf (sub : EntryId → List EntryId → Session → CallTree) : Body → Session → List CallTree
  | .done _, _ => []
  | .ask r next, s =>
      match r.answer s.table s.store with
      | .ok (reply, t, st) => callsOf sub (next reply) { s with table := t, store := st }
      | .error _ => []
  | .invoke f args next, s =>
      match (sub f args s).outcome with
      | (.ok id, after) => sub f args s :: callsOf sub (next (.ok id)) after
      | (.error (.error e), after) => sub f args s :: callsOf sub (next (.error e)) after
      | (.error (.fault _), _) => [sub f args s]
  | .define scope name f description builtin next, s =>
      match (Table.define scope name f description builtin).run s.table with
      | (.ok id, t) => callsOf sub (next (.ok id)) { s with table := t }
      | (.error (.error e), t) => callsOf sub (next (.error e)) { s with table := t }
      | (.error (.fault _), _) => []
  | .inspect next, s => callsOf sub (next s.store) s
  | .update change next, s => callsOf sub next { s with store := change s.store }

/-- The tree of a call, with calls nested at most `depth` deep. -/
def callTree : (depth : Nat) → EntryId → List EntryId → Session → CallTree
  | 0, id, args, s => ⟨id, args, none, s, false, [], invokeWithin 0 id args s⟩
  | depth + 1, id, args, s =>
      match (s.table.get? id).bind Entry.function? with
      | none => ⟨id, args, none, s, false, [], invokeWithin (depth + 1) id args s⟩
      | some g =>
          ⟨id, args, some g, s, g.enters s,
            if g.enters s then callsOf (callTree depth) (g.call args) (s.holding g.receiver)
            else [],
            invokeWithin (depth + 1) id args s⟩

/-- The call lies in the tree, and the stack has the calls above it, the nearest first. -/
inductive Within (top : CallTree) : List CallTree → CallTree → Prop
  | top : Within top [] top
  | nested {stack : List CallTree} {c d : CallTree} (above : Within top stack c)
      (made : d ∈ c.calls) : Within top (c :: stack) d

variable {sub : EntryId → List EntryId → Session → CallTree}

theorem before_callTree (depth : Nat) (id : EntryId) (args : List EntryId) (s : Session) :
    (callTree depth id args s).before = s := by
  cases depth with
  | zero => rfl
  | succ depth =>
    unfold callTree
    split <;> rfl

theorem outcome_callTree (depth : Nat) (id : EntryId) (args : List EntryId) (s : Session) :
    (callTree depth id args s).outcome = invokeWithin depth id args s := by
  cases depth with
  | zero => rfl
  | succ depth =>
    unfold callTree
    split <;> rfl

/-- The tree of a function that is found is made from its body. -/
theorem callTree_succ (depth : Nat) {id : EntryId}
    (hg : (s.table.get? id).bind Entry.function? = some g) (args : List EntryId) :
    callTree (depth + 1) id args s = ⟨id, args, some g, s, g.enters s,
      if g.enters s then callsOf (callTree depth) (g.call args) (s.holding g.receiver) else [],
      reported (apply (invokeWithin depth) g args s)⟩ := by
  obtain ⟨e, live, hfun⟩ := Option.bind_eq_some_iff.mp hg
  rw [← invokeWithin_succ live hfun]
  unfold callTree
  rw [hg]

/-- A call finds no function, and then there are no calls in it, or is made from a body. -/
theorem callTree_cases (depth : Nat) (id : EntryId) (args : List EntryId) (s : Session) :
    (callTree depth id args s).callee = none ∧ (callTree depth id args s).calls = [] ∨
      ∃ d g, depth = d + 1 ∧ (s.table.get? id).bind Entry.function? = some g := by
  cases depth with
  | zero => exact Or.inl ⟨rfl, rfl⟩
  | succ depth =>
    cases hg : (s.table.get? id).bind Entry.function? with
    | none =>
      refine Or.inl ?_
      unfold callTree
      rw [hg]
      exact ⟨rfl, rfl⟩
    | some g => exact Or.inr ⟨depth, g, rfl, rfl⟩

/-! ## Stacks and receivers in use -/

theorem mem_callsOf (hsub : ∀ f args s, (sub f args s).outcome.2.inUse = s.inUse) {c : CallTree}
    {body : Body} (hc : c ∈ callsOf sub body s) :
    ∃ f args s', c = sub f args s' ∧ s'.inUse = s.inUse := by
  fun_induction callsOf sub body s with
  | case1 | case3 | case9 => exact absurd hc (by simp)
  | case2 _ _ _ _ _ _ _ ih | case7 _ _ _ _ _ _ _ _ _ _ ih | case8 _ _ _ _ _ _ _ _ _ _ ih
  | case10 _ _ ih | case11 _ _ _ ih => exact ih hc
  | case4 f args next s id s' hr ih | case5 f args next s e s' hr ih =>
    rcases List.mem_cons.mp hc with rfl | hc
    · exact ⟨f, args, s, rfl, rfl⟩
    · obtain ⟨f', args', u, hsame, hu⟩ := ih hc
      exact ⟨f', args', u, hsame, hu.trans (by simpa [hr] using hsub f args s)⟩
  | case6 f args next s x s' hr => exact ⟨f, args, s, List.mem_singleton.mp hc, rfl⟩

/-- A call made in the body of another is a tree of its own, and on its start the receiver of the
other is in use besides those that were. -/
theorem mem_calls_callTree {depth : Nat} {id : EntryId} {c : CallTree}
    (hc : c ∈ (callTree depth id args s).calls) :
    (∃ d f args' s', c = callTree d f args' s') ∧ (callTree depth id args s).entered = true ∧
      c.before.inUse = (s.holding (callTree depth id args s).receiver).inUse := by
  rcases callTree_cases depth id args s with ⟨_, hnone⟩ | ⟨d, g, rfl, hg⟩
  · rw [hnone] at hc
    exact absurd hc (by simp)
  · rw [callTree_succ d hg] at hc ⊢
    cases he : g.enters s with
    | false => simp [he] at hc
    | true =>
      simp only [he, if_true] at hc
      obtain ⟨f, args', s', rfl, hs'⟩ := mem_callsOf (fun f args s => by
        rw [outcome_callTree]
        exact invokeWithin_inUse d f args s) hc
      refine ⟨⟨d, f, args', s', rfl⟩, rfl, ?_⟩
      rw [before_callTree, hs']
      rfl

/-- The receivers of calls. -/
def receivers (stack : List CallTree) : List ObjectId :=
  stack.filterMap fun c => c.receiver.map fun r => r.object.id

theorem mem_receivers {stack : List CallTree} {o : ObjectId} :
    o ∈ receivers stack ↔ ∃ a ∈ stack, a.Uses o := List.mem_filterMap

theorem receivers_cons (c : CallTree) (stack : List CallTree) :
    receivers (c :: stack) = receivers [c] ++ receivers stack := by
  unfold receivers
  rw [← List.filterMap_append]
  rfl

theorem inUse_holding (s : Session) (c : CallTree) :
    (s.holding c.receiver).inUse = receivers [c] ++ s.inUse := by
  cases hr : c.receiver <;> simp [holding, receivers, hr]

/-- Any call of the tree is made while the bodies of its stack are running, and while their
receivers, and those of the start, are in use. -/
theorem Within.inUse_before {top c : CallTree} {stack : List CallTree} (h : Within top stack c)
    {depth : Nat} {id : EntryId} (htop : top = callTree depth id args s) :
    (∃ d f args' s', c = callTree d f args' s') ∧ (∀ a ∈ stack, a.entered = true) ∧
      c.before.inUse = receivers stack ++ s.inUse := by
  induction h with
  | top =>
    subst htop
    exact ⟨⟨depth, id, args, s, rfl⟩, by simp,
      congrArg Session.inUse (before_callTree depth id args s)⟩
  | @nested stack c d above made ih =>
    obtain ⟨⟨n, f, args', s', hc⟩, hstack, hbefore⟩ := ih
    rw [hc] at made
    obtain ⟨hd, hentered, hinUse⟩ := mem_calls_callTree made
    refine ⟨hd, List.forall_mem_cons.mpr ⟨hc ▸ hentered, hstack⟩, hinUse.trans ?_⟩
    have hs' : c.before = s' := hc ▸ before_callTree n f args' s'
    rw [← hc, ← hs', inUse_holding, hbefore, ← List.append_assoc, ← receivers_cons]

/-! ## Refusals -/

/-- A call is refused just if its receiver is in use when it is made. -/
theorem refused_callTree_iff {depth : Nat} {id : EntryId}
    (hr : (callTree depth id args s).receiver = some r) :
    (callTree depth id args s).Refused r ↔ r.object.id ∈ s.inUse := by
  rcases callTree_cases depth id args s with ⟨hnone, _⟩ | ⟨d, g, rfl, hg⟩
  · simp [CallTree.receiver, hnone] at hr
  rw [callTree_succ d hg] at hr ⊢
  constructor
  · rintro ⟨hentered, _, houtcome⟩
    obtain ⟨r', hr', hused | ⟨_, hfault⟩⟩ :=
      apply_of_not_enters hentered (invokeWithin d) args
    · obtain rfl := Option.mem_unique hr hr'
      exact hused
    · simp only [hfault] at houtcome
      exact absurd (congrArg Prod.fst houtcome) (by simp [reported])
  · intro hused
    have hentered : g.enters s = false := by
      simp [Function.enters, show g.receiver = some r from hr, hused]
    refine ⟨hentered, by simp [hentered], ?_⟩
    simp [apply_of_inUse hr hused, reported]

/-! ## Messages -/

theorem channel_report {kept : List String} (h : s.channel = .buffer kept) (x : CallError) :
    (s.report x).channel = .buffer (kept ++ [x.message]) := by
  simp [report, h, Channel.report]

theorem channel_reported {o : CallOutcome} {kept : List String}
    (h : o.2.channel = .buffer kept) :
    (reported o).2.channel = .buffer (kept ++ CallTree.said (reported o)) := by
  obtain ⟨outcome, s⟩ := o
  cases outcome with
  | ok id => simpa [reported, CallTree.said] using h
  | error x =>
    cases x with
    | error e => exact channel_report h e
    | fault y => simpa [reported, CallTree.said] using h

/-- The outcome of a call, and the messages that it adds to a buffer. -/
def TellsOf (call : EntryId → List EntryId → Session → CallOutcome)
    (sub : EntryId → List EntryId → Session → CallTree) : Prop :=
  ∀ f args s, (sub f args s).outcome = call f args s ∧ ∀ kept, s.channel = .buffer kept →
    (call f args s).2.channel = .buffer (kept ++ (sub f args s).messages)

theorem channel_runBody (h : TellsOf call sub) {body : Body} {kept : List String}
    (hs : s.channel = .buffer kept) : (runBody call body s).2.channel =
      .buffer (kept ++ CallTree.messagesAll (callsOf sub body s)) := by
  fun_induction runBody call body s generalizing kept with
  | case1 => simpa [callsOf, CallTree.messagesAll] using hs
  | case2 r next s reply t st hr ih =>
    simp only [callsOf, hr]
    exact ih hs
  | case3 r next s x hr => simpa [callsOf, hr, CallTree.messagesAll] using hs
  | case4 f args next s id s' hr ih | case5 f args next s e s' hr ih =>
    obtain ⟨houtcome, hbuffer⟩ := h f args s
    have hcalled := hbuffer kept hs
    rw [hr] at houtcome hcalled
    simp only [callsOf, houtcome, CallTree.messagesAll, ← List.append_assoc]
    exact ih hcalled
  | case6 f args next s x s' hr =>
    obtain ⟨houtcome, hbuffer⟩ := h f args s
    have hcalled := hbuffer kept hs
    rw [hr] at houtcome hcalled
    simpa [callsOf, houtcome, CallTree.messagesAll] using hcalled
  | case7 scope name f description builtin next s t id hr ih
  | case8 scope name f description builtin next s t e hr ih =>
    simp only [callsOf, hr]
    exact ih hs
  | case9 scope name f description builtin next s t x hr =>
    simpa [callsOf, hr, CallTree.messagesAll] using hs
  | case10 next s ih | case11 change next s ih =>
    simp only [callsOf]
    exact ih hs

theorem channel_holding (s : Session) (receiver : Option Receiver) :
    (s.holding receiver).channel = s.channel := by
  cases receiver <;> rfl

theorem channel_releasing (s : Session) (receiver : Option Receiver) :
    (s.releasing receiver).channel = s.channel := by
  cases receiver <;> rfl

theorem messages_eq (c : CallTree) :
    c.messages = CallTree.messagesAll c.calls ++ CallTree.said c.outcome := by
  cases c
  simp [CallTree.messages]

theorem channel_apply (h : TellsOf call sub) {kept : List String} (hs : s.channel = .buffer kept) :
    (apply call g args s).2.channel = .buffer (kept ++ CallTree.messagesAll
      (if g.enters s then callsOf sub (g.call args) (s.holding g.receiver) else [])) := by
  cases he : g.enters s with
  | true =>
    rw [apply_of_enters he, if_pos rfl, channel_releasing]
    exact channel_runBody h ((channel_holding s g.receiver).trans hs)
  | false =>
    have hkept : s.channel = .buffer (kept ++ CallTree.messagesAll []) := by
      simpa [CallTree.messagesAll] using hs
    obtain ⟨r, hr, hused | ⟨_, hfault⟩⟩ := apply_of_not_enters he call args
    · rw [apply_of_inUse hr hused]
      exact hkept
    · rw [hfault]
      exact hkept

/-- An entry that is no function, or no longer there, is not called. -/
theorem channel_invokeWithin_of_none {depth : Nat} {id : EntryId} {kept : List String}
    (hg : (s.table.get? id).bind Entry.function? = none) (hs : s.channel = .buffer kept) :
    (invokeWithin (depth + 1) id args s).2.channel =
      .buffer (kept ++ CallTree.said (invokeWithin (depth + 1) id args s)) := by
  unfold invokeWithin
  cases he : s.table.entry id with
  | error x => simpa [CallTree.said] using hs
  | ok e =>
    have hnone : e.function? = none := by
      simpa [Table.entry_eq_ok.mp he] using hg
    simp only [hnone]
    exact channel_reported hs

/-- A call adds the messages of the calls in it to a buffer, and after them its own. -/
theorem tellsOf_callTree (depth : Nat) : TellsOf (invokeWithin depth) (callTree depth) := by
  induction depth with
  | zero =>
    intro id args s
    refine ⟨rfl, ?_⟩
    intro kept hs
    simpa [invokeWithin, messages_eq, callTree, CallTree.messagesAll, CallTree.said] using hs
  | succ depth ih =>
    intro id args s
    refine ⟨outcome_callTree _ _ _ _, ?_⟩
    intro kept hs
    rw [messages_eq, outcome_callTree]
    cases hg : (s.table.get? id).bind Entry.function? with
    | none =>
      have hcalls : (callTree (depth + 1) id args s).calls = [] := by
        unfold callTree
        rw [hg]
      rw [hcalls, CallTree.messagesAll, List.nil_append]
      exact channel_invokeWithin_of_none hg hs
    | some g =>
      obtain ⟨e, live, hfun⟩ := Option.bind_eq_some_iff.mp hg
      rw [callTree_succ depth hg, invokeWithin_succ live hfun, ← List.append_assoc]
      exact channel_reported (channel_apply ih hs)

/-! ## Every call of a tree -/

/-- The body of the function ran, made the calls, and had the outcome, which was reported if it was
an error. -/
def CallTree.Ran (c : CallTree) (g : Function) : Prop :=
  ∃ depth, c.entered = true ∧
    c.calls = callsOf (callTree depth) (g.call c.args) (c.before.holding g.receiver) ∧
    c.outcome = reported
      ((runBody (invokeWithin depth) (g.call c.args) (c.before.holding g.receiver)).1,
        (runBody (invokeWithin depth) (g.call c.args) (c.before.holding g.receiver)).2.releasing
          g.receiver)

theorem callTree_ran {depth : Nat} {id : EntryId} (hg : (callTree depth id args s).callee = some g)
    (he : g.enters s = true) : (callTree depth id args s).Ran g := by
  rcases callTree_cases depth id args s with ⟨hnone, _⟩ | ⟨d, g', rfl, hg'⟩
  · rw [hnone] at hg
    exact absurd hg (by simp)
  · rw [callTree_succ d hg'] at hg ⊢
    obtain rfl := Option.some.inj hg
    refine ⟨d, he, by simp [he], ?_⟩
    rw [apply_of_enters he]

/-- What is true of every call in a tree of calls that was begun with no object in use. -/
structure Nested (stack : List CallTree) (c : CallTree) : Prop where
  /-- A member is refused just if a call above has the same object for its receiver. -/
  refused_iff : ∀ r, c.receiver = some r → (c.Refused r ↔ ∃ a ∈ stack, a.Uses r.object.id)
  /-- Otherwise its body runs, the object being of the type that the member is written for. -/
  ran : ∀ g, c.callee = some g → (∀ r, g.receiver = some r →
    (¬ ∃ a ∈ stack, a.Uses r.object.id) ∧ r.object.tag = r.tag) → c.Ran g
  running : ∀ a ∈ stack, a.entered = true
  inUse : c.outcome.2.inUse = c.before.inUse
  /-- A buffer has got the messages of the calls inside, and then the text of the error, if the call
  ended with one. -/
  buffer : ∀ kept, c.before.channel = .buffer kept → c.outcome.2.channel =
    .buffer (kept ++ CallTree.messagesAll c.calls ++ CallTree.said c.outcome)

theorem Within.nested_callTree {top c : CallTree} {stack : List CallTree} (h : Within top stack c)
    {depth : Nat} {id : EntryId} (htop : top = callTree depth id args s) (hs : s.inUse = []) :
    Nested stack c := by
  obtain ⟨⟨d, f, args', s', hc⟩, hstack, hinUse⟩ := h.inUse_before htop
  rw [hs, List.append_nil] at hinUse
  subst hc
  rw [before_callTree] at hinUse
  constructor
  case refused_iff =>
    intro r hr
    rw [refused_callTree_iff hr, hinUse, mem_receivers]
  case ran =>
    intro g hg hfree
    apply callTree_ran hg
    unfold Function.enters
    cases hr : g.receiver with
    | none => rfl
    | some r =>
      obtain ⟨hunused, htag⟩ := hfree r hr
      rw [← mem_receivers, ← hinUse] at hunused
      simp [hunused, htag]
  case running => exact hstack
  case inUse =>
    rw [outcome_callTree, before_callTree]
    exact invokeWithin_inUse d f args' s'
  case buffer =>
    intro kept hkept
    rw [before_callTree] at hkept
    rw [List.append_assoc, ← messages_eq, outcome_callTree]
    exact (tellsOf_callTree d f args' s').2 kept hkept

/-- Calls that are begun with no object in use: a member is refused just if its object is the
receiver of a call that is still running, every call that ends with an error tells a buffer of it
once, after the calls inside it, and in the end no object is in use, so that none of the next calls
is refused. -/
theorem reentrant_iff_still_running {s : Session} (hs : s.inUse = []) (depth : Nat) (id : EntryId)
    (args : List EntryId) :
    let top := callTree depth id args s
    top.outcome = invokeWithin depth id args s ∧
    (∀ stack c, Within top stack c → Nested stack c) ∧
    top.outcome.2.inUse = [] ∧
    ∀ depth' id' args' r, (callTree depth' id' args' top.outcome.2).receiver = some r →
      ¬ (callTree depth' id' args' top.outcome.2).Refused r := by
  intro top
  have hafter : top.outcome.2.inUse = [] := by
    rw [outcome_callTree]
    exact (invokeWithin_inUse depth id args s).trans hs
  refine ⟨outcome_callTree depth id args s, fun stack c hc => hc.nested_callTree rfl hs, hafter, ?_⟩
  intro depth' id' args' r hr hrefused
  rw [refused_callTree_iff hr, hafter] at hrefused
  exact List.not_mem_nil hrefused

/-- A counter is poked with the function that pokes it. The call inside is refused and passes its
error on, so that a buffer is told twice. -/
theorem poke_of_itself_is_refused :
    let counter : Object := ⟨⟨0⟩, Stock.counterTag, [⟨0⟩]⟩
    let poke : Member := ⟨"poke", Stock.counterTag, .variadic, Stock.Counter.poke.call "poke"⟩
    let s := (fresh "root" "").after
      [.newObject (Stock.counterType (IntType.clamp .i64 7)),
        .define Table.root "poke" (poke.onObject counter) "" true, .setChannel (.buffer [])]
    let top := callTree 2 ⟨1⟩ [⟨1⟩] s
    let message := (CallError.reentrant "poke").message
    s.inUse = [] ∧ top.outcome.2.inUse = [] ∧ top.outcome.2.channel = .buffer [message, message] ∧
      ∃ c, Within top [top] c ∧ c.Refused (poke.receiverOn counter) := by
  intro counter poke s top message
  have hs : s.inUse = [] := rfl
  obtain ⟨_, hnested, hafter, _⟩ := reentrant_iff_still_running hs 2 ⟨1⟩ [⟨1⟩]
  obtain ⟨c, hcalls, hr, hsaid⟩ : ∃ c, top.calls = [c] ∧
      c.receiver = some (poke.receiverOn counter) ∧
        CallTree.messagesAll [c] ++ CallTree.said top.outcome = [message, message] :=
    ⟨_, rfl, rfl, rfl⟩
  have hc : Within top [top] c := .nested .top (hcalls ▸ List.mem_singleton_self c)
  have hbuffer := (hnested [] top .top).buffer [] rfl
  rw [hcalls, List.nil_append, hsaid] at hbuffer
  refine ⟨hs, hafter, hbuffer, c, hc, ?_⟩
  exact ((hnested [top] c hc).refused_iff _ hr).mpr ⟨top, List.mem_singleton_self top, rfl⟩

end Session

end Settings

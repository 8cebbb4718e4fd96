import Settings.Proofs.Session.Runs
import Settings.Proofs.Table.Temporaries
import Settings.Stock.Types

/-!
# Calls of host functions

A host function on values is called in three stages: the number of arguments is compared, the
arguments are converted from the left, and only then the host function runs, once, and its result is
given a handle. `Function.Hosts` says that a function is made in this way, free or as a member of an
object, and what a call of it comes to is shown for both at once.

The bodies of such functions make no calls, so the session matters to them only through its table
and its host variables. `Body.Ends` is the relation of such a body to how it ends; `Ends.runBody`
ties it to the run, and `Session.invokeWithin_of_ends` to the call of an entry, around which the
receiver is taken and given back and an error is reported. `Session.HostCall` is what comes of it.
-/

set_option autoImplicit false

namespace Settings

/-! ## Arguments and their values -/

namespace Table

variable {t : Table} {s : Store}

/-- The arguments can be converted, and these are their values. -/
inductive Converts (t : Table) (s : Store) : (ps : List Param) → List EntryId → Args ps → Prop
  | nil : Converts t s [] [] ()
  | cons {p : Param} {ps : List Param} {id : EntryId} {ids : List EntryId} {v : p.Carrier}
      {vs : Args ps} (first : t.convert s p id = .ok v) (rest : Converts t s ps ids vs) :
      Converts t s (p :: ps) (id :: ids) (v, vs)

/-- The argument at an index, counted from zero, cannot be converted, and it is the first. -/
def FailsFirst (t : Table) (s : Store) (ps : List Param) (ids : List EntryId) (i : Nat) (p : Param)
    (x : EntryError) : Prop :=
  ps[i]? = some p ∧ (∃ id, ids[i]? = some id ∧ t.convert s p id = .error (.error x)) ∧
    ∀ j < i, ∀ q id, ps[j]? = some q → ids[j]? = some id → ∃ v, t.convert s q id = .ok v

theorem Converts.length_eq {ps : List Param} {ids : List EntryId} {vs : Args ps}
    (h : t.Converts s ps ids vs) : ids.length = ps.length := by
  induction h with
  | nil => rfl
  | cons _ _ ih => simp [ih]

theorem convert_cases {id : EntryId} {e : Entry} (live : t.get? id = some e) (s : Store)
    (p : Param) : (∃ v, t.convert s p id = .ok v) ∨ ∃ x, t.convert s p id = .error (.error x) := by
  cases p with
  | entry => exact Or.inl ⟨id, rfl⟩
  | value type =>
    rw [convert_of_live live]
    cases type.ofArgument (e.readText s) (e.readNumber s) with
    | ok v => exact Or.inl ⟨v, rfl⟩
    | error x => exact Or.inr ⟨x, rfl⟩

/-- A temporary is converted by the two readings of its value. -/
theorem convert_temp {id : EntryId} {value : Scalar} (live : t.get? id = some (.temp value))
    (s : Store) (h : HostType) : t.convert s (.value h) id =
      Attempt.ofError (h.ofArgument (.ok value.toText) value.toNumber) := by
  rw [convert_of_live live]
  cases value <;> rfl

section FailsFirst

variable {p q : Param} {ps : List Param} {id : EntryId} {ids : List EntryId} {i : Nat}
  {x : EntryError}

theorem FailsFirst.here (ps : List Param) (ids : List EntryId)
    (h : t.convert s p id = .error (.error x)) : t.FailsFirst s (p :: ps) (id :: ids) 0 p x := by
  refine ⟨rfl, ⟨id, rfl, h⟩, ?_⟩
  intro j hj
  omega

theorem FailsFirst.there {v : p.Carrier} (first : t.convert s p id = .ok v)
    (h : t.FailsFirst s ps ids i q x) : t.FailsFirst s (p :: ps) (id :: ids) (i + 1) q x := by
  obtain ⟨hq, hx, hbefore⟩ := h
  refine ⟨by simpa using hq, by simpa using hx, ?_⟩
  intro j hj q' id' hq' hid'
  cases j with
  | zero =>
    obtain rfl : p = q' := by simpa using hq'
    obtain rfl : id = id' := by simpa using hid'
    exact ⟨v, first⟩
  | succ j => exact hbefore j (by omega) q' id' (by simpa using hq') (by simpa using hid')

/-- Live arguments, one for each parameter, can all be converted, or there is a first that
cannot. -/
theorem converts_or_failsFirst (hlive : ∀ id ∈ ids, ∃ e, t.get? id = some e)
    (hlen : ids.length = ps.length) (s : Store) :
    (∃ vs, t.Converts s ps ids vs) ∨ ∃ i p x, t.FailsFirst s ps ids i p x := by
  induction ps generalizing ids with
  | nil =>
    obtain rfl : ids = [] := List.length_eq_zero_iff.mp hlen
    exact Or.inl ⟨(), .nil⟩
  | cons p ps ih =>
    cases ids with
    | nil => simp at hlen
    | cons id ids =>
      obtain ⟨⟨e, live⟩, hlive⟩ := List.forall_mem_cons.mp hlive
      rcases convert_cases live s p with ⟨v, hv⟩ | ⟨x, hx⟩
      · rcases ih hlive (by simpa using hlen) with ⟨vs, hvs⟩ | ⟨i, q, x, hfail⟩
        · exact Or.inl ⟨(v, vs), .cons hv hvs⟩
        · exact Or.inr ⟨i + 1, q, x, hfail.there hv⟩
      · exact Or.inr ⟨0, p, x, .here ps ids hx⟩

end FailsFirst

end Table

/-! ## Bodies that make no calls -/

namespace Body

/-- A body that makes no calls ends with an outcome and leaves a table and host variables. -/
inductive Ends : Body → Table → Store → Attempt CallError EntryId → Table → Store → Prop
  | done {outcome : Except CallError EntryId} {t : Table} {s : Store} :
      Ends (.done outcome) t s (.ofError outcome) t s
  | ask {r : Request} {next : r.Reply → Body} {reply : r.Reply} {t t₁ t' : Table}
      {s s₁ s' : Store} {outcome : Attempt CallError EntryId}
      (answered : r.answer t s = .ok (reply, t₁, s₁))
      (rest : Ends (next reply) t₁ s₁ outcome t' s') :
      Ends (.ask r next) t s outcome t' s'
  | inspect {next : Store → Body} {t t' : Table} {s s' : Store}
      {outcome : Attempt CallError EntryId} (rest : Ends (next s) t s outcome t' s') :
      Ends (.inspect next) t s outcome t' s'
  | update {change : Store → Store} {next : Body} {t t' : Table} {s s' : Store}
      {outcome : Attempt CallError EntryId} (rest : Ends next t (change s) outcome t' s') :
      Ends (.update change next) t s outcome t' s'

variable {name : String} {t t' : Table} {s s' : Store} {outcome : Attempt CallError EntryId}

theorem Ends.runBody {b : Body} (h : b.Ends t s outcome t' s')
    (call : EntryId → List EntryId → Session → Session.CallOutcome) {session : Session}
    (ht : session.table = t) (hs : session.store = s) :
    Session.runBody call b session = (outcome, { session with table := t', store := s' }) := by
  induction h generalizing session with
  | done =>
    subst ht hs
    rfl
  | ask answered _ ih =>
    subst ht hs
    unfold Session.runBody
    rw [answered]
    exact ih rfl rfl
  | inspect _ ih =>
    subst ht hs
    unfold Session.runBody
    exact ih rfl rfl
  | update _ ih =>
    subst ht hs
    unfold Session.runBody
    exact ih rfl rfl

/-! ### Conversion, then the host function -/

theorem answer_convert {p : Param} {id : EntryId} {r : Except EntryError p.Carrier}
    (h : t.convert s p id = .ofError r) :
    (Request.convert p id).answer t s = .ok (r, t, s) := by
  show (t.convert s p id).settle.map (fun reply => (reply, t, s)) = _
  rw [h]
  cases r <;> rfl

theorem Ends.convertArgs {ps : List Param} {ids : List EntryId} {vs : Args ps} {position : Nat}
    {next : Args ps → Body} (h : t.Converts s ps ids vs)
    (rest : (next vs).Ends t s outcome t' s') :
    (Body.convertArgs name ps position ids next).Ends t s outcome t' s' := by
  induction h generalizing position with
  | nil => exact rest
  | @cons p ps id ids v vs first _ ih => exact .ask (answer_convert (r := .ok v) first) (ih rest)

theorem Ends.convertArgs_fails {ps : List Param} {ids : List EntryId} {i position : Nat} {p : Param}
    {x : EntryError} (next : Args ps → Body) (h : t.FailsFirst s ps ids i p x) :
    (Body.convertArgs name ps position ids next).Ends t s
      (.error (.error (.argumentType name (position + i) p.expected x))) t s := by
  obtain ⟨hp, ⟨id, hid, hx⟩, hbefore⟩ := h
  induction i generalizing ps ids position with
  | zero =>
    cases ps with
    | nil => simp at hp
    | cons q ps =>
      cases ids with
      | nil => simp at hid
      | cons id' ids =>
        obtain rfl : q = p := by simpa using hp
        obtain rfl : id' = id := by simpa using hid
        exact .ask (answer_convert (r := .error x) hx) .done
  | succ i ih =>
    cases ps with
    | nil => simp at hp
    | cons q ps =>
      cases ids with
      | nil => simp at hid
      | cons id' ids =>
        obtain ⟨v, hv⟩ := hbefore 0 (by omega) q id' rfl rfl
        have before : ∀ j < i, ∀ q' jd, ps[j]? = some q' → ids[j]? = some jd →
            ∃ w, t.convert s q' jd = .ok w := by
          intro j hj q' jd hq' hjd
          exact hbefore (j + 1) (by omega) q' jd (by simpa using hq') (by simpa using hjd)
        rw [show position + (i + 1) = position + 1 + i by omega]
        exact .ask (answer_convert (r := .ok v) hv)
          (ih _ (by simpa using hp) before (by simpa using hid))

section Typed

variable {ps : List Param} {f : Args ps → StateM Store (Except CallError Returned)}
  {args : List EntryId}

theorem Ends.typed_of_length_ne (h : args.length ≠ ps.length) :
    (Body.typed name ps f args).Ends t s
      (.error (.error (.arityMismatch name ps.length args.length))) t s := by
  unfold Body.typed
  rw [if_neg h]
  exact .done

theorem Ends.typed_of_failsFirst {i : Nat} {p : Param} {x : EntryError}
    (hlen : args.length = ps.length) (h : t.FailsFirst s ps args i p x) :
    (Body.typed name ps f args).Ends t s
      (.error (.error (.argumentType name (i + 1) p.expected x))) t s := by
  unfold Body.typed
  rw [if_pos hlen, show i + 1 = 1 + i by omega]
  exact Ends.convertArgs_fails _ h

theorem Ends.typed_of_converts {vs : Args ps} (h : t.Converts s ps args vs)
    (rest : (Body.host (f vs)).Ends t s outcome t' s') :
    (Body.typed name ps f args).Ends t s outcome t' s' := by
  unfold Body.typed
  rw [if_pos h.length_eq]
  exact Ends.convertArgs h rest

end Typed

/-- A result that is a value is put into a fresh temporary, and a handle is given back as it is. -/
theorem Ends.host {f : StateM Store (Except CallError Returned)} :
    (∀ x, f s = (.error x, s') → (Body.host f).Ends t s (.error (.error x)) t s') ∧
    (∀ v, f s = (.ok (.scalar v), s') →
      (Body.host f).Ends t s (.ok (t.alloc (.temp v)).1) (t.alloc (.temp v)).2 s') ∧
    ∀ id, f s = (.ok (.entry id), s') → (Body.host f).Ends t s (.ok id) t s' := by
  have start : ∀ {r : Except CallError Returned} {o u}, f s = (r, s') →
      (Body.finish r).Ends t s' o u s' → (Body.host f).Ends t s o u s' := by
    intro r o u hf rest
    unfold Body.host
    have hrun : StateT.run f s = (r, s') := hf
    refine .inspect (.update ?_)
    rw [hrun]
    exact rest
  refine ⟨fun x hx => start hx .done, fun v hv => ?_, fun id hid => start hid .done⟩
  have answered : (Request.makeTemp v).answer t s' =
      .ok ((t.alloc (.temp v)).1, (t.alloc (.temp v)).2, s') := rfl
  exact start hv (.ask answered .done)

end Body

/-! ## Functions made from host functions -/

/-- The function calls a host function on values, free or as a member that was bound to an object of
its type. The name is the one that its errors give. -/
inductive Function.Hosts (name : String) (ps : List Param) :
    (Args ps → StateM Store (Except CallError Returned)) → Function → Prop
  | free (f : Args ps → StateM Store (Except CallError Returned)) : Hosts name ps f
      (.fixed name ps f)
  | member {receiver tag : TypeTag}
      {method : Object → Args ps → StateM Store (Except CallError Returned)} {m : Member}
      (bound : Member.bind tag name (.fixed receiver ps method) = .ok m) {o : Object}
      (typed : o.tag = tag) : Hosts name ps (method o) (m.onObject o)

/-- No call that is running uses the receiver, if there is one. -/
def Function.Ready (g : Function) (s : Session) : Prop :=
  ∀ r, g.receiver = some r → r.object.id ∉ s.inUse

variable {name : String} {ps : List Param} {f : Args ps → StateM Store (Except CallError Returned)}
  {g : Function} {s : Session}

theorem Member.bind_eq_ok {tag : TypeTag} {method : Method} {m : Member}
    (h : Member.bind tag name method = .ok m) :
    m = ⟨name, tag, method.arity, method.call name⟩ := by
  unfold Member.bind at h
  split at h
  · exact (Except.ok.inj h).symm
  · exact absurd h (by simp)

theorem Function.Hosts.call_eq (h : g.Hosts name ps f) (args : List EntryId) :
    g.call args = Body.typed name ps f args := by
  cases h with
  | free => rfl
  | member bound _ =>
    rw [Member.bind_eq_ok bound]
    rfl

theorem Function.Hosts.receiver_tag (h : g.Hosts name ps f) {r : Receiver}
    (hr : g.receiver = some r) : r.object.tag = r.tag := by
  cases h with
  | free => exact absurd hr (by simp [Function.fixed, Function.receiver])
  | member bound typed =>
    rw [Member.bind_eq_ok bound] at hr
    obtain rfl := Option.some.inj hr
    exact typed

theorem Body.Ends.apply {args : List EntryId} {outcome : Attempt CallError EntryId} {t : Table}
    {st : Store} (h : (g.call args).Ends s.table s.store outcome t st) (ready : g.Ready s)
    (typed : ∀ r, g.receiver = some r → r.object.tag = r.tag)
    (call : EntryId → List EntryId → Session → Session.CallOutcome) :
    Session.apply call g args s = (outcome, { s with table := t, store := st }) := by
  unfold Session.apply Session.withReceiver
  cases hr : g.receiver with
  | none => exact h.runBody call rfl rfl
  | some r =>
    have hfree := ready r hr
    have htag := typed r hr
    have hrun : Session.runBody call (g.call args) { s with inUse := r.object.id :: s.inUse } =
        (outcome, { s with inUse := r.object.id :: s.inUse, table := t, store := st }) :=
      h.runBody call rfl rfl
    simp [hfree, htag, hrun]

namespace Session

theorem invokeWithin_succ {id : EntryId} {e : Entry} (live : s.table.get? id = some e)
    (hg : e.function? = some g) (depth : Nat) (args : List EntryId) :
    invokeWithin (depth + 1) id args s = reported (apply (invokeWithin depth) g args s) := by
  unfold invokeWithin
  rw [Table.entry_eq_ok.mpr live]
  simp [hg]

/-- The call of an entry whose function makes no calls itself. An error is reported. -/
theorem invokeWithin_of_ends {id : EntryId} {e : Entry} (live : s.table.get? id = some e)
    (hg : e.function? = some g) (hosts : g.Hosts name ps f) (ready : g.Ready s) (depth : Nat)
    {args : List EntryId} {outcome : Attempt CallError EntryId} {t : Table} {st : Store}
    (h : (Body.typed name ps f args).Ends s.table s.store outcome t st) :
    invokeWithin (depth + 1) id args s =
      reported (outcome, { s with table := t, store := st }) := by
  rw [invokeWithin_succ live hg]
  rw [← hosts.call_eq args] at h
  rw [h.apply ready fun _ => hosts.receiver_tag]

/-- What a call of a host function comes to: the number of arguments is compared, then they are
converted from the left, and the host function runs once, on the values, if nothing was wrong so
far. Every error is reported once, and one that came before the host function leaves all else as
it was. -/
structure HostCall (s : Session) (name : String) (ps : List Param)
    (f : Args ps → StateM Store (Except CallError Returned)) (args : List EntryId)
    (outcome : CallOutcome) : Prop where
  wrongNumber : args.length ≠ ps.length → outcome =
    (.error (.error (.arityMismatch name ps.length args.length)),
      s.report (.arityMismatch name ps.length args.length))
  wrongArgument : args.length = ps.length → ∀ i p x, s.table.FailsFirst s.store ps args i p x →
    outcome = (.error (.error (.argumentType name (i + 1) p.expected x)),
      s.report (.argumentType name (i + 1) p.expected x))
  error : ∀ vs, s.table.Converts s.store ps args vs → ∀ x st, f vs s.store = (.error x, st) →
    outcome = (.error (.error x), { s with store := st }.report x)
  scalar : ∀ vs, s.table.Converts s.store ps args vs → ∀ v st,
    f vs s.store = (.ok (.scalar v), st) → ∃ new t, s.table.Gains new v t ∧
      outcome = (.ok new, { s with store := st, table := t })
  handle : ∀ vs, s.table.Converts s.store ps args vs → ∀ r st,
    f vs s.store = (.ok (.entry r), st) → outcome = (.ok r, { s with store := st })
  complete : args.length ≠ ps.length ∨
    (args.length = ps.length ∧ ∃ i p x, s.table.FailsFirst s.store ps args i p x) ∨
    ∃ vs, s.table.Converts s.store ps args vs

/-- One of the cases applies to every call, and none of them is a fault. -/
theorem HostCall.not_fault {args : List EntryId} {outcome : CallOutcome}
    (h : HostCall s name ps f args outcome) (x : Fault) : outcome.1 ≠ .error (.fault x) := by
  rcases h.complete with hne | ⟨hlen, i, p, y, hfail⟩ | ⟨vs, hvs⟩
  · simp [h.wrongNumber hne]
  · simp [h.wrongArgument hlen i p y hfail]
  · cases hf : f vs s.store with
    | mk result st =>
      cases result with
      | error y => simp [h.error vs hvs y st hf]
      | ok returned =>
        cases returned with
        | scalar v =>
          obtain ⟨new, t, _, ho⟩ := h.scalar vs hvs v st hf
          simp [ho]
        | entry r => simp [h.handle vs hvs r st hf]

theorem hostCall_invokeWithin (h : s.table.Sound) {id : EntryId} {e : Entry}
    (live : s.table.get? id = some e) (hg : e.function? = some g) (hosts : g.Hosts name ps f)
    (ready : g.Ready s) {args : List EntryId} (hargs : ∀ a ∈ args, s.table.contains a = true)
    (depth : Nat) : HostCall s name ps f args (invokeWithin (depth + 1) id args s) := by
  have run {o t st} (ends : (Body.typed name ps f args).Ends s.table s.store o t st) :
      invokeWithin (depth + 1) id args s = reported (o, { s with table := t, store := st }) :=
    invokeWithin_of_ends live hg hosts ready depth ends
  have host {vs st} := @Body.Ends.host s.table s.store st (f vs)
  have hlive : ∀ a ∈ args, ∃ e, s.table.get? a = some e := by
    intro a ha
    exact Option.isSome_iff_exists.mp (hargs a ha)
  constructor
  case wrongNumber =>
    intro hne
    exact run (.typed_of_length_ne hne)
  case wrongArgument =>
    intro hlen i p x hfail
    exact run (.typed_of_failsFirst hlen hfail)
  case error =>
    intro vs hvs x st hx
    exact run (.typed_of_converts hvs (host.1 x hx))
  case scalar =>
    intro vs hvs v st hv
    exact ⟨_, _, h.gains v, run (.typed_of_converts hvs (host.2.1 v hv))⟩
  case handle =>
    intro vs hvs r st hr
    exact run (.typed_of_converts hvs (host.2.2 r hr))
  case complete =>
    by_cases hlen : args.length = ps.length
    · rcases Table.converts_or_failsFirst hlive hlen s.store with hvs | hfail
      · exact Or.inr (Or.inr hvs)
      · exact Or.inr (Or.inl ⟨hlen, hfail⟩)
    · exact Or.inl hlen

/-- A call of a host function with live arguments comes to one of the cases of `HostCall` and never
to a fault, and a buffer that it reports to gets one message more, the text of the error. -/
theorem invoke_host_function (h : s.table.Reachable) {id : EntryId} {e : Entry}
    (live : s.table.get? id = some e) (hg : e.function? = some g) (hosts : g.Hosts name ps f)
    (ready : g.Ready s) {args : List EntryId}
    (hargs : ∀ a ∈ args, s.table.contains a = true) :
    HostCall s name ps f args ((invoke id args).run s) ∧
    (∀ x, ((invoke id args).run s).1 ≠ .error (.fault x)) ∧
    ∀ x kept, s.channel = .buffer kept → (s.report x).channel = .buffer (kept ++ [x.message]) := by
  have called : HostCall s name ps f args ((invoke id args).run s) :=
    hostCall_invokeWithin h.sound live hg hosts ready hargs 9999
  refine ⟨called, called.not_fault, ?_⟩
  intro x kept hbuffer
  simp [report, hbuffer, Channel.report]

/-- A member of a counter is called with a flag, a scope and a text. The scope has no text, so that
the second argument is told of, and the counter does not count the call. -/
theorem invoke_member_with_scope_for_text :
    let counter : Object := ⟨⟨0⟩, Stock.counterTag, [⟨0⟩]⟩
    let pick : Member := ⟨"pick", Stock.counterTag, .fixed 3, Stock.Counter.pick3.call "pick"⟩
    let s := (fresh "root" "").after
      [.newObject (Stock.counterType (IntType.clamp .i64 7)),
        .define Table.root "pick" (pick.onObject counter) "" true,
        .ask (.makeTemp (.text "true")), .ask (.makeTemp (.text "a"))]
    let x : EntryError := .unsupported "root" .scope .stringRead
    (invoke ⟨1⟩ [⟨2⟩, ⟨0⟩, ⟨3⟩]).run s =
      (.error (.error (.argumentType "pick" 2 .string x)),
        s.report (.argumentType "pick" 2 .string x)) := by
  intro counter pick s x
  have h : s.table.Reachable := ⟨"root", "", _, rfl⟩
  obtain ⟨e, live⟩ := Table.contains_iff.mp (show s.table.contains ⟨1⟩ = true by decide +kernel)
  have hg : e.function? = some (pick.onObject counter) := by
    have : (s.table.get? ⟨1⟩).bind Entry.function? = some (pick.onObject counter) := rfl
    simpa [live] using this
  have bound : Member.bind Stock.counterTag "pick" Stock.Counter.pick3 = .ok pick := rfl
  have ready : (pick.onObject counter).Ready s := by
    intro r hr
    exact List.not_mem_nil
  have hargs : ∀ a ∈ ([⟨2⟩, ⟨0⟩, ⟨3⟩] : List EntryId), s.table.contains a = true := by
    decide +kernel
  have called := (invoke_host_function h live hg (.member bound rfl) ready hargs).1
  refine called.wrongArgument rfl 1 (.value .text) x ⟨rfl, ⟨⟨0⟩, rfl, rfl⟩, ?_⟩
  intro j hj q id hq hid
  obtain rfl : j = 0 := by omega
  obtain rfl : Param.value .bool = q := Option.some.inj hq
  obtain rfl : ⟨2⟩ = id := Option.some.inj hid
  exact ⟨true, rfl⟩

end Session

end Settings

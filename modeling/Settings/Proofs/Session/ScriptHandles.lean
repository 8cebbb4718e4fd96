import Settings.Proofs.Session.LiveHandles

/-!
# Live handles in scripts

Between evaluating its arguments and releasing them a script's call lets a function work on the
table. What it relies on afterwards is that the temporaries it has made are still live. They need
not be temporaries any more, since the function may have given them an owner, and then they stay.

A result that is not one of them is shown and, if it is a temporary, released. That touches no
other entry, so the arguments are released after it as before.
-/

set_option autoImplicit false

namespace Settings

theorem Action.run_settle_fault {ε δ α : Type} {m : Action ε α} {s s' : Session} {x : Fault}
    (h : m.run s = (.error (.fault x), s')) :
    (m.settle : Action δ (Except ε α)).run s = (.error (.fault x), s') := by
  unfold settle
  show ((.ofFault (m.run s).1.settle, (m.run s).2) : Attempt δ (Except ε α) × Session) = _
  rw [h]
  rfl

theorem Request.answer_unique {r : Request} {a b : r.Reply} {t t₁ t₂ : Table} {s s₁ s₂ : Store}
    (ha : r.answer t s = .ok (a, t₁, s₁)) (hb : r.answer t s = .ok (b, t₂, s₂)) :
    a = b ∧ t₁ = t₂ ∧ s₁ = s₂ := by
  rw [ha] at hb
  simpa using Except.ok.inj hb

namespace Session

variable {ε : Type} {s : Session} {id scope : EntryId} {args : List Argument}

/-! ## Releasing -/

/-- What was live is live after a release, the released handle apart. -/
theorem run_releaseIfTemporary_live (h : s.table.Sound) (hid : s.table.contains id = true) :
    ∃ t, (discard (ask (.releaseIfTemporary id)) : Action ε Unit).run s =
        (.ok (), { s with table := t }) ∧
      t.Sound ∧ ∀ other, other ≠ id → t.contains other = s.table.contains other := by
  obtain ⟨e, live⟩ := Table.contains_iff.mp hid
  have hrun := Table.run_releaseIfTemporary (ε := Empty) h live
  cases ht : e.temporary with
  | true =>
    rw [ht, if_pos rfl] at hrun
    refine ⟨_, run_releaseIfTemporary hrun, h.released ⟨e, live, ht, rfl⟩, ?_⟩
    intro other hne
    simp [Table.contains, Table.get?_vacate, hne]
  | false =>
    rw [ht, if_neg (by simp)] at hrun
    exact ⟨_, run_releaseIfTemporary hrun, h, fun _ _ => rfl⟩

theorem run_releaseAll_live (h : s.table.Sound) (nodup : (temporaries args).Nodup)
    (live : ∀ id ∈ temporaries args, s.table.contains id = true) :
    ∃ t, (releaseAll args : Action ε Unit).run s = (.ok (), { s with table := t }) := by
  induction args generalizing s with
  | nil => exact ⟨s.table, rfl⟩
  | cons argument args ih =>
    cases argument with
    | entry id => exact ih h nodup live
    | temp id =>
      obtain ⟨hid, nodup⟩ := List.nodup_cons.mp (show (id :: temporaries args).Nodup from nodup)
      have live : ∀ other ∈ id :: temporaries args, s.table.contains other = true := live
      obtain ⟨t, hrun, hsound, hothers⟩ :=
        run_releaseIfTemporary_live (ε := ε) h (live id List.mem_cons_self)
      obtain ⟨t', hrest⟩ := ih (s := { s with table := t }) hsound nodup fun other hother => by
        rw [hothers other fun heq => hid (heq ▸ hother)]
        exact live other (List.mem_cons_of_mem _ hother)
      exact ⟨t', (Action.bind_ok _ hrun).trans hrest⟩

/-- A live result is shown. The temporaries of the call are live afterwards as they were before. -/
theorem run_takeResult_live (h : s.table.Sound) (hid : s.table.contains id = true)
    (live : ∀ id ∈ temporaries args, s.table.contains id = true) :
    ∃ shown t, (takeResult args id : Action ε (Except EntryError String)).run s =
        (.ok shown, { s with table := t }) ∧
      t.Sound ∧ ∀ id ∈ temporaries args, t.contains id = true := by
  obtain ⟨shown, hshown⟩ := run_render (ε := ε) h hid
  by_cases hm : Argument.temp id ∈ args
  · refine ⟨shown, s.table, (Action.bind_ok _ hshown).trans ?_, h, live⟩
    simp only [hm, not_true_eq_false, if_false]
    rfl
  · obtain ⟨t, hrun, hsound, hothers⟩ := run_releaseIfTemporary_live (ε := ε) h hid
    refine ⟨shown, t, (Action.bind_ok _ hshown).trans ?_, hsound, ?_⟩
    · simp only [hm, not_false_eq_true, if_true]
      exact (Action.bind_ok _ hrun).trans rfl
    · intro other hother
      obtain ⟨argument, hargument, htemp⟩ := List.mem_filterMap.mp hother
      have hne : other ≠ id := by
        rintro rfl
        cases argument with
        | temp id => exact hm (Option.some.inj htemp ▸ hargument)
        | entry id => exact absurd htemp (by simp)
      rw [hothers other hne]
      exact live other hother

/-! ## Steps of scripts -/

/-- What a path finds from a live entry is live. -/
theorem live_of_lookupPath {e : Entry} (live : s.table.get? scope = some e) {path : String}
    (h : ∀ found, some id = some found → found = scope ∧ path = "" ∨ s.table.Owned found) :
    ∃ e, s.table.get? id = some e := by
  rcases h id rfl with ⟨rfl, _⟩ | ⟨e, _, live, _⟩
  · exact ⟨_, live⟩
  · exact ⟨e, live⟩

/-- A render that can be set apart from its errors has not faulted. -/
theorem render_faultless (h : s.table.Sound) (hid : s.table.contains id = true) :
    ((render id).run s).1.Faultless := by
  obtain ⟨shown, hshown⟩ := run_render (ε := Empty) h hid
  intro x hx
  have hfault := Action.run_settle_fault (δ := Empty) (show (render id).run s =
    (.error (.fault x), ((render id).run s).2) by rw [← hx])
  exact absurd (congrArg Prod.fst (hshown.symm.trans hfault)) (by simp)

theorem assign_faultless (h : s.table.Sound) (hscope : s.table.contains scope = true)
    (assignment : String) : ((assign scope assignment).run s).1.Faultless := by
  obtain ⟨escope, liveScope⟩ := Table.contains_iff.mp hscope
  cases hsplit : splitFirst? '=' assignment with
  | none =>
    unfold assign
    rw [hsplit]
    exact .error _
  | some parts =>
    obtain ⟨left, right⟩ := parts
    obtain ⟨found, hfound, howned⟩ := h.exists_lookupPath? liveScope (trim left)
    cases found with
    | none =>
      unfold assign
      simp only [hsplit]
      rw [Action.bind_ok _ (run_lookupPath hfound)]
      exact .error _
    | some id =>
      obtain ⟨e, live⟩ : ∃ e, s.table.get? id = some e := live_of_lookupPath liveScope howned
      cases hscalar : e.isScalar with
      | true =>
        rw [run_assign_found hsplit hfound live hscalar]
        cases (e.writeText (trim right) s.store).1 with
        | ok => exact .ok ()
        | error x => exact .error _
      | false =>
        unfold assign
        simp only [hsplit]
        rw [Action.bind_ok _ (run_lookupPath hfound)]
        simp only
        rw [Action.bind_ok _ (run_liveEntry live), hscalar]
        exact .error _

/-! ## Calls of scripts -/

theorem exists_evaluated (h : s.table.Sound) {e : Entry} (live : s.table.get? scope = some e)
    (literals : List String) :
    ∃ args t, (evalAll scope literals : Action ε (List Argument)).run s =
      (.ok args, { s with table := t }) ∧ Evaluated s.table args t := by
  obtain ⟨args, t, hrun, hholding, hentries⟩ := run_evalAll (ε := ε) h.holding live literals
  rw [List.append_nil] at hholding
  exact ⟨args, t, hrun, hholding, hentries⟩

/-- A careful call leaves the temporaries among them live, so that
they can be released. -/
theorem run_call_of_careful {t₀ : Table} {f : EntryId} (evaluated : Evaluated t₀ args s.table)
    (function : s.table.contains f = true)
    (careful : CarefulWithin callDepthLimit f (args.map Argument.id) s) {x : Fault}
    (hx : ((callWith f args).run s).1 = .error (.fault x)) :
    x.ofTable = false := by
  have ends := careful_invokeWithin callDepthLimit f (args.map Argument.id) s
    evaluated.holding.sound function (fun a ha => evaluated.live ha) careful
  have member : ∀ id ∈ temporaries args, id ∈ args.map Argument.id := by
    intro id hid
    obtain ⟨argument, hargument, htemp⟩ := List.mem_filterMap.mp hid
    cases argument with
    | temp other => exact List.mem_map.mpr ⟨_, hargument, Option.some.inj htemp⟩
    | entry other => exact absurd htemp (by simp)
  -- the end of the call, from any table that still has the temporaries
  have ending : ∀ (u : Session) (shown : Except ScriptError String), u.table.Sound →
      (∀ id ∈ temporaries args, u.table.contains id = true) →
      ((closing args shown).run u).1.Faultless := by
    intro u shown hu live
    obtain ⟨t, hrun⟩ := run_releaseAll_live (ε := ScriptError) hu evaluated.holding.nodup live
    unfold closing
    rw [Action.bind_ok _ hrun, Action.run_orFail]
    exact .ofError shown
  have hinvoke : (invoke f (args.map Argument.id)).run s =
    invokeWithin callDepthLimit f (args.map Argument.id) s := rfl
  rcases hr : invokeWithin callDepthLimit f (args.map Argument.id) s with ⟨outcome, after⟩
  rw [hr] at ends hinvoke
  cases outcome with
  | ok result =>
    have live : ∀ id ∈ temporaries args, after.table.contains id = true := fun id hid =>
      ends.kept (.ok result) id (member id hid)
    obtain ⟨shown, t, htake, hsound, hlive⟩ :=
      run_takeResult_live (ε := ScriptError) ends.sound (ends.result result rfl) live
    rw [run_callWith_ok hinvoke htake] at hx
    exact absurd hx (ending { after with table := t } (Except.mapError .entry shown) hsound hlive x)
  | error y =>
    cases y with
    | error e =>
      have live : ∀ id ∈ temporaries args, after.table.contains id = true := fun id hid =>
        ends.kept (.error e) id (member id hid)
      rw [run_callWith_error hinvoke] at hx
      exact absurd hx (ending after (.error (.call e)) ends.sound live x)
    | fault y =>
      unfold callWith at hx
      rw [Action.bind_error _ (Action.run_settle_fault hinvoke)] at hx
      obtain rfl : y = x := by simpa using hx
      exact ends.fault y rfl

/-- A call of a script whose function is careful with what it is given, from the session in which
it gets the arguments, does not end with a fault of the table. -/
theorem callPath_of_careful (h : s.table.Sound) (hscope : s.table.contains scope = true)
    (path : String) (literals : List String)
    (careful : ∀ f args s', s.table.lookupPath? scope path = .ok (some f) →
      (evalAll scope literals : Action ScriptError (List Argument)).run s = (.ok args, s') →
        CarefulWithin callDepthLimit f (args.map Argument.id) s')
    {x : Fault} (hx : ((callPath scope path literals).run s).1 = .error (.fault x)) :
    x.ofTable = false := by
  obtain ⟨escope, liveScope⟩ := Table.contains_iff.mp hscope
  obtain ⟨found, hfound, howned⟩ := h.exists_lookupPath? liveScope path
  cases found with
  | none =>
    rw [run_callPath_unknown hfound] at hx
    exact absurd hx (Attempt.Faultless.error _ x)
  | some f =>
    obtain ⟨e, live⟩ := live_of_lookupPath liveScope howned
    cases hfun : e.isFunction with
    | false =>
      rw [run_callPath_notAFunction hfound live hfun] at hx
      exact absurd hx (Attempt.Faultless.error _ x)
    | true =>
      obtain ⟨args, t, hargs, evaluated⟩ :=
        exists_evaluated (ε := ScriptError) h liveScope literals
      rw [run_callPath hfound live hfun hargs] at hx
      refine run_call_of_careful (s := { s with table := t }) evaluated ?_
        (careful f args _ hfound hargs) hx
      exact Table.contains_iff.mpr ⟨e, evaluated.holding.live live⟩

/-- What scripts do from a scope, without a fault of the table. -/
structure Scripts (s : Session) (scope : EntryId) : Prop where
  literal : ∀ text, ((evalLiteral scope text : Action ScriptError Argument).run s).1.Faultless
  render : ((render scope).run s).1.Faultless
  assign : ∀ assignment, ((assign scope assignment).run s).1.Faultless
  call : ∀ path literals,
    (∀ f args s', s.table.lookupPath? scope path = .ok (some f) →
      (evalAll scope literals : Action ScriptError (List Argument)).run s = (.ok args, s') →
        CarefulWithin callDepthLimit f (args.map Argument.id) s') →
    ∀ x, ((callPath scope path literals).run s).1 = .error (.fault x) → x.ofTable = false

theorem scripts_of_live (h : s.table.Sound) (hscope : s.table.contains scope = true) :
    s.Scripts scope where
  literal := by
    intro text
    obtain ⟨e, live⟩ := Table.contains_iff.mp hscope
    rcases run_evalLiteral (ε := ScriptError) h live text with ⟨v, new, t, _, hrun⟩ | ⟨id, _, hrun⟩
    · rw [hrun]
      exact .ok _
    · rw [hrun]
      exact .ok _
  render := render_faultless h hscope
  assign := assign_faultless h hscope
  call := fun path literals careful _ => callPath_of_careful h hscope path literals careful

/-! ## Functions on values -/

section Typed

variable {call : EntryId → List EntryId → Session → CallOutcome}
  {calls : EntryId → List EntryId → Session → Prop} {given : List EntryId}

theorem careful_finish (h : s.table.SlotsOk) (hgiven : ∀ id ∈ given, s.table.contains id = true)
    {result : Except CallError Returned}
    (passed : ∀ r, result = .ok (.entry r) → s.table.contains r = true) :
    (Body.finish result).Careful call calls given s := by
  cases result with
  | error e => exact .done (by simp) hgiven
  | ok returned =>
    cases returned with
    | entry r =>
      refine .done ?_ hgiven
      intro id hid
      obtain rfl : r = id := by simpa using hid
      exact passed r rfl
    | scalar v =>
      refine .ask (by simp [Request.handles]) ?_
      intro reply t st hr
      have hanswer : (Request.makeTemp v).answer s.table s.store =
        .ok ((s.table.alloc (.temp v)).1, (s.table.alloc (.temp v)).2, s.store) := rfl
      obtain ⟨hreply, htable, _⟩ := Request.answer_unique hr hanswer
      refine .done ?_ ?_
      · intro id hid
        obtain rfl : reply = id := Except.ok.inj hid
        simp [hreply, htable, Table.contains, h.get?_alloc]
      · intro id hid
        obtain ⟨e, live⟩ := Table.contains_iff.mp (hgiven id hid)
        exact Table.contains_iff.mpr ⟨e, htable ▸ h.get?_alloc_of_live _ live⟩

/-- Arguments are looked at one by one, and what follows may rely on their values. -/
theorem careful_convertArgs {name : String} {ps : List Param} {ids : List EntryId} {position : Nat}
    {next : Args ps → Body} (hids : ∀ id ∈ ids, s.table.contains id = true)
    (hgiven : ∀ id ∈ given, s.table.contains id = true)
    (rest : ∀ vs, s.table.Converts s.store ps ids vs → (next vs).Careful call calls given s)
    (hlen : ids.length = ps.length) :
    (Body.convertArgs name ps position ids next).Careful call calls given s := by
  induction ps generalizing ids position with
  | nil =>
    obtain rfl : ids = [] := List.length_eq_zero_iff.mp hlen
    exact rest () .nil
  | cons p ps ih =>
    cases ids with
    | nil => simp at hlen
    | cons id ids =>
      obtain ⟨hid, hids⟩ := List.forall_mem_cons.mp hids
      obtain ⟨e, live⟩ := Table.contains_iff.mp hid
      refine .ask (by simpa [Request.handles] using hid) ?_
      intro reply t st hr
      rcases Table.convert_cases live s.store p with ⟨v, hv⟩ | ⟨x, hx⟩
      · have hanswer := Body.answer_convert (r := .ok v) hv
        obtain ⟨rfl, rfl, rfl⟩ := Request.answer_unique hanswer hr
        exact ih hids (fun vs hvs => rest (v, vs) (.cons hv hvs)) (by simpa using hlen)
      · have hanswer := Body.answer_convert (r := .error x) hx
        obtain ⟨rfl, rfl, rfl⟩ := Request.answer_unique hanswer hr
        exact .done (by simp) hgiven

theorem careful_typed {name : String} {ps : List Param}
    {f : Args ps → StateM Store (Except CallError Returned)} {args : List EntryId}
    (h : s.table.SlotsOk) (hargs : ∀ id ∈ args, s.table.contains id = true)
    (hpass : ∀ vs s r st, f vs s = (.ok (.entry r), st) → r ∈ Args.handles ps vs) :
    (Body.typed name ps f args).Careful call calls args s := by
  unfold Body.typed
  by_cases hlen : args.length = ps.length
  · rw [if_pos hlen]
    refine careful_convertArgs hargs hargs ?_ hlen
    intro vs hvs
    refine .inspect (.update ?_)
    refine careful_finish (s := { s with store := ((f vs).run s.store).2 }) h hargs ?_
    intro r hr
    exact hargs r (hvs.mem_of_handles (hpass vs s.store r _ (Prod.ext hr rfl)))
  · rw [if_neg hlen]
    exact .done (by simp) hargs

/-- Functions that work on values and pass handles on are careful. -/
theorem carefulWithin_of_passesOn (h : s.table.SlotsOk) {f : EntryId} {e : Entry} {g : Function}
    (live : s.table.get? f = some e) (hg : e.function? = some g) (hp : g.PassesOn)
    {args : List EntryId} (hargs : ∀ a ∈ args, s.table.contains a = true) (depth : Nat) :
    CarefulWithin (depth + 1) f args s := by
  intro g' hg' _
  obtain rfl : g = g' := by simpa [live, hg] using hg'
  obtain ⟨name, ps, host, hosts, hpass⟩ := hp
  rw [hosts.call_eq]
  refine careful_typed ?_ ?_ hpass
  · rwa [table_holding]
  · rwa [table_holding]

end Typed

/-! ## The whole -/

/-- Nothing that is done with live handles meets a freed entry or a circle: not a request or an
edit, not a walk, which also meets no entry twice and frees none twice, not a call, and not a
script. Of functions it is asked that they use live handles only and leave those live that they are
given. -/
theorem live_handles_suffice (h : s.table.Reachable) :
    s.table.Serves s.store ∧
    (∀ id e, s.table.get? id = some e → ∃ links x, s.table.Walks s.store id e links x) ∧
    (∀ f args, s.table.contains f = true → (∀ a ∈ args, s.table.contains a = true) →
      CarefulWithin callDepthLimit f args s → EndsLive args ((invoke f args).run s)) ∧
    ∀ scope, s.table.contains scope = true → s.Scripts scope := by
  have sound := h.sound
  refine ⟨sound.serves s.store, ?_, ?_, fun scope => scripts_of_live sound⟩
  · intro id e live
    exact sound.walks live s.store
  · intro f args hf hargs careful
    exact careful_invokeWithin callDepthLimit f args s sound hf hargs careful

/-- A function that passes its argument on is called with itself, and by a script with a literal. -/
theorem call_of_ident_is_served :
    let s := (fresh "root" "").after [.define Table.root "ident" (Stock.ident "ident") "" true]
    s.table.Reachable ∧ EndsLive [⟨1⟩] ((invoke ⟨1⟩ [⟨1⟩]).run s) ∧
      ∀ x, ((callPath Table.root "ident" ["\"x\""]).run s).1 = .error (.fault x) →
        x.ofTable = false := by
  intro s
  have h : s.table.Reachable := ⟨"root", "", _, rfl⟩
  obtain ⟨_, _, hcalls, hscripts⟩ := live_handles_suffice h
  have live : (s.table.get? ⟨1⟩).isSome = true := rfl
  obtain ⟨e, live⟩ := Option.isSome_iff_exists.mp live
  have hident : (s.table.get? ⟨1⟩).bind Entry.function? = some (Stock.ident "ident") := rfl
  have hg : e.function? = some (Stock.ident "ident") := by simpa [live] using hident
  have hp : (Stock.ident "ident").PassesOn := Stock.passesOn_ident "ident"
  refine ⟨h, ?_, ?_⟩
  · have hself : ∀ a ∈ [(⟨1⟩ : EntryId)], s.table.contains a = true := by
      simpa using Table.contains_iff.mpr ⟨e, live⟩
    exact hcalls ⟨1⟩ [⟨1⟩] (Table.contains_iff.mpr ⟨e, live⟩) hself
      (carefulWithin_of_passesOn h.sound.slots live hg hp hself 9999)
  · refine (hscripts Table.root rfl).call "ident" ["\"x\""] ?_
    intro f args s' hfound hargs
    have hlookup : s.table.lookupPath? Table.root "ident" = .ok (some ⟨1⟩) := by decide +kernel
    obtain rfl : ⟨1⟩ = f := by simpa [hlookup] using hfound
    obtain ⟨er, lr⟩ := Table.contains_iff.mp (show s.table.contains Table.root = true from rfl)
    obtain ⟨args', t, hrun, evaluated⟩ := exists_evaluated (ε := ScriptError) h.sound lr ["\"x\""]
    obtain ⟨hsame, rfl⟩ := Prod.mk.inj (hargs.symm.trans hrun)
    obtain rfl : args = args' := Except.ok.inj hsame
    exact carefulWithin_of_passesOn evaluated.holding.sound.slots (evaluated.holding.live live) hg
      hp (fun a ha => evaluated.live ha) 9999

end Session
end Settings

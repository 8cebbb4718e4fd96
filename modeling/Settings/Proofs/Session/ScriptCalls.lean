import Settings.Proofs.Listing.Contents
import Settings.Proofs.Session.Calls
import Settings.Proofs.Session.Refusals
import Settings.Stock.Functions

/-!
# What a script's call leaves behind

A call by path makes a temporary for each literal that is a number or a text, calls the function,
shows the result, and releases what it has made. If the function works on values alone, and answers
with a value or with a handle that it was given, the table is in the end as it was. Which handles
are to be released at which point is what the stages are about: the temporaries of the arguments,
and with them the result if it is a new temporary. A result that is one of the arguments is released
with the others if it was made for a literal, and stays if it was found by its path.

Each stage is stated for a session whose table is `Holding` temporaries over an earlier one.
-/

set_option autoImplicit false

namespace Settings

/-! ## Functions that pass handles on -/

/-- The handles among the values of arguments. -/
def Args.handles : (ps : List Param) → Args ps → List EntryId
  | [], _ => []
  | .entry :: ps, (id, vs) => id :: handles ps vs
  | .value _ :: ps, (_, vs) => handles ps vs

/-- The function calls a host function on values that answers with a value, an error, or one of the
handles that it was given. -/
def Function.PassesOn (g : Function) : Prop :=
  ∃ name ps f, g.Hosts name ps f ∧
    ∀ vs s r st, f vs s = (.ok (.entry r), st) → r ∈ Args.handles ps vs

theorem Stock.passesOn_ident (name : String) : (ident name).PassesOn := by
  refine ⟨name, [.entry], _, .free _, ?_⟩
  rintro ⟨a, ⟨⟩⟩ st r st' hr
  have hsame : (Except.ok (.entry a) : Except CallError Returned) = .ok (.entry r) :=
    congrArg Prod.fst hr
  obtain rfl : a = r := Returned.entry.inj (Except.ok.inj hsame)
  exact List.mem_cons_self

theorem Table.Converts.mem_of_handles {t : Table} {s : Store} {ps : List Param}
    {ids : List EntryId} {vs : Args ps} (h : t.Converts s ps ids vs) {r : EntryId}
    (hr : r ∈ Args.handles ps vs) : r ∈ ids := by
  induction h with
  | nil => exact absurd hr (by simp [Args.handles])
  | @cons p ps id ids v vs first _ ih =>
    cases p with
    | value type => exact List.mem_cons_of_mem _ (ih hr)
    | entry =>
      obtain rfl : id = v := Except.ok.inj first
      rcases List.mem_cons.mp hr with rfl | hr
      · exact List.mem_cons_self
      · exact List.mem_cons_of_mem _ (ih hr)

namespace Action

variable {ε δ α β : Type} {s : Session}

theorem run_orFail (r : Except ε α) (s : Session) :
    (orFail r : Action ε α).run s = (.ofError r, s) := rfl

theorem run_map_ok {m : Action ε α} (g : α → β) {s' : Session} {a : α}
    (h : m.run s = (.ok a, s')) : (g <$> m).run s = (.ok (g a), s') := by
  rw [← bind_pure_comp, bind_ok _ h]
  rfl

theorem run_settle_ok {m : Action ε α} {s' : Session} {a : α} (h : m.run s = (.ok a, s')) :
    (m.settle : Action δ (Except ε α)).run s = (.ok (.ok a), s') := by
  unfold settle
  show ((.ofFault (m.run s).1.settle, (m.run s).2) : Attempt δ (Except ε α) × Session) = _
  rw [h]
  rfl

theorem run_settle_error {m : Action ε α} {s' : Session} {x : ε}
    (h : m.run s = (.error (.error x), s')) :
    (m.settle : Action δ (Except ε α)).run s = (.ok (.error x), s') := by
  unfold settle
  show ((.ofFault (m.run s).1.settle, (m.run s).2) : Attempt δ (Except ε α) × Session) = _
  rw [h]
  rfl

end Action

namespace Session

variable {ε : Type} {s : Session} {t₀ : Table} {ids : List EntryId} {id scope : EntryId}

/-- A member whose receiver is in use is refused before its arguments are looked at. -/
theorem invokeWithin_of_inUse {e : Entry} {g : Function} {r : Receiver}
    (live : s.table.get? id = some e) (hg : e.function? = some g) (hr : g.receiver = some r)
    (inUse : r.object.id ∈ s.inUse) (depth : Nat) (args : List EntryId) :
    invokeWithin (depth + 1) id args s =
      (.error (.error (.reentrant r.member)), s.report (.reentrant r.member)) := by
  rw [invokeWithin_succ live hg]
  unfold apply withReceiver
  simp [hr, inUse, reported]

/-- A call with live arguments ends with an error that is reported, with a fresh temporary, or with
one of the arguments. -/
theorem invoke_cases (h : s.table.Sound) {e : Entry} {g : Function}
    (live : s.table.get? id = some e) (hg : e.function? = some g) (hp : g.PassesOn)
    {args : List EntryId} (hargs : ∀ a ∈ args, s.table.contains a = true) :
    (∃ x st, (invoke id args).run s = (.error (.error x), { s with store := st }.report x)) ∨
    (∃ v new t st, s.table.Gains new v t ∧
      (invoke id args).run s = (.ok new, { s with store := st, table := t })) ∨
    ∃ r st, r ∈ args ∧ (invoke id args).run s = (.ok r, { s with store := st }) := by
  obtain ⟨name, ps, f, hosts, hpass⟩ := hp
  by_cases ready : g.Ready s
  · have called : HostCall s name ps f args ((invoke id args).run s) :=
      hostCall_invokeWithin h live hg hosts ready hargs 9999
    rcases called.complete with hne | ⟨hlen, i, p, x, hfail⟩ | ⟨vs, hvs⟩
    · exact Or.inl ⟨_, s.store, called.wrongNumber hne⟩
    · exact Or.inl ⟨_, s.store, called.wrongArgument hlen i p x hfail⟩
    · cases hf : f vs s.store with
      | mk result st =>
        cases result with
        | error x => exact Or.inl ⟨x, st, called.error vs hvs x st hf⟩
        | ok returned =>
          cases returned with
          | scalar v =>
            obtain ⟨new, t, hgain, hrun⟩ := called.scalar vs hvs v st hf
            exact Or.inr (Or.inl ⟨v, new, t, st, hgain, hrun⟩)
          | entry r =>
            have hr : r ∈ args := hvs.mem_of_handles (hpass vs s.store r st hf)
            exact Or.inr (Or.inr ⟨r, st, hr, called.handle vs hvs r st hf⟩)
  · obtain ⟨r, hr, inUse⟩ : ∃ r, g.receiver = some r ∧ r.object.id ∈ s.inUse := by
      simpa [Function.Ready] using ready
    exact Or.inl ⟨_, s.store, invokeWithin_of_inUse live hg hr inUse 9999 args⟩

/-! ## Literals -/

/-- The temporaries among evaluated literals. -/
def temporaries (args : List Argument) : List EntryId :=
  args.filterMap fun
    | .temp id => some id
    | .entry _ => none

/-- The evaluated literals are the temporaries of the table and entries that had owners before. -/
structure Evaluated (t₀ : Table) (args : List Argument) (t : Table) : Prop where
  holding : t₀.Holding (temporaries args) t
  owned : ∀ id, .entry id ∈ args → t₀.Owned id

theorem run_lookupPath {found : Option EntryId} {path : String}
    (h : s.table.lookupPath? scope path = .ok found) :
    (ask (.lookupPath scope path) : Action ε (Option EntryId)).run s = (.ok found, s) := by
  rw [run_ask]
  simp [Request.answer, h, Except.map]

/-- A literal comes to a fresh temporary, or to an entry that has an owner. -/
theorem run_evalLiteral (h : s.table.Sound) {e : Entry} (live : s.table.get? scope = some e)
    (text : String) :
    (∃ v new t, s.table.Gains new v t ∧ (evalLiteral scope text : Action ε Argument).run s =
      (.ok (.temp new), { s with table := t })) ∨
    ∃ id, s.table.Owned id ∧
      (evalLiteral scope text : Action ε Argument).run s = (.ok (.entry id), s) := by
  have made : ∀ v, (tempArgument v : Action ε Argument).run s = (.ok (.temp
      (s.table.alloc (.temp v)).1), { s with table := (s.table.alloc (.temp v)).2 }) := fun v => rfl
  have temp {m : Action ε Argument} (v : Scalar) (hm : m.run s = (tempArgument v).run s) :
      ∃ v new t, s.table.Gains new v t ∧ m.run s = (.ok (.temp new), { s with table := t }) :=
    ⟨v, _, _, h.gains v, hm.trans (made v)⟩
  unfold evalLiteral
  cases Binary.ofBlankText? text with
  | some x => exact Or.inl (temp (.number x) rfl)
  | none =>
    cases unquote? text with
    | some inner => exact Or.inl (temp (.text inner) rfl)
    | none =>
      obtain ⟨found, hfound, howned⟩ := h.exists_lookupPath? live text
      have hrun := run_lookupPath (ε := ε) hfound
      cases found with
      | none => exact Or.inl (temp (.text text) (Action.bind_ok _ hrun))
      | some id =>
        by_cases htext : text = ""
        · refine Or.inl (temp (.text text) ((Action.bind_ok _ hrun).trans ?_))
          simp only [if_pos htext]
        · refine Or.inr ⟨id, ?_, (Action.bind_ok _ hrun).trans ?_⟩
          · rcases howned id rfl with ⟨_, hempty⟩ | howned
            · exact absurd hempty htext
            · exact howned
          · simp only [if_neg htext]
            rfl

theorem run_evalAll (h : t₀.Holding ids s.table) {e : Entry} (live : t₀.get? scope = some e)
    (texts : List String) :
    ∃ args t, (evalAll scope texts : Action ε (List Argument)).run s =
        (.ok args, { s with table := t }) ∧
      t₀.Holding (temporaries args ++ ids) t ∧ ∀ id, .entry id ∈ args → t₀.Owned id := by
  induction texts generalizing s ids with
  | nil => exact ⟨[], s.table, rfl, h, by simp⟩
  | cons text texts ih =>
    unfold evalAll
    rcases run_evalLiteral (ε := ε) h.sound (h.live live) text with
      ⟨v, new, t, hgain, hrun⟩ | ⟨id, howned, hrun⟩
    · obtain ⟨args, t', hrest, hholding, hentries⟩ := ih (s := { s with table := t }) (h.gain hgain)
      refine ⟨.temp new :: args, t', ?_, hholding.perm ?_, ?_⟩
      · rw [Action.bind_ok _ hrun, Action.bind_ok _ hrest]
        rfl
      · exact List.perm_middle
      · simpa using hentries
    · obtain ⟨args, t', hrest, hholding, hentries⟩ := ih h
      refine ⟨.entry id :: args, t', ?_, hholding, ?_⟩
      · rw [Action.bind_ok _ hrun, Action.bind_ok _ hrest]
        rfl
      · intro other hother
        rcases List.mem_cons.mp hother with heq | hother
        · obtain rfl : other = id := by simpa using heq
          exact h.owned howned
        · exact hentries other hother

theorem Evaluated.live {args : List Argument} {t : Table} (h : Evaluated t₀ args t) {id : EntryId}
    (hid : id ∈ args.map Argument.id) : t.contains id = true := by
  obtain ⟨argument, hmem, rfl⟩ := List.mem_map.mp hid
  cases argument with
  | temp id =>
    have hm : id ∈ temporaries args := List.mem_filterMap.mpr ⟨_, hmem, rfl⟩
    obtain ⟨v, hv⟩ := (h.holding.temp id hm).2
    exact Table.contains_iff.mpr ⟨_, hv⟩
  | entry id =>
    obtain ⟨e, _, live, _⟩ := h.owned id hmem
    exact Table.contains_iff.mpr ⟨e, h.holding.live live⟩

/-! ## Results -/

/-- A live entry can always be shown, or refuses with an error of its own. -/
theorem run_render (h : s.table.Sound) (hid : s.table.contains id = true) :
    ∃ shown, ((render id).settle : Action ε (Except EntryError String)).run s = (.ok shown, s) := by
  obtain ⟨e, live⟩ := Table.contains_iff.mp hid
  have hrender : (render id).run s =
      (if e.isScope then Attempt.ofFault (s.table.configText s.store id)
        else s.table.readText s.store id, s) := by
    show ((do
      let e ← s.table.liveEntry id
      if e.isScope then Attempt.ofFault (s.table.configText s.store id)
      else s.table.readText s.store id), s) = _
    rw [Table.liveEntry_eq_ok.mpr live]
    rfl
  cases hb : e.scope? with
  | some b =>
    obtain ⟨os, _, hlisting⟩ := h.listingOfContents s.store live hb
    have hscope : e.isScope = true := by simp [Entry.isScope, Table.scope?_eq_some hb]
    rw [if_pos hscope, Table.configText, hlisting] at hrender
    exact ⟨_, Action.run_settle_ok hrender⟩
  | none =>
    have hscope : e.isScope = false := by
      unfold Entry.scope? at hb
      unfold Entry.isScope
      cases hs : e.storage <;> simp_all
    rw [hscope, if_neg (by simp), Table.readText_of_live live] at hrender
    cases he : e.readText s.store with
    | ok text => exact ⟨_, Action.run_settle_ok (hrender.trans (by rw [he]; rfl))⟩
    | error x => exact ⟨_, Action.run_settle_error (hrender.trans (by rw [he]; rfl))⟩

theorem run_releaseIfTemporary {t : Table} {released : Bool}
    (h : (Table.releaseIfTemporary id : Edit Empty Bool).run s.table = (.ok released, t)) :
    (discard (ask (.releaseIfTemporary id)) : Action ε Unit).run s =
      (.ok (), { s with table := t }) := by
  have hrun : (ask (.releaseIfTemporary id) : Action ε Bool).run s =
      (.ok released, { s with table := t }) := by
    rw [run_ask]
    simp [Request.answer, Request.answer.done, h]
  exact (Action.bind_ok _ hrun).trans rfl

/-- A result that was passed on is shown and stays. -/
theorem run_takeResult_passed {args : List Argument} (h : Evaluated t₀ args s.table)
    (hid : id ∈ args.map Argument.id) :
    ∃ shown, (takeResult args id : Action ε (Except EntryError String)).run s = (.ok shown, s) := by
  obtain ⟨shown, hshown⟩ := run_render (ε := ε) h.holding.sound (h.live hid)
  refine ⟨shown, (Action.bind_ok _ hshown).trans ?_⟩
  by_cases hm : Argument.temp id ∈ args
  · simp only [hm, not_true_eq_false, if_false]
    rfl
  · obtain ⟨argument, hmem, rfl⟩ := List.mem_map.mp hid
    cases argument with
    | temp id => exact absurd hmem hm
    | entry id =>
      obtain ⟨e, owner, live, howner⟩ := h.owned id hmem
      have stays := h.holding.sound.releaseIfTemporary_owned (ε := Empty)
        ⟨e, owner, h.holding.live live, howner⟩
      have hrun := run_releaseIfTemporary (ε := ε) (s := s) stays
      simp only [Argument.id] at hm ⊢
      simp only [hm, not_false_eq_true, if_true]
      exact (Action.bind_ok _ hrun).trans rfl

/-- A temporary is shown as the text of its value. -/
theorem run_render_temp {v : Scalar} (hv : s.table.get? id = some (.temp v)) :
    ((render id).settle : Action ε (Except EntryError String)).run s = (.ok (.ok v.toText), s) := by
  have hscope : (Entry.temp v).isScope = false := by cases v <;> rfl
  have hread : (Entry.temp v).readText s.store = .ok v.toText := by cases v <;> rfl
  refine Action.run_settle_ok ?_
  show ((do
    let e ← s.table.liveEntry id
    if e.isScope then Attempt.ofFault (s.table.configText s.store id)
    else s.table.readText s.store id), s) = _
  simp only [Table.liveEntry_eq_ok.mpr hv, bind, Except.bind, hscope]
  rw [if_neg (by simp), Table.readText_of_live hv, hread]
  rfl

/-- A result that is a new temporary is shown and released. -/
theorem run_takeResult_fresh {args : List Argument}
    (h : t₀.Holding (id :: temporaries args) s.table) {v : Scalar}
    (hv : s.table.get? id = some (.temp v)) :
    ∃ t, (takeResult args id : Action ε (Except EntryError String)).run s =
      (.ok (.ok v.toText), { s with table := t }) ∧ t₀.Holding (temporaries args) t := by
  have hm : Argument.temp id ∉ args := by
    intro hm
    exact (List.nodup_cons.mp h.nodup).1 (List.mem_filterMap.mpr ⟨_, hm, rfl⟩)
  have hrun := run_releaseIfTemporary (ε := ε) (h.releaseIfTemporary List.mem_cons_self)
  have hafter := h.vacate List.mem_cons_self
  rw [List.erase_cons_head] at hafter
  refine ⟨s.table.vacate id, (Action.bind_ok _ (run_render_temp hv)).trans ?_, hafter⟩
  simp only [hm, not_false_eq_true, if_true]
  exact (Action.bind_ok _ hrun).trans rfl

theorem run_releaseAll {args : List Argument} (h : t₀.Holding (temporaries args) s.table) :
    ∃ t, (releaseAll args : Action ε Unit).run s = (.ok (), { s with table := t }) ∧
      t₀.Holding [] t := by
  induction args generalizing s with
  | nil => exact ⟨s.table, rfl, h⟩
  | cons argument args ih =>
    cases argument with
    | entry id => exact ih h
    | temp id =>
      have h : t₀.Holding (id :: temporaries args) s.table := h
      have hrun := run_releaseIfTemporary (ε := ε) (h.releaseIfTemporary List.mem_cons_self)
      have hafter := h.vacate List.mem_cons_self
      rw [List.erase_cons_head] at hafter
      obtain ⟨t, hrest, hdone⟩ := ih (s := { s with table := s.table.vacate id }) hafter
      exact ⟨t, (Action.bind_ok _ hrun).trans hrest, hdone⟩

/-! ## From the evaluated arguments on -/

/-- The end of a call: the arguments are released, and what was to be shown is shown. -/
def closing (args : List Argument) (shown : Except ScriptError String) :
    Action ScriptError String := do
  releaseAll args
  .orFail shown

/-- A call whose arguments have been evaluated. -/
def callWith (f : EntryId) (args : List Argument) : Action ScriptError String := do
  let outcome ← (invoke f (args.map Argument.id)).settle
  let shown : Except ScriptError String ← match outcome with
    | .error error => pure (.error (.call error))
    | .ok result => Except.mapError .entry <$> takeResult args result
  closing args shown

section CallWith

variable {f : EntryId} {args : List Argument} {s' s'' : Session}

theorem run_closing (h : t₀.Holding (temporaries args) s.table)
    (shown : Except ScriptError String) :
    ∃ t, (closing args shown).run s = (.ofError shown, { s with table := t }) ∧
      t₀.Holding [] t := by
  obtain ⟨t, hrelease, hdone⟩ := run_releaseAll (ε := ScriptError) h
  exact ⟨t, (Action.bind_ok _ hrelease).trans (Action.run_orFail shown _), hdone⟩

theorem run_callWith_error {x : CallError}
    (hrun : (invoke f (args.map Argument.id)).run s = (.error (.error x), s')) :
    (callWith f args).run s = (closing args (.error (.call x))).run s' :=
  Action.bind_ok _ (Action.run_settle_error hrun)

theorem run_callWith_ok {result : EntryId} {shown : Except EntryError String}
    (hrun : (invoke f (args.map Argument.id)).run s = (.ok result, s'))
    (htake : (takeResult args result : Action ScriptError (Except EntryError String)).run s' =
      (.ok shown, s'')) :
    (callWith f args).run s = (closing args (shown.mapError .entry)).run s'' :=
  (Action.bind_ok _ (Action.run_settle_ok hrun)).trans
    (Action.bind_ok _ (Action.run_map_ok _ htake))

theorem run_liveEntry {e : Entry} (live : s.table.get? id = some e) :
    (Action.reading (fun s => s.table.liveEntry id) : Action ε Entry).run s = (.ok e, s) := by
  show ((s.table.liveEntry id : Attempt ε Entry), s) = _
  rw [Table.liveEntry_eq_ok.mpr live]

variable {path : String} {literals : List String} {e : Entry}

theorem run_callPath_unknown (hlookup : s.table.lookupPath? scope path = .ok none) :
    (callPath scope path literals).run s = (.error (.error (.unknownEntry path)), s) :=
  (Action.bind_ok _ (run_lookupPath hlookup)).trans rfl

theorem run_callPath_notAFunction (hlookup : s.table.lookupPath? scope path = .ok (some f))
    (live : s.table.get? f = some e) (hfunction : e.isFunction = false) :
    (callPath scope path literals).run s = (.error (.error (.notAFunction path)), s) := by
  refine (Action.bind_ok _ (run_lookupPath hlookup)).trans ?_
  refine (Action.bind_ok _ (run_liveEntry live)).trans ?_
  simp only [hfunction]
  rfl

/-- A call by a path that leads to a function evaluates the literals and goes on from there. -/
theorem run_callPath (hlookup : s.table.lookupPath? scope path = .ok (some f))
    (live : s.table.get? f = some e) (hfunction : e.isFunction = true)
    (hargs : (evalAll scope literals : Action ScriptError (List Argument)).run s =
      (.ok args, s')) :
    (callPath scope path literals).run s = (callWith f args).run s' := by
  refine (Action.bind_ok _ (run_lookupPath hlookup)).trans ?_
  refine (Action.bind_ok _ (run_liveEntry live)).trans ?_
  simp only [hfunction]
  exact Action.bind_ok _ hargs

end CallWith

/-! ## The whole call -/

/-- All entries are as they were, and no call is left running. The free list has the slots that
were free, in some order, and those by which the table has grown. A failed call has told the channel
its message. -/
structure Undisturbed (s : Session) (after : Attempt ScriptError String × Session) : Prop where
  entries : ∀ id, after.2.table.get? id = s.table.get? id
  size : after.2.table.size = s.table.size
  free : ∃ n, after.2.table.slots.size = s.table.slots.size + n ∧ after.2.table.free.Perm
    (s.table.free ++ (List.range n).map fun i => ⟨s.table.slots.size + i⟩)
  sound : after.2.table.Sound
  inUse : after.2.inUse = s.inUse
  objectCount : after.2.objectCount = s.objectCount
  channel : after.2.channel = match after.1 with
    | .error (.error (.call x)) => s.channel.report x.message
    | _ => s.channel

/-- A session that holds no temporaries any more. -/
theorem undisturbed_of_holding (h : s.table.SlotsOk) {t : Table} (ht : s.table.Holding [] t)
    (st : Store) (c : Channel) {outcome : Attempt ScriptError String}
    (hc : c = match outcome with
      | .error (.error (.call x)) => s.channel.report x.message
      | _ => s.channel) :
    Undisturbed s (outcome, { s with table := t, store := st, channel := c }) where
  entries := fun id => ht.same id List.not_mem_nil
  size := ht.size_eq h
  free := by
    refine ⟨t.slots.size - s.table.slots.size, ?_, ht.free_perm h⟩
    have := ht.grown
    show t.slots.size = _
    omega
  sound := ht.sound
  inUse := rfl
  objectCount := rfl
  channel := hc

/-- At the end of a call the session holds no temporaries any more. -/
theorem closing_leaves_undisturbed (h : s.table.SlotsOk) {args : List Argument} {t : Table}
    (ht : s.table.Holding (temporaries args) t) (st : Store) (c : Channel)
    (shown : Except ScriptError String)
    (hc : c = match shown with
      | .error (.call x) => s.channel.report x.message
      | _ => s.channel) :
    let after := (closing args shown).run { s with table := t, store := st, channel := c }
    (∀ x, after.1 ≠ .error (.fault x)) ∧ Undisturbed s after := by
  obtain ⟨t', hrun, hdone⟩ := run_closing
    (s := { s with table := t, store := st, channel := c }) ht shown
  rw [hrun]
  refine ⟨?_, undisturbed_of_holding h hdone st c ?_⟩
  · intro x
    cases shown <;> simp [Attempt.ofError]
  · rw [hc]
    cases shown with
    | ok text => rfl
    | error x => cases x <;> rfl

/-- Whatever becomes of the call, the arguments are released. -/
theorem callWith_leaves_undisturbed {f : EntryId} {e : Entry} {g : Function}
    {args : List Argument} (h : s.table.Sound) {t : Table} (evaluated : Evaluated s.table args t)
    (live : s.table.get? f = some e) (hg : e.function? = some g) (hp : g.PassesOn) :
    let after := (callWith f args).run { s with table := t }
    (∀ x, after.1 ≠ .error (.fault x)) ∧ Undisturbed s after := by
  have hargs : ∀ a ∈ args.map Argument.id, t.contains a = true := fun a ha => evaluated.live ha
  rcases invoke_cases (s := { s with table := t }) evaluated.holding.sound
    (evaluated.holding.live live) hg hp hargs with
    ⟨x, st, hrun⟩ | ⟨v, new, t', st, hgain, hrun⟩ | ⟨r, st, hr, hrun⟩
  · rw [run_callWith_error hrun]
    exact closing_leaves_undisturbed h.slots evaluated.holding st (s.channel.report x.message)
      (.error (.call x)) rfl
  · obtain ⟨t'', htake, hholding⟩ := run_takeResult_fresh (ε := ScriptError)
      (s := { s with table := t', store := st }) (evaluated.holding.gain hgain) hgain.holds
    rw [run_callWith_ok hrun htake]
    exact closing_leaves_undisturbed h.slots hholding st s.channel (.ok v.toText) rfl
  · obtain ⟨shown, htake⟩ := run_takeResult_passed (ε := ScriptError)
      (s := { s with table := t, store := st }) evaluated hr
    rw [run_callWith_ok hrun htake]
    exact closing_leaves_undisturbed h.slots evaluated.holding st s.channel
      (shown.mapError .entry) (by cases shown <;> rfl)

theorem undisturbed_refl (h : s.table.Sound) {x : ScriptError} (hx : ∀ y, x ≠ .call y) :
    Undisturbed s (.error (.error x), s) := by
  refine undisturbed_of_holding h.slots h.holding s.store s.channel ?_
  cases x with
  | call y => exact absurd rfl (hx y)
  | _ => rfl

theorem isFunction_of_function? {e : Entry} {g : Function} (h : e.function? = some g) :
    e.isFunction = true := by
  unfold Entry.function? at h
  unfold Entry.isFunction
  cases hs : e.storage <;> simp_all

theorem function?_of_isFunction {e : Entry} (h : e.isFunction = true) :
    ∃ g, e.function? = some g := by
  unfold Entry.isFunction at h
  unfold Entry.function?
  cases hs : e.storage <;> simp_all

/-- A call from a script of a function that works on values, and answers with a value or with a
handle that it was given, ends without a fault and leaves the table undisturbed, whether it
succeeds or not. -/
theorem call_leaves_table_undisturbed (h : s.table.Reachable)
    (hscope : s.table.contains scope = true) (path : String) (literals : List String)
    (hf : ∀ f e g, s.table.lookupPath? scope path = .ok (some f) → s.table.get? f = some e →
      e.function? = some g → g.PassesOn) :
    (∀ x, ((callPath scope path literals).run s).1 ≠ .error (.fault x)) ∧
      Undisturbed s ((callPath scope path literals).run s) := by
  have sound := h.sound
  obtain ⟨escope, liveScope⟩ := Table.contains_iff.mp hscope
  obtain ⟨found, hfound, howned⟩ := sound.exists_lookupPath? liveScope path
  -- an error that comes before the call
  have early {x : ScriptError} (hx : ∀ y, x ≠ .call y)
      (hrun : (callPath scope path literals).run s = (.error (.error x), s)) :
      (∀ y, ((callPath scope path literals).run s).1 ≠ .error (.fault y)) ∧
        Undisturbed s ((callPath scope path literals).run s) := by
    rw [hrun]
    exact ⟨by simp, undisturbed_refl sound hx⟩
  cases found with
  | none => exact early (by simp) (run_callPath_unknown hfound)
  | some f =>
    obtain ⟨e, live⟩ : ∃ e, s.table.get? f = some e := by
      rcases howned f rfl with ⟨rfl, _⟩ | ⟨e, _, live, _⟩
      · exact ⟨escope, liveScope⟩
      · exact ⟨e, live⟩
    cases hfun : e.isFunction with
    | false => exact early (by simp) (run_callPath_notAFunction hfound live hfun)
    | true =>
      obtain ⟨g, hg⟩ := function?_of_isFunction hfun
      obtain ⟨args, t, hargs, hholding, hentries⟩ :=
        run_evalAll (ε := ScriptError) sound.holding liveScope literals
      rw [List.append_nil] at hholding
      rw [run_callPath hfound live hfun hargs]
      exact callWith_leaves_undisturbed sound ⟨hholding, hentries⟩ live hg (hf f e g hfound live hg)

/-- A call with a literal and a setting as arguments. It answers with the first of them, a temporary
of its own. -/
theorem call_of_own_literal_leaves_table_undisturbed :
    let s := (fresh "root" "").after
      [.define Table.root "first" (Stock.first "first") "" true,
        .ask (.register Table.root "depth" "" .number)]
    Undisturbed s ((callPath Table.root "first" ["\"x\"", "depth"]).run s) := by
  intro s
  have h : s.table.Reachable := ⟨"root", "", _, rfl⟩
  refine (call_leaves_table_undisturbed h (by decide +kernel) "first" ["\"x\"", "depth"] ?_).2
  intro f e g hfound live hg
  have hlookup : s.table.lookupPath? Table.root "first" = .ok (some ⟨1⟩) := by decide +kernel
  obtain rfl : ⟨1⟩ = f := by simpa [hlookup] using hfound
  have hfirst : (s.table.get? ⟨1⟩).bind Entry.function? = some (Stock.first "first") := rfl
  obtain rfl : Stock.first "first" = g := by simpa [live, hg] using hfirst.symm
  refine ⟨"first", [.entry, .entry], _, .free _, ?_⟩
  rintro ⟨a, _, ⟨⟩⟩ st r st' hr
  have hsame : (Except.ok (.entry a) : Except CallError Returned) = .ok (.entry r) :=
    congrArg Prod.fst hr
  obtain rfl : a = r := Returned.entry.inj (Except.ok.inj hsame)
  exact List.mem_cons_self

/-- The slots that the temporaries of a call were in are free after it, also those that the table
did not have before. -/
theorem call_can_lengthen_free_list :
    let s := (fresh "root" "").after [.define Table.root "first" (Stock.first "first") "" true]
    let after := (callPath Table.root "first" ["\"x\"", "\"y\""]).run s
    after.1 = .ok "x" ∧ s.table.free = [] ∧ after.2.table.free = [⟨3⟩, ⟨2⟩] := by
  decide +kernel

end Session

end Settings

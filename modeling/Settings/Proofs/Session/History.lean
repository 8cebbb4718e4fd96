import Settings.Proofs.Session.CallTrees
import Settings.Proofs.Table.Moments

/-!
# The moments of a run

`Session.moments` follows a run of operations and gives all tables that it goes through, those
inside of the operations among them: between two children that are copied or freed, and between two
steps of a body, in calls nested to any depth. From each moment to the next there is one tick, and
the row of them leads from the table before the run to the one after it (`Session.leads_moments`),
be it that operations fail or end in a fault on the way.

A request that takes or frees many slots has the moments of its edit (`Request.way`), and all others
are a single tick.
-/

set_option autoImplicit false

namespace Settings

/-! ## One step -/

namespace Table

variable {t t' : Table} {s s' : Store} {P : EntryId → Prop} {id scope : EntryId}

theorem Writes.sameSlots (hw : t.Writes s P t' s') : t.SameSlots t' := by
  cases hw with
  | same => exact ⟨rfl, rfl⟩
  | entry => exact .set ⟨rfl, rfl⟩ _ _

theorem Attached.sameSlots (ha : t.Attached scope id t') : t.SameSlots t' := by
  obtain ⟨e, p, b, _, _, _, _, _, _, _, _, rfl⟩ := ha
  exact (SameSlots.update t id _).trans (.update _ scope _)

theorem Renamed.sameSlots {name : String} (hr : t.Renamed id name t') : t.SameSlots t' := by
  obtain ⟨e, _, _, ⟨_, rfl⟩ | ⟨_, u, hu, rfl⟩⟩ := hr
  · exact ⟨rfl, rfl⟩
  · exact SameSlots.trans ⟨hu.free, hu.size_slots⟩ (.update u id _)

theorem Released.ticks (hr : t.Released id t') : t.Tick t' := by
  obtain ⟨e, _, _, rfl⟩ := hr
  exact .vacate t id

theorem tick_define (h : t.SlotsOk) (scope : EntryId) (name : String) (f : Function)
    (description : String) (builtin : Bool) :
    t.Tick ((define scope name f description builtin).run t).2 :=
  (insert_atomic h scope _ builtin).keeps (.refl t) fun _ _ => Inserted.ticks

end Table

namespace Request

variable {t t' : Table} {s s' : Store}

/-- The tables that a request goes through on the way to its answer. Most take one step. -/
def way : (r : Request) → r.Reply → Table → List Table
  | .clone id, _, t => Table.cloneMoments Empty (t.slots.size + 1) none id t
  | .remove id, .ok _, t => Table.removeMoments id t
  | _, _, t => [t]

/-- The tables that a request goes through. One that is not answered has done nothing. -/
def moments (r : Request) (t : Table) (s : Store) : List Table :=
  match r.answer t s with
  | .ok (reply, t', _) => r.way reply t ++ [t']
  | .error _ => [t]

theorem leads_of_tick (h : t.Tick t') : t.Leads ([t] ++ [t']) t' := .of_tick h

/-- It brings entries in or takes entries out. -/
def movesEntries : Request → Bool
  | .makeTemp _ | .release _ | .releaseIfTemporary _ | .clone _ | .remove _ | .register .. => true
  | _ => false

theorem sameSlots_answer {r : Request} (hmoves : r.movesEntries = false) {reply : r.Reply}
    (hr : r.answer t s = .ok (reply, t', s')) : t.SameSlots t' := by
  cases r with
  | size | contains =>
    obtain ⟨_, rfl, _⟩ := Prod.mk.injEq .. ▸ Except.ok.inj hr
    exact ⟨rfl, rfl⟩
  | find | lookup | lookupPath | readNumber | readText | snapshot | convert =>
    obtain rfl := (map_eq_ok hr).2.1
    exact ⟨rfl, rfl⟩
  | writeNumber id x =>
    exact (writes_replied (P := fun _ => True) trivial (Entry.revalued_writeNumber x) hr).sameSlots
  | writeText id text =>
    exact (writes_replied (P := fun _ => True) trivial (Entry.revalued_writeText text) hr).sameSlots
  | assign id value =>
    have hw := Table.writes_tryOn (P := fun _ => True) trivial (Entry.revalued_assign value) hr
    exact hw.sameSlots
  | copy target source => exact (Table.writes_copy (P := fun _ => True) trivial hr).sameSlots
  | edit id change =>
    obtain ⟨e, _, rfl⟩ := edit_eq_ok hr
    exact .set ⟨rfl, rfl⟩ _ _
  | updateDefault id => exact Table.sameSlots_updateDefault (done_eq_ok hr).1
  | attach scope id =>
    have hsame := (Table.attach_atomic t scope id).keeps (I := t.SameSlots) ⟨rfl, rfl⟩
      fun _ _ => Table.Attached.sameSlots
    rwa [(edited_eq_ok hr).1] at hsame
  | rename id name =>
    have hsame := (Table.rename_atomic t id name).keeps (I := t.SameSlots) ⟨rfl, rfl⟩
      fun _ _ => Table.Renamed.sameSlots
    rwa [(edited_eq_ok hr).1] at hsame
  | makeTemp | release | releaseIfTemporary | clone | remove | register =>
    exact absurd hmoves (by simp [movesEntries])

theorem leads_way (h : t.Sound) {r : Request} {reply : r.Reply}
    (hr : r.answer t s = .ok (reply, t', s')) : t.Leads (r.way reply t ++ [t']) t' := by
  have unchanged : t' = t → t.Leads ([t] ++ [t']) t' := by
    rintro rfl
    exact leads_of_tick (.refl _)
  cases r with
  | makeTemp value =>
    obtain ⟨-, rfl, -⟩ := makeTemp_eq_ok hr
    exact leads_of_tick (.alloc t _)
  | release id =>
    have htick := (Table.release_atomic h id).keeps (I := t.Tick) (.refl t)
      fun _ _ => Table.Released.ticks
    rw [(edited_eq_ok hr).1] at htick
    exact leads_of_tick htick
  | releaseIfTemporary id =>
    rcases (releaseIfTemporary_eq_ok h hr).2 with ⟨_, hsame⟩ | ⟨_, hreleased⟩
    · exact unchanged hsame
    · exact leads_of_tick hreleased.ticks
  | clone id =>
    have hrun := (done_eq_ok hr).1
    have hmoments := Table.leads_cloneMoments (ε := Empty) (t.slots.size + 1) none id t
    have hclone : (Table.cloneWithin (t.slots.size + 1) none id : Edit Empty EntryId).run t =
      (.ok reply, t') := (Edit.look_bind_ok _ t rfl).symm.trans hrun
    rw [hclone] at hmoments
    exact hmoments.append (.refl t') (.stay t')
  | remove id =>
    cases reply with
    | error e =>
      have hsame := (edited_refused (Table.remove_atomic h id) hr (by rfl)).1
      exact unchanged hsame
    | ok _ =>
      exact (Table.leads_removeMoments (edited_eq_ok hr).1).append (.refl t') (.stay t')
  | register scope name description content =>
    rcases register_eq_ok h.slots hr with ⟨_, hsame, _⟩ | ⟨id, _, _, hi⟩
    · exact unchanged hsame
    · exact leads_of_tick hi.ticks
  | _ => exact leads_of_tick (.still (sameSlots_answer rfl hr))

theorem leads_moments (h : t.Sound) {r : Request} {reply : r.Reply}
    (hr : r.answer t s = .ok (reply, t', s')) : t.Leads (r.moments t s) t' := by
  unfold moments
  rw [hr]
  exact leads_way h hr

theorem moments_of_error {r : Request} {x : Fault} (hr : r.answer t s = .error x) :
    r.moments t s = [t] := by
  unfold moments
  rw [hr]

end Request

/-! ## Calls -/

namespace Session

/-- The tables that a body goes through; `within` tells those that the calls in it go through. -/
def bodyMoments (call : EntryId → List EntryId → Session → CallOutcome)
    (within : EntryId → List EntryId → Session → List Table) : Body → Session → List Table
  | .done _, s => [s.table]
  | .ask r next, s =>
      r.moments s.table s.store ++ match r.answer s.table s.store with
        | .ok (reply, t, st) =>
            bodyMoments call within (next reply) { s with table := t, store := st }
        | .error _ => []
  | .invoke f args next, s =>
      within f args s ++ match call f args s with
        | (.ok id, s) => bodyMoments call within (next (.ok id)) s
        | (.error (.error e), s) => bodyMoments call within (next (.error e)) s
        | (.error (.fault _), _) => []
  | .define scope name f description builtin next, s =>
      s.table :: match (Table.define scope name f description builtin).run s.table with
        | (.ok id, t) => bodyMoments call within (next (.ok id)) { s with table := t }
        | (.error (.error e), t) => bodyMoments call within (next (.error e)) { s with table := t }
        | (.error (.fault _), t) => [t]
  | .inspect next, s => bodyMoments call within (next s.store) s
  | .update change next, s => bodyMoments call within next { s with store := change s.store }

/-- The tables that applying a function goes through. -/
def applyMoments (call : EntryId → List EntryId → Session → CallOutcome)
    (within : EntryId → List EntryId → Session → List Table) (g : Function) (args : List EntryId)
    (s : Session) : List Table :=
  if g.enters s then bodyMoments call within (g.call args) (s.holding g.receiver) else [s.table]

/-- The tables that a call goes through, with calls nested at most `depth` deep. -/
def callMoments : (depth : Nat) → EntryId → List EntryId → Session → List Table
  | 0, _, _, s => [s.table]
  | depth + 1, id, args, s =>
      match (s.table.get? id).bind Entry.function? with
      | none => [s.table]
      | some g => applyMoments (invokeWithin depth) (callMoments depth) g args s

/-- Calls keep tables sound, and go through moments that lead to where they end. -/
def CallsLead (call : EntryId → List EntryId → Session → CallOutcome)
    (within : EntryId → List EntryId → Session → List Table) : Prop :=
  ∀ id args s, s.table.Sound → (call id args s).2.table.Sound ∧
    s.table.Leads (within id args s) (call id args s).2.table

variable {call : EntryId → List EntryId → Session → CallOutcome}
  {within : EntryId → List EntryId → Session → List Table} {s : Session}

theorem leads_bodyMoments (hcall : CallsLead call within) (body : Body) (h : s.table.Sound) :
    s.table.Leads (bodyMoments call within body s) (runBody call body s).2.table := by
  fun_induction runBody call body s with
  | case1 outcome s => exact .stay s.table
  | case2 r next s reply t st hr ih =>
    simp only [bodyMoments, hr]
    exact (Request.leads_moments h hr).append (.refl t) (ih (Request.sound_answer h hr))
  | case3 r next s x hr =>
    simp only [bodyMoments, hr, Request.moments_of_error hr]
    exact .stay s.table
  | case4 f args next s id s' hr ih | case5 f args next s e s' hr ih =>
    obtain ⟨hsound, hleads⟩ := hcall f args s h
    rw [hr] at hsound hleads
    simp only [bodyMoments, hr]
    exact hleads.append (.refl s'.table) (ih hsound)
  | case6 f args next s x s' hr =>
    have hleads := (hcall f args s h).2
    rw [hr] at hleads
    simp only [bodyMoments, hr, List.append_nil]
    exact hleads
  | case7 scope name f description builtin next s t id hr ih
  | case8 scope name f description builtin next s t e hr ih =>
    have htick := Table.tick_define h.slots scope name f description builtin
    have hsound := h.define scope name f description builtin
    rw [hr] at htick hsound
    simp only [bodyMoments, hr]
    exact .tick htick (ih hsound)
  | case9 scope name f description builtin next s t x hr =>
    have htick := Table.tick_define h.slots scope name f description builtin
    rw [hr] at htick
    simp only [bodyMoments, hr]
    exact .of_tick htick
  | case10 next s ih =>
    simp only [bodyMoments]
    exact ih h
  | case11 change next s ih =>
    simp only [bodyMoments]
    exact ih h

theorem leads_applyMoments (hcall : CallsLead call within) (g : Function) (args : List EntryId)
    (h : s.table.Sound) :
    s.table.Leads (applyMoments call within g args s) (apply call g args s).2.table := by
  unfold applyMoments
  cases he : g.enters s with
  | true =>
    rw [apply_of_enters he, if_pos rfl, table_releasing]
    have hleads := leads_bodyMoments hcall (g.call args) (s := s.holding g.receiver)
      (by rwa [table_holding])
    rwa [table_holding] at hleads
  | false =>
    rw [if_neg (by simp)]
    obtain ⟨r, hr, hused | ⟨_, hfault⟩⟩ := apply_of_not_enters he call args
    · rw [apply_of_inUse hr hused]
      exact .stay s.table
    · rw [hfault]
      exact .stay s.table

theorem callsLead (depth : Nat) : CallsLead (invokeWithin depth) (callMoments depth) := by
  refine fun id args s h => ⟨Table.kept_sound.invokeWithin depth id args s h, ?_⟩
  induction depth generalizing id args s with
  | zero => exact .stay s.table
  | succ depth ih =>
    unfold callMoments
    cases live : s.table.get? id with
    | none =>
      unfold invokeWithin
      rw [Table.entry_eq_error live]
      exact .stay s.table
    | some e =>
      rw [Option.bind_some]
      cases hf : e.function? with
      | none =>
        unfold invokeWithin
        rw [Table.entry_eq_ok.mpr live]
        simp only [hf]
        exact .stay s.table
      | some g =>
        rw [invokeWithin_succ live hf, Table.Kept.table_reported]
        exact leads_applyMoments
          (fun id args s h => ⟨Table.kept_sound.invokeWithin depth id args s h, ih id args s h⟩)
          g args h

end Session

/-! ## Runs -/

/-- The tables that an operation goes through. -/
def Operation.moments : Operation → Session → List Table
  | .ask r, s => r.moments s.table s.store
  | .invoke f args, s => Session.callMoments Session.callDepthLimit f args s
  | .callMember m o args, s =>
      Session.applyMoments (Session.invokeWithin Session.callDepthLimit)
        (Session.callMoments Session.callDepthLimit) (m.onObject o) args s
  | .define scope name f description builtin, s =>
      [s.table, ((Operation.define scope name f description builtin).run s).table]
  | .copyLive target source, s =>
      [s.table, ((Operation.copyLive target source).run s).table]
  | .newObject _, s | .change _, s | .setChannel _, s => [s.table]

/-- The tables that a run of operations goes through, from the table before the first of them on. -/
def Session.moments (s : Session) : List Operation → List Table
  | [] => [s.table]
  | op :: ops => op.moments s ++ (op.run s).moments ops

theorem Operation.leads_moments (op : Operation) {s : Session} (h : s.table.Sound) :
    s.table.Leads (op.moments s) (op.run s).table := by
  cases op with
  | ask r =>
    show s.table.Leads (r.moments s.table s.store)
      ((Session.ask r : Action Empty r.Reply).run s).2.table
    rw [Session.run_ask]
    cases hr : r.answer s.table s.store with
    | error x =>
      rw [Request.moments_of_error hr]
      exact .stay s.table
    | ok answer => exact Request.leads_moments h hr
  | define scope name f description builtin =>
    exact .of_tick (Table.tick_define h.slots scope name f description builtin)
  | copyLive target source =>
    refine .of_tick ?_
    rcases Session.copyLive_cases target source s with hsame | ⟨done, t, st, hcopy, hrun⟩
    · rw [hsame]
      exact .refl s.table
    · rw [hrun]
      exact .still (Table.writes_copyLive (P := fun _ => True) trivial hcopy).sameSlots
  | invoke f args => exact (Session.callsLead _ f args s h).2
  | callMember m o args => exact Session.leads_applyMoments (Session.callsLead _) _ args h
  | newObject | change | setChannel => exact .stay s.table

theorem Session.leads_moments (ops : List Operation) {s : Session} (h : s.table.Sound) :
    s.table.Leads (s.moments ops) (s.after ops).table := by
  induction ops generalizing s with
  | nil => exact .stay s.table
  | cons op ops ih =>
    exact (op.leads_moments h).append (.refl _) (ih (Table.kept_sound.run op s h))

end Settings

import Settings.Binding.Catalogue
import Settings.Proofs.Session.Requests

/-!
# Runs

A host works on a session by one `Operation` after the other: requests, registrations of functions,
calls, and whatever it does to its own variables in between. Nothing is promised of the operations.
Their handles may be stale or never have been given out, the bodies that they run are any bodies at
all, and they may fail; an operation that fails leaves a session too, and the run goes on from that.

What no single step breaks holds after every run. `Table.Kept` collects what has to be shown of the
steps, and `Kept.after` is the induction, over the bodies of functions, over how deep calls are
nested and over the operations.
-/

set_option autoImplicit false

namespace Settings

/-- One thing that a host does to a session. -/
inductive Operation where
  | ask (request : Request)
  | define (scope : EntryId) (name : String) (function : Function) (description : String)
      (builtin : Bool)
  /-- Copies a value between two entries that the host has in hand. -/
  | copyLive (target source : EntryId)
  | invoke (function : EntryId) (args : List EntryId)
  | callMember (member : Member) (object : Object) (args : List EntryId)
  | newObject (type : ObjectType)
  /-- Changes the host variables. -/
  | change (change : Store → Store)
  | setChannel (channel : Channel)

/-- The session after an operation, however it ended. -/
def Operation.run : Operation → Session → Session
  | .ask r, s => ((Session.ask r : Action Empty r.Reply).run s).2
  | .define scope name f description builtin, s =>
      ((Session.define scope name f description builtin).run s).2
  | .copyLive target source, s =>
      match s.table.copyLive s.store target source with
      | .ok (_, t, st) => { s with table := t, store := st }
      | .error _ => s
  | .invoke f args, s => ((Session.invoke f args).run s).2
  | .callMember m o args, s => ((Session.callMember m o args).run s).2
  | .newObject type, s => ((Session.newObject type : Action Empty Object).run s).2
  | .change f, s => { s with store := f s.store }
  | .setChannel c, s => { s with channel := c }

namespace Session

def fresh (name description : String) : Session := .ofTable (.withRoot name description)

def after (s : Session) (ops : List Operation) : Session := ops.foldl (fun s op => op.run s) s

theorem after_concat (s : Session) (ops : List Operation) (op : Operation) :
    s.after (ops ++ [op]) = op.run (s.after ops) := List.foldl_append

/-! ## One operation -/

/-- A request is answered, or leaves the session as it is. -/
theorem ask_cases (r : Request) (s : Session) : (Operation.ask r).run s = s ∨
    ∃ reply t st, r.answer s.table s.store = .ok (reply, t, st) ∧
      (Operation.ask r).run s = { s with table := t, store := st } := by
  have hrun : (Operation.ask r).run s = ((ask r : Action Empty r.Reply).run s).2 := rfl
  rw [hrun, run_ask]
  cases ha : r.answer s.table s.store with
  | error x => exact Or.inl rfl
  | ok answer =>
    obtain ⟨reply, t, st⟩ := answer
    exact Or.inr ⟨reply, t, st, rfl, rfl⟩

/-- A copy between two entries is made, or leaves the session as it is. -/
theorem copyLive_cases (target source : EntryId) (s : Session) :
    (Operation.copyLive target source).run s = s ∨ ∃ done t st,
      s.table.copyLive s.store target source = .ok (done, t, st) ∧
        (Operation.copyLive target source).run s = { s with table := t, store := st } := by
  simp only [Operation.run]
  cases hcopy : s.table.copyLive s.store target source with
  | error x => exact Or.inl rfl
  | ok result =>
    obtain ⟨done, t, st⟩ := result
    exact Or.inr ⟨done, t, st, rfl, rfl⟩

end Session

namespace Table

/-- The tables that a host can come to. -/
def Reachable (t : Table) : Prop :=
  ∃ name description ops, ((Session.fresh name description).after ops).table = t

/-! ## What every step keeps -/

/-- A property of tables that is not broken by the steps that change a table. -/
structure Kept (I : Table → Prop) : Prop where
  answered : ∀ {t t' : Table} {s s' : Store} {r : Request} {reply : r.Reply}, I t →
    r.answer t s = .ok (reply, t', s') → I t'
  defined : ∀ {t : Table} (scope : EntryId) (name : String) (f : Function) (description : String)
    (builtin : Bool), I t → I ((Table.define scope name f description builtin).run t).2
  copied : ∀ {t t' : Table} {s s' : Store} {target source : EntryId} {done : Bool}, I t →
    t.copyLive s target source = .ok (done, t', s') → I t'

namespace Kept

variable {I : Table → Prop}

theorem runBody (h : Kept I) {call : EntryId → List EntryId → Session → Session.CallOutcome}
    (hcall : ∀ id args s, I s.table → I (call id args s).2.table) :
    ∀ (body : Body) (s : Session), I s.table → I (Session.runBody call body s).2.table
  | .done _, _, hs => hs
  | .ask r next, s, hs => by
    unfold Session.runBody
    cases hr : r.answer s.table s.store with
    | error x => exact hs
    | ok answer =>
      obtain ⟨reply, t, st⟩ := answer
      exact runBody h hcall (next reply) _ (h.answered hs hr)
  | .invoke f args next, s, hs => by
    unfold Session.runBody
    have hc := hcall f args s hs
    rcases hr : call f args s with ⟨outcome, s'⟩
    rw [hr] at hc
    cases outcome with
    | ok id => exact runBody h hcall (next (.ok id)) s' hc
    | error x =>
      cases x with
      | error e => exact runBody h hcall (next (.error e)) s' hc
      | fault y => exact hc
  | .define scope name f description builtin next, s, hs => by
    unfold Session.runBody
    have hd := h.defined scope name f description builtin hs
    rcases hr : (Table.define scope name f description builtin).run s.table with ⟨outcome, t⟩
    rw [hr] at hd
    cases outcome with
    | ok id => exact runBody h hcall (next (.ok id)) _ hd
    | error x =>
      cases x with
      | error e => exact runBody h hcall (next (.error e)) _ hd
      | fault y => exact hd
  | .inspect next, s, hs => by
    unfold Session.runBody
    exact runBody h hcall (next s.store) s hs
  | .update change next, s, hs => by
    unfold Session.runBody
    exact runBody h hcall next _ hs

theorem apply (h : Kept I) {call : EntryId → List EntryId → Session → Session.CallOutcome}
    (hcall : ∀ id args s, I s.table → I (call id args s).2.table) (f : Function)
    (args : List EntryId) (s : Session) (hs : I s.table) :
    I (Session.apply call f args s).2.table := by
  unfold Session.apply Session.withReceiver
  split
  · exact h.runBody hcall _ s hs
  · split
    · exact hs
    · split
      · exact hs
      · exact h.runBody hcall _ _ hs

theorem table_reported (r : Session.CallOutcome) : (Session.reported r).2.table = r.2.table := by
  unfold Session.reported
  split <;> rfl

theorem invokeWithin (h : Kept I) (depth : Nat) (id : EntryId) (args : List EntryId) (s : Session)
    (hs : I s.table) : I (Session.invokeWithin depth id args s).2.table := by
  induction depth generalizing id args s with
  | zero => exact hs
  | succ depth ih =>
    unfold Session.invokeWithin
    split
    · exact hs
    · rw [table_reported]
      split
      · exact h.apply ih _ args s hs
      · exact hs

theorem run (h : Kept I) (op : Operation) (s : Session) (hs : I s.table) : I (op.run s).table := by
  cases op with
  | ask r =>
    show I ((Session.ask r : Action Empty r.Reply).run s).2.table
    rw [Session.run_ask]
    cases hr : r.answer s.table s.store with
    | error x => exact hs
    | ok answer => exact h.answered hs hr
  | define scope name f description builtin => exact h.defined scope name f description builtin hs
  | copyLive target source =>
    show I (match s.table.copyLive s.store target source with
      | .ok (_, t, st) => { s with table := t, store := st }
      | .error _ => s : Session).table
    cases hr : s.table.copyLive s.store target source with
    | error x => exact hs
    | ok answer => exact h.copied hs hr
  | invoke f args => exact h.invokeWithin _ f args s hs
  | callMember m o args => exact h.apply (h.invokeWithin _) (m.onObject o) args s hs
  | newObject type => exact hs
  | change f => exact hs
  | setChannel c => exact hs

/-- What no step breaks holds after every run. -/
theorem after (h : Kept I) (ops : List Operation) {s : Session} (hs : I s.table) :
    I (s.after ops).table := by
  induction ops generalizing s with
  | nil => exact hs
  | cons op ops ih => exact ih (h.run op s hs)

end Kept

/-! ## Soundness -/

theorem sound_withRoot (name description : String) : (withRoot name description).Sound := by
  have found : ∀ id e, (withRoot name description).get? id = some e →
      id = root ∧ e = .new name description (.scope (.empty "")) := by
    intro id e live
    have hlt := index_lt_of_get? live
    have hzero : id = root := EntryId.eq_of_index (Nat.lt_one_iff.mp hlt)
    subst hzero
    exact ⟨rfl, (Option.some.inj live).symm⟩
  refine
    ⟨⟨List.nodup_nil, fun id => ⟨fun hm => absurd hm (by simp [withRoot]), fun ⟨hlt, hn⟩ => ?_⟩⟩,
      ⟨_, _, rfl, rfl, rfl⟩, fun id e b live hb => ?_, fun id e owner live howner => ?_,
      fun id e live => ?_, fun id e live ht => ?_⟩
  · obtain rfl : id = root := EntryId.eq_of_index (Nat.lt_one_iff.mp hlt)
    exact absurd hn (by simp [get?, withRoot, root])
  · obtain ⟨rfl, rfl⟩ := found id e live
    obtain rfl := Option.some.inj hb
    exact .of_empty _ _ _
  · obtain ⟨rfl, rfl⟩ := found id e live
    exact absurd howner (by simp [Entry.new])
  · obtain ⟨rfl, rfl⟩ := found id e live
    exact ⟨0, .top live rfl⟩
  · obtain ⟨rfl, rfl⟩ := found id e live
    exact absurd ht (by simp [Entry.new])

theorem kept_sound : Kept Sound where
  answered := fun h hr => Request.sound_answer h hr
  defined := fun scope name f description builtin h => h.define scope name f description builtin
  copied := fun {t t' s s' target source done} h hr => by
    obtain ⟨e, -, htry⟩ := copyLive_eq_ok hr
    exact h.tryOn (Entry.frame_copyFrom e) htry

theorem Reachable.sound {t : Table} (h : t.Reachable) : t.Sound := by
  obtain ⟨name, description, ops, rfl⟩ := h
  exact kept_sound.after ops (sound_withRoot name description)

end Table

/-- After any run the owners, the lists, the indexes, the slots and the free list agree; the count
of entries is right; children of one scope have different names; and every way up ends. -/
theorem Session.sound_after_any_run (name description : String) (ops : List Operation) :
    let t := ((Session.fresh name description).after ops).table
    t.Sound ∧ t.free.length ≤ t.slots.size ∧ t.size = t.liveHandles.length ∧
      (∀ scope c d ec ed, t.Lists scope c → t.Lists scope d → t.get? c = some ec →
        t.get? d = some ed → ec.name = ed.name → c = d) ∧
      ∀ id e, t.get? id = some e → ∃ links, t.chain id = .ok links := by
  intro t
  have h : t.Sound := Table.Reachable.sound ⟨name, description, ops, rfl⟩
  have hcount := h.slots.free_length_add
  refine ⟨h, by omega, h.slots.size_eq, ?_, ?_⟩
  · intro scope c d ec ed hc hd lc ld hname
    obtain ⟨p, b, lp, hb, hcm⟩ := hc
    obtain ⟨p', b', lp', hb', hdm⟩ := hd
    obtain rfl := Option.mem_unique lp lp'
    obtain rfl := Option.mem_unique hb hb'
    -- the index finds one handle under the name that both have
    have scopeOk := h.scope scope p b lp hb
    have foundC := (scopeOk.find?_iff ec.name c).mpr ⟨hcm, ec, lc, rfl⟩
    have foundD := (scopeOk.find?_iff ec.name d).mpr ⟨hdm, ed, ld, hname.symm⟩
    exact Option.mem_unique foundC foundD
  · intro id e live
    obtain ⟨links, hchain, _⟩ := h.exists_chain live
    exact ⟨links, hchain⟩

end Settings

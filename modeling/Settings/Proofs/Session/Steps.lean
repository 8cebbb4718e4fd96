import Settings.Proofs.Session.LiveHandles
import Settings.Proofs.Table.Growth

/-!
# What one step can do to a table

Requests, registrations of functions and copies between two entries change a table in a few ways
only, and `Step` lists them: with the handles that the step was given, the entry that it may bring
in, and the table after it. Whatever no step breaks, and whatever a step leaves alone, is shown by
one case for each of these ways and not by one for each request.

`step_answer`, `step_define` and `step_copyLive` are the way from the library to `Step`.
-/

set_option autoImplicit false

namespace Settings

/-- The value and the header may be different. -/
structure Entry.Rewritten (e e' : Entry) : Prop where
  frame : e'.frame = e.frame
  storage : e'.storage.shape = e.storage.shape

theorem Entry.Revalued.rewritten {e e' : Entry} {s s' : Store} (h : e.Revalued s e' s') :
    e.Rewritten e' :=
  ⟨frame_eq_of_shape h.shape, storage_eq_of_shape h.shape⟩

namespace Table

variable {t t' : Table} {s s' : Store} {ids : List EntryId} {new : Option Entry}

/-- A step at the handles, which may bring in an entry, leads from one table to the other. -/
inductive Step (t : Table) (ids : List EntryId) (new : Option Entry) : Table → Prop
  | same : Step t ids new t
  | rewritten {id : EntryId} {e e' : Entry} (hid : id ∈ ids) (live : t.get? id = some e)
      (he : e.Rewritten e') : Step t ids new (t.set id e')
  | recorded {id : EntryId} {x : Tree} {t' : Table} (hid : id ∈ ids) (htree : t.tree id = .ok x)
      (s : Store) (found : ∀ y, t'.get? y =
        if y ∈ x.registered then (t.get? y).map fun e => e.recordDefault s else t.get? y) :
      Step t ids new t'
  | temp (value : Scalar) : Step t ids new (t.alloc (.temp value)).2
  | released {id : EntryId} {t' : Table} (hid : id ∈ ids) (h : t.Released id t') : Step t ids new t'
  | copied {id : EntryId} {f : EntryId → EntryId} {x : Tree} {t' : Table} (hid : id ∈ ids)
      (htree : t.tree id = .ok x) (h : Copied f x t t') : Step t ids new t'
  | attached {scope id : EntryId} {t' : Table} (hscope : scope ∈ ids) (hid : id ∈ ids)
      (h : t.Attached scope id t') : Step t ids new t'
  | renamed {id : EntryId} {name : String} {t' : Table} (hid : id ∈ ids)
      (h : t.Renamed id name t') : Step t ids new t'
  | removed {id : EntryId} {t' : Table} (hid : id ∈ ids) (h : t.Removed id t') : Step t ids new t'
  | inserted {scope id : EntryId} {e : Entry} {builtin : Bool} {t' : Table} (hscope : scope ∈ ids)
      (hnew : new = some e) (h : t.Inserted scope e builtin id t')
      (body : ∀ b, e.scope? = some b → ∃ s, b = .empty s)
      (function : builtin = true → e.isFunction = true) : Step t ids new t'

/-! ## Where entries come from -/

/-- Where an entry that is in the table after a step comes from: it was in its place before, with
the same storage but for a value of its own, or with other children; or its place was empty, and it
is a temporary, the copy of an entry at or under a handle of the step, or what was brought in. -/
inductive Origin (t : Table) (ids : List EntryId) (new : Option Entry) (t' : Table) (y : EntryId) :
    Entry → Prop
  | kept {e e' : Entry} (live : t.get? y = some e) (he : e'.storage.shape = e.storage.shape) :
      Origin t ids new t' y e'
  | scope {e e' : Entry} {b b' : ScopeBody} (live : t.get? y = some e) (hb : e.scope? = some b)
      (hb' : e'.scope? = some b') (builtins : ∀ c ∈ b'.builtins, c ∈ b.builtins ∨
        ∃ ec, t'.get? c = some ec ∧ ec.isFunction = true) : Origin t ids new t' y e'
  | temp (fresh : t.get? y = none) (value : Scalar) : Origin t ids new t' y (.temp value)
  | copy {id z : EntryId} {e : Entry} {f : EntryId → EntryId} {owner : Option EntryId}
      (fresh : t.get? y = none) (hid : id ∈ ids) (hz : t.Under id z) (live : t.get? z = some e)
      (children : ∀ c ∈ e.children, ∃ ec owner, t.get? c = some ec ∧
        t'.get? (f c) = some (ec.copied f owner)) : Origin t ids new t' y (e.copied f owner)
  | new {e : Entry} {scope : EntryId} (fresh : t.get? y = none) (hnew : new = some e)
      (body : ∀ b, e.scope? = some b → ∃ s, b = .empty s) :
      Origin t ids new t' y (placed e (some scope))

variable {y : EntryId}

/-- Entries of a table where one scope has another body, and what is in the other places comes from
where it came from. -/
theorem Origin.setBody {u : Table} {scope : EntryId} {p : Entry} {b b' : ScopeBody} {e' : Entry}
    (live : t.get? scope = some p) (hb : p.scope? = some b)
    (builtins : ∀ c ∈ b'.builtins, c ∈ b.builtins ∨
      ∃ ec, t'.get? c = some ec ∧ ec.isFunction = true)
    (live' : (u.setBody scope b').get? y = some e')
    (others : y ≠ scope → u.get? y = some e' → t.Origin ids new t' y e') :
    t.Origin ids new t' y e' := by
  rw [get?_setBody] at live'
  by_cases hy : y = scope
  · rw [if_pos hy] at live'
    obtain ⟨_, _, rfl⟩ := Option.map_eq_some_iff.mp live'
    exact .scope (hy ▸ live) hb rfl builtins
  · rw [if_neg hy] at live'
    exact others hy live'

theorem storage_recordDefault (e : Entry) (s : Store) :
    (e.recordDefault s).storage = e.storage := by
  unfold Entry.recordDefault
  split <;> rfl

/-! ### Moves -/

section Moves

variable {e' : Entry} (live' : t'.get? y = some e')

include live'

theorem Attached.origin {scope id : EntryId} (ha : t.Attached scope id t') :
    t.Origin ids new t' y e' := by
  obtain ⟨e, p, b, live, _, _, _, lp, hb, _, _, rfl⟩ := ha
  have builtins : (b.push e.name id false).builtins = b.builtins := rfl
  refine .setBody lp hb (fun c hm => Or.inl (builtins ▸ hm)) live' fun _ hu => ?_
  rw [get?_update] at hu
  by_cases hy : y = id
  · rw [if_pos hy, live] at hu
    obtain rfl := Option.some.inj hu
    exact .kept (e := e) (hy ▸ live) rfl
  · rw [if_neg hy] at hu
    exact .kept hu rfl

theorem Renamed.origin {id : EntryId} {name : String} (hr : t.Renamed id name t') :
    t.Origin ids new t' y e' := by
  obtain ⟨e, live, _, ⟨_, rfl⟩ | ⟨_, u, hu, rfl⟩⟩ := hr
  · exact .kept live' rfl
  -- the name aside, the entry is what the scope's new index was made with
  obtain ⟨eu, leu, hstorage⟩ : ∃ eu, u.get? y = some eu ∧ e'.storage = eu.storage := by
    rw [get?_update] at live'
    by_cases hy : y = id
    · rw [if_pos hy] at live'
      obtain ⟨eu, leu, rfl⟩ := Option.map_eq_some_iff.mp live'
      exact ⟨eu, hy ▸ leu, rfl⟩
    · rw [if_neg hy] at live'
      exact ⟨e', live', rfl⟩
  rcases hu with ⟨_, rfl⟩ | ⟨scope, p, b, _, lp, hb, _, rfl⟩
  · exact .kept leu (by rw [hstorage])
  rw [get?_setBody] at leu
  by_cases hy : y = scope
  · rw [if_pos hy] at leu
    obtain ⟨_, _, rfl⟩ := Option.map_eq_some_iff.mp leu
    have hb' : e'.scope? = some (b.relabel id e.name name) := by
      unfold Entry.scope?
      rw [hstorage]
    exact .scope (hy ▸ lp) hb hb' fun c hm => Or.inl hm
  · rw [if_neg hy] at leu
    exact .kept leu (by rw [hstorage])

theorem Removed.origin {id : EntryId} (hr : t.Removed id t') : t.Origin ids new t' y e' := by
  obtain ⟨e, x, u, live, _, htree, hu, rfl⟩ := hr
  rw [get?_foldl_vacate] at live'
  split at live'
  · exact absurd live' (by simp)
  rcases hu with ⟨_, rfl⟩ | ⟨scope, p, b, _, lp, hb, rfl⟩
  · exact .kept live' rfl
  · refine .setBody lp hb (fun c hm => Or.inl (List.mem_filter.mp hm).1) live' fun _ hu => ?_
    exact .kept hu rfl

theorem Inserted.origin (h : t.SlotsOk) {scope id : EntryId} {e : Entry} {builtin : Bool}
    (hi : t.Inserted scope e builtin id t') (hnew : new = some e)
    (body : ∀ b, e.scope? = some b → ∃ s, b = .empty s)
    (function : builtin = true → e.isFunction = true) : t.Origin ids new t' y e' := by
  have hget := hi.get? h
  obtain ⟨p, b, lp, hb, _, _, hid, rfl⟩ := hi
  have hnew' := hget id
  rw [if_pos rfl] at hnew'
  refine .setBody lp hb ?_ live' fun hy hu => ?_
  · intro c hm
    cases builtin with
    | false => exact Or.inl hm
    | true =>
      rcases List.mem_append.mp hm with hm | hm
      · exact Or.inl hm
      · obtain rfl := List.mem_singleton.mp hm
        exact Or.inr ⟨_, hnew', function rfl⟩
  · rw [h.get?_alloc] at hu
    split at hu
    · rename_i hy
      obtain rfl := Option.some.inj hu
      exact .new (hy ▸ h.get?_alloc_self _) hnew body
    · exact .kept hu rfl

end Moves

/-! ### Any step -/

theorem Step.origin (h : t.Sound) (hs : t.Step ids new t') {e' : Entry}
    (live' : t'.get? y = some e') : t.Origin ids new t' y e' := by
  cases hs with
  | same => exact .kept live' rfl
  | @rewritten id e _ hid live he =>
    rw [get?_set t _ y _ (index_lt_of_get? live)] at live'
    by_cases hy : y = id
    · rw [if_pos hy] at live'
      obtain rfl := Option.some.inj live'
      exact .kept (hy ▸ live) he.storage
    · rw [if_neg hy] at live'
      exact .kept live' rfl
  | @recorded id x _ hid htree s found =>
    rw [found] at live'
    split at live'
    · obtain ⟨e, live, rfl⟩ := Option.map_eq_some_iff.mp live'
      exact .kept live (by rw [storage_recordDefault])
    · exact .kept live' rfl
  | temp value =>
    rw [h.slots.get?_alloc] at live'
    split at live'
    · rename_i hy
      obtain rfl := Option.some.inj live'
      exact .temp (hy ▸ h.slots.get?_alloc_self _) value
    · exact .kept live' rfl
  | released hid hr =>
    obtain ⟨e, live, _, rfl⟩ := hr
    rw [get?_vacate] at live'
    split at live'
    · exact absurd live' (by simp)
    · exact .kept live' rfl
  | @copied id f x _ hid htree hc =>
    have hx := (tree_eq_ok_iff.mp htree).1.1
    obtain rfl := (tree_eq_ok_iff.mp htree).2
    rcases hc.get?_cases h hx live' with live | ⟨z, e, hz, rfl, live, rfl⟩
    · exact .kept live rfl
    · refine .copy (hc.fresh h (List.mem_map_of_mem hz)) hid ((hx.mem_ids h).mp hz) live ?_
      intro c hm
      obtain ⟨_, ec, lc, _, hcopy⟩ := h.child_copied hx hc hz live hm
      exact ⟨ec, _, lc, hcopy⟩
  | attached hscope hid ha => exact ha.origin live'
  | renamed hid hr => exact hr.origin live'
  | removed hid hr => exact hr.origin live'
  | inserted hscope hnew hi body function => exact hi.origin live' h.slots hnew body function

/-- An edit that begins with the entry of a handle is done only if the handle is live. -/
theorem live_of_run {ε α : Type} {id : EntryId} {g : Entry → Edit ε α} {a : α}
    (hrun : (Edit.look (·.liveEntry id) >>= g).run t = (.ok a, t')) :
    ∃ e, t.get? id = some e := by
  cases live : t.get? id with
  | some e => exact ⟨e, rfl⟩
  | none =>
    rw [Edit.look_bind_error _ t (liveEntry_eq_error live)] at hrun
    exact absurd (congrArg Prod.fst hrun) (by simp)

/-! ## Recording defaults -/

theorem get?_of_recordLive {row : List EntryId} (hn : row.Nodup)
    (hrun : (row.forM (recordLive s) : Edit Empty Unit).run t = (.ok (), t')) (y : EntryId) :
    t'.get? y = if y ∈ row then (t.get? y).map fun e => e.recordDefault s else t.get? y := by
  induction row generalizing t with
  | nil =>
    obtain rfl : t = t' := congrArg Prod.snd hrun
    simp
  | cons id row ih =>
    obtain ⟨hid, hn⟩ := List.nodup_cons.mp hn
    rw [Edit.forM_cons] at hrun
    obtain ⟨e, live⟩ : ∃ e, t.get? id = some e := by
      rw [Edit.run_bind] at hrun
      split at hrun
      · rename_i hfirst
        exact live_of_run hfirst
      · exact absurd (congrArg Prod.fst hrun) (by simp)
    rw [Edit.bind_ok _ (run_recordLive live s)] at hrun
    rw [ih hn hrun, get?_set t id y _ (index_lt_of_get? live)]
    by_cases hy : y = id
    · rw [if_neg (hy ▸ hid), if_pos hy, if_pos (by simp [hy]), hy, live]
      rfl
    · simp [hy]

theorem run_updateDefault (h : t.Sound) {id : EntryId} {x : Tree} (htree : t.tree id = .ok x)
    (s : Store) : ∃ t', (updateDefault s id : Edit Empty Unit).run t = (.ok (), t') ∧
      ∀ y, t'.get? y =
        if y ∈ x.registered then (t.get? y).map fun e => e.recordDefault s else t.get? y := by
  obtain ⟨t', hwalk, hrow, _⟩ := records_updateDefault (ε := Empty) htree s
  have hx := (tree_eq_ok_iff.mp htree).1.1
  exact ⟨t', hwalk, get?_of_recordLive (x.registered_sublist_ids.nodup (hx.ids_nodup h)) hrow⟩

/-! ## Steps of the library -/

theorem Writes.step (hw : t.Writes s (fun id => id ∈ ids) t' s') : t.Step ids new t' := by
  cases hw with
  | same => exact .same
  | entry hid live he => exact .rewritten hid live he.rewritten

theorem step_copyLive {target source : EntryId} {done : Bool}
    (hr : t.copyLive s target source = .ok (done, t', s')) : t.Step [target, source] new t' :=
  (writes_copyLive List.mem_cons_self hr).step

/-- What an edit leads to, whether it was refused or done. -/
theorem step_of_atomic {ε α : Type} {m : Edit ε α} {P : α → Table → Prop} (hm : m.Atomic t P)
    (hP : ∀ a t', P a t' → t.Step ids new t') : t.Step ids new (m.run t).2 :=
  hm.keeps (I := t.Step ids new) .same hP

theorem step_define (h : t.Sound) (scope : EntryId) (name : String) (f : Function)
    (description : String) (builtin : Bool) :
    t.Step [scope] (some (.new name description (.function f)))
      ((define scope name f description builtin).run t).2 := by
  refine step_of_atomic (insert_atomic h.slots scope _ builtin) ?_
  intro _ _ hi
  refine .inserted (by simp) rfl hi ?_ fun _ => rfl
  intro b hb
  exact absurd hb (by simp [Entry.scope?, Entry.new])

end Table

/-! ## Requests -/

/-- The entry that a request brings in if it is done. -/
def Request.registers : Request → Option Entry
  | .register _ name description content => some (Table.entryOf name description content)
  | _ => none

theorem Request.step_edited {t t' : Table} {s s' : Store} {ids : List EntryId}
    {new : Option Entry} {α : Type} {m : Edit TreeError α} {P : α → Table → Prop}
    (hm : m.Atomic t P) (hP : ∀ a t', P a t' → t.Step ids new t') {reply : Except TreeError α}
    (hr : answer.edited s (m.run t) = .ok (reply, t', s')) : t.Step ids new t' := by
  have hstep := Table.step_of_atomic hm hP
  rwa [(edited_eq_ok hr).1] at hstep

theorem Request.edit_eq_ok {t t' : Table} {s s' : Store} {id : EntryId} {change : HeaderEdit}
    {reply : Unit} (hr : (Request.edit id change).answer t s = .ok (reply, t', s')) :
    ∃ e, t.get? id = some e ∧ t.set id (e.edit change) = t' := by
  obtain ⟨hrun, -⟩ := done_eq_ok hr
  obtain ⟨e, live⟩ := Table.live_of_run hrun
  exact ⟨e, live, congrArg Prod.snd ((Table.run_edit live change).symm.trans hrun)⟩

theorem Request.clone_eq_ok {t t' : Table} {s s' : Store} (h : t.Sound) {source copy : EntryId}
    (hr : (Request.clone source).answer t s = .ok (copy, t', s')) :
    ∃ f x, t.tree source = .ok x ∧ f source = copy ∧ Table.Copied f x t t' := by
  have hrun := (done_eq_ok hr).1
  obtain ⟨e, live⟩ := Table.live_of_run ((Edit.look_bind_ok _ t rfl).symm.trans hrun)
  obtain ⟨x, htree⟩ := h.exists_tree live
  obtain ⟨f, u, hdone, hc⟩ := Table.run_clone (ε := Empty) h htree
  obtain ⟨hcopy, rfl⟩ := Prod.mk.inj (hdone.symm.trans hrun)
  exact ⟨f, x, htree, Except.ok.inj hcopy, hc⟩

/-- A request leads to its table by a step at its handles. -/
theorem Request.step_answer {t t' : Table} {s s' : Store} (h : t.Sound) {r : Request}
    {reply : r.Reply} (hr : r.answer t s = .ok (reply, t', s')) :
    t.Step r.handles r.registers t' := by
  cases r with
  | size | contains =>
    obtain ⟨_, rfl, _⟩ := Prod.mk.injEq .. ▸ Except.ok.inj hr
    exact .same
  | find | lookup | lookupPath | readNumber | readText | snapshot | convert =>
    rw [(map_eq_ok hr).2.1]
    exact .same
  | writeNumber id x =>
    exact (writes_replied (List.mem_singleton_self id) (Entry.revalued_writeNumber x) hr).step
  | writeText id text =>
    exact (writes_replied (List.mem_singleton_self id) (Entry.revalued_writeText text) hr).step
  | assign id value =>
    exact (Table.writes_tryOn (List.mem_singleton_self id) (Entry.revalued_assign value) hr).step
  | copy target source => exact (Table.writes_copy List.mem_cons_self hr).step
  | edit id change =>
    obtain ⟨e, live, rfl⟩ := edit_eq_ok hr
    exact .rewritten (List.mem_singleton_self id) live
      ⟨e.frame_edit change, by cases change <;> rfl⟩
  | updateDefault id =>
    have hrun := (done_eq_ok hr).1
    obtain ⟨e, live⟩ := Table.live_of_run ((Edit.look_bind_ok _ t rfl).symm.trans hrun)
    obtain ⟨x, htree⟩ := h.exists_tree live
    obtain ⟨u, hdone, found⟩ := Table.run_updateDefault h htree s
    obtain rfl : u = t' := congrArg Prod.snd (hdone.symm.trans hrun)
    exact .recorded (by simp [handles]) htree s found
  | makeTemp value =>
    obtain ⟨-, rfl, -⟩ := makeTemp_eq_ok hr
    exact .temp value
  | release id =>
    exact step_edited (Table.release_atomic h id)
      (fun _ _ => .released (List.mem_singleton_self id)) hr
  | releaseIfTemporary id =>
    rcases (releaseIfTemporary_eq_ok h hr).2 with ⟨_, rfl⟩ | ⟨_, hreleased⟩
    · exact .same
    · exact .released (by simp [handles]) hreleased
  | clone id =>
    obtain ⟨f, x, htree, -, hc⟩ := clone_eq_ok h hr
    exact .copied (by simp [handles]) htree hc
  | attach scope id =>
    exact step_edited (Table.attach_atomic t scope id)
      (fun _ _ => .attached (by simp [handles]) (by simp [handles])) hr
  | rename id name =>
    exact step_edited (Table.rename_atomic t id name)
      (fun _ _ => .renamed (List.mem_singleton_self id)) hr
  | remove id =>
    exact step_edited (Table.remove_atomic h id)
      (fun _ _ => .removed (List.mem_singleton_self id)) hr
  | register scope name description content =>
    rcases register_eq_ok h.slots hr with ⟨_, rfl, _⟩ | ⟨id, _, _, hi⟩
    · exact .same
    · refine .inserted (by simp [handles]) rfl hi (fun _ => Table.entryOf_body) ?_
      intro hbuiltin
      exact absurd hbuiltin (by simp)

end Settings

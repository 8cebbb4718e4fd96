import Settings.Proofs.Table.Moves
import Settings.Proofs.Table.Run
import Settings.Proofs.Table.Trees

/-!
# What each edit does

One lemma for each edit says how it ends on a sound table: refused with nothing changed, or done,
under which conditions, and with what table. A second one concludes from it, through the moves, that
the table is sound afterwards. Whatever else is proved of an edit is proved from the first.

Copies have a module of their own.
-/

set_option autoImplicit false

namespace Settings
namespace Table

open Edit

variable {ε : Type} {t t' : Table}

/-! ## Looks -/

theorem liveEntry_eq_ok {id : EntryId} {e : Entry} :
    (t.liveEntry id : Attempt ε Entry) = .ok e ↔ t.get? id = some e := by
  unfold liveEntry entry
  cases t.get? id <;> simp [Attempt.ofFault]

theorem liveEntry_eq_error {id : EntryId} (h : t.get? id = none) :
    (t.liveEntry id : Attempt ε Entry) = .error (.fault (.staleHandle id)) := by
  unfold liveEntry
  rw [entry_eq_error h]
  rfl

theorem scopeBody_eq_ok {id : EntryId} {b : ScopeBody} :
    t.scopeBody id = .ok b ↔ ∃ e, t.get? id = some e ∧ e.scope? = some b := by
  unfold scopeBody
  cases he : t.get? id with
  | none => simp [liveEntry, entry, he, Attempt.ofFault, bind, Except.bind]
  | some e =>
    rw [liveEntry_eq_ok.mpr he]
    cases hb : e.scope? <;> simp [bind, Except.bind, hb, pure, Except.pure, throw, throwThe,
      MonadExceptOf.throw]

theorem requireFree_eq_ok {scope : EntryId} {name : String} {b : ScopeBody} :
    t.requireFree scope name = .ok b ↔
      ∃ e, t.get? scope = some e ∧ e.scope? = some b ∧ b.find? name = none := by
  unfold requireFree
  cases hb : t.scopeBody scope with
  | error x =>
    refine ⟨fun h => absurd h (by simp [bind, Except.bind]), ?_⟩
    rintro ⟨e, live, hs, _⟩
    rw [scopeBody_eq_ok.mpr ⟨e, live, hs⟩] at hb
    exact absurd hb (by simp)
  | ok body =>
    obtain ⟨e, live, hs⟩ := scopeBody_eq_ok.mp hb
    cases hf : body.find? name with
    | none =>
      have hrun : (Except.ok body >>= fun b => do
          if (b.find? name).isSome then
            throw (.error (.duplicateName name (← t.liveEntry scope).name))
          return b : Attempt TreeError ScopeBody) = .ok body := by
        simp [bind, Except.bind, hf, pure, Except.pure]
      rw [hrun]
      constructor
      · intro h
        obtain rfl := Except.ok.inj h
        exact ⟨e, live, hs, hf⟩
      · rintro ⟨e', live', hs', _⟩
        obtain rfl := Option.mem_unique live live'
        obtain rfl := Option.mem_unique hs hs'
        rfl
    | some c =>
      refine ⟨fun h => absurd h ?_, ?_⟩
      · simp [bind, Except.bind, hf, liveEntry_eq_ok.mpr live, throw, throwThe,
          MonadExceptOf.throw]
      · rintro ⟨e', live', hs', hn⟩
        obtain rfl := Option.mem_unique live live'
        obtain rfl := Option.mem_unique hs hs'
        rw [hf] at hn
        exact absurd hn (by simp)

theorem get?_setBody (t : Table) (id other : EntryId) (b : ScopeBody) :
    (t.setBody id b).get? other =
      if other = id then (t.get? id).map fun e => { e with storage := .scope b }
      else t.get? other :=
  get?_update t id other _

/-! ## Registration -/

/-- The entry as it stands in its scope. -/
def placed (e : Entry) (owner : Option EntryId) : Entry :=
  { e with owner := owner, temporary := false }

/-- The entry comes into a slot, and the scope lists it. -/
def Inserted (t : Table) (scope : EntryId) (e : Entry) (builtin : Bool) (id : EntryId)
    (t' : Table) : Prop :=
  ∃ p b, t.get? scope = some p ∧ p.scope? = some b ∧ e.name ≠ "" ∧ b.find? e.name = none ∧
    id = (t.alloc (placed e (some scope))).1 ∧
    t' = (t.alloc (placed e (some scope))).2.setBody scope (b.push e.name id builtin)

theorem run_insert (h : t.SlotsOk) {scope : EntryId} {e : Entry} {b : ScopeBody} (builtin : Bool)
    (hname : e.name ≠ "") (hb : t.requireFree scope e.name = .ok b) :
    (insert scope e builtin).run t = (.ok (t.alloc (placed e (some scope))).1,
      (t.alloc (placed e (some scope))).2.setBody scope
        (b.push e.name (t.alloc (placed e (some scope))).1 builtin)) := by
  obtain ⟨p, live, hs, _⟩ := requireFree_eq_ok.mp hb
  have live' := h.get?_alloc_of_live (placed e (some scope)) live
  unfold insert
  refine (refuseIf_bind_neg t hname _ _).trans ?_
  refine (discard_look_bind_ok t _ hb).trans ?_
  refine (alloc_bind t _ _).trans ?_
  refine (look_bind_ok _ _ (scopeBody_eq_ok.mpr ⟨p, live', hs⟩)).trans ?_
  exact (change_bind _ _ _).trans (run_pure _ _)

theorem insert_atomic (h : t.SlotsOk) (scope : EntryId) (e : Entry) (builtin : Bool) :
    (insert scope e builtin).Atomic t (t.Inserted scope e builtin) := by
  by_cases hname : e.name = ""
  · exact .refused (refuseIf_bind_pos t hname _ _)
  · cases hb : t.requireFree scope e.name with
    | error x =>
      exact .refused ((refuseIf_bind_neg t hname _ _).trans (discard_look_bind_error t _ hb))
    | ok b =>
      obtain ⟨p, live, hs, hfree⟩ := requireFree_eq_ok.mp hb
      exact .done (run_insert h builtin hname hb) ⟨p, b, live, hs, hname, hfree, rfl, rfl⟩

/-- Whether an entry is refused depends on nothing but its name. -/
theorem insert_error_of_name (h : t.SlotsOk) {scope : EntryId} {e e' : Entry} {builtin : Bool}
    (hname : e'.name = e.name) {x : Failure TreeError}
    (hx : ((insert scope e builtin).run t).1 = .error x) :
    (insert scope e' builtin).run t = (.error x, t) := by
  by_cases hempty : e.name = ""
  · have hrun : (insert scope e builtin).run t = _ := refuseIf_bind_pos t hempty _ _
    have hrun' : (insert scope e' builtin).run t = _ :=
      refuseIf_bind_pos t (hname.trans hempty) _ _
    rw [hrun] at hx
    rw [hrun', ← hx]
  · have hempty' : ¬ e'.name = "" := hname ▸ hempty
    cases hb : t.requireFree scope e.name with
    | error y =>
      have hrun : (insert scope e builtin).run t = _ :=
        (refuseIf_bind_neg t hempty _ _).trans (discard_look_bind_error t _ hb)
      have hrun' : (insert scope e' builtin).run t = _ :=
        (refuseIf_bind_neg t hempty' _ _).trans (discard_look_bind_error t _ (hname ▸ hb))
      rw [hrun] at hx
      rw [hrun', ← hx]
    | ok b =>
      rw [run_insert h builtin hempty hb] at hx
      exact absurd hx (by simp)

theorem Level.not_under_fresh {new id : EntryId} {n : Nat} (h : t.Level id n)
    (hext : t.Extends t') (hnew : t.get? new = none) : ¬ t'.Under new id := by
  induction h with
  | @top id e live detached =>
    intro hu
    rw [hu.eq_of_detached (hext _ _ live) detached, live] at hnew
    exact absurd hnew (by simp)
  | owned live owned _ ih =>
    intro hu
    rcases hu.above (hext _ _ live) owned with rfl | hu
    · rw [live] at hnew
      exact absurd hnew (by simp)
    · exact ih hu

theorem alloc_fst_eq (t : Table) (e e' : Entry) : (t.alloc e).1 = (t.alloc e').1 := by
  unfold alloc
  split <;> rfl

theorem Sound.alloc (h : t.Sound) {e : Entry} (hdet : e.owner = none)
    (hbody : ∀ b, e.scope? = some b → ∃ s, b = .empty s)
    (htemp : e.temporary = true → e.scope? = none) : (t.alloc e).2.Sound :=
  h.of_leaf (h.slots.alloc e) (h.slots.get?_alloc_self e) (h.slots.get?_alloc e) hdet hbody htemp

theorem Sound.inserted (h : t.Sound) {scope id : EntryId} {e : Entry} {builtin : Bool}
    (hbody : ∀ b, e.scope? = some b → ∃ s, b = .empty s)
    (hi : t.Inserted scope e builtin id t') : t'.Sound := by
  obtain ⟨p, b, live, hs, hname, hfree, rfl, rfl⟩ := hi
  -- the entry comes in without an owner first, and then gets its owner
  have hid : (t.alloc (placed e none)).1 = (t.alloc (placed e (some scope))).1 := alloc_fst_eq t _ _
  have hleaf : (t.alloc (placed e none)).2.Sound :=
    h.alloc rfl hbody fun ht => absurd ht (by simp [placed])
  have hne := h.slots.ne_alloc (placed e (some scope)) live
  have hget := h.slots.get?_alloc (placed e none)
  obtain ⟨n, hn⟩ := h.level scope p live
  have live' := h.slots.get?_alloc_of_live (placed e none) live
  have atId : (t.alloc (placed e none)).2.get? (t.alloc (placed e (some scope))).1 =
      some (placed e none) := by rw [hget, if_pos hid.symm]
  refine hleaf.of_placed builtin ((h.slots.alloc _).update _ _) atId rfl ?_ hname live' hs hfree ?_
    ?_
  · intro hr
    obtain ⟨er, _, lr, _, _⟩ := h.root
    exact h.slots.ne_alloc _ lr hr.symm
  · exact hn.not_under_fresh (fun _ _ => h.slots.get?_alloc_of_live _) (h.slots.get?_alloc_self _)
  · intro x
    rw [get?_setBody, h.slots.get?_alloc, h.slots.get?_alloc, if_neg hne, live, hget, hid]
    by_cases hx : x = scope
    · subst hx
      rw [if_pos rfl, if_neg hne, if_pos rfl]
      rfl
    · rw [if_neg hx]
      by_cases hn : x = (t.alloc (placed e (some scope))).1
      · rw [if_pos hn, if_pos hn]
        rfl
      · rw [if_neg hn, if_neg hn, if_neg hx, if_neg hn]

/-! ## Temporaries -/

theorem temp_scope? (value : Scalar) : (Entry.temp value).scope? = none := by
  cases value <;> rfl

theorem Sound.temp (h : t.Sound) (value : Scalar) : (t.alloc (.temp value)).2.Sound := by
  refine h.alloc rfl ?_ fun _ => temp_scope? value
  intro b hb
  rw [temp_scope?] at hb
  exact absurd hb (by simp)

/-! ## Freeing -/

theorem get?_foldl_vacate (t : Table) (ids : List EntryId) (x : EntryId) :
    (ids.foldl vacate t).get? x = if x ∈ ids then none else t.get? x := by
  induction ids generalizing t with
  | nil => simp
  | cons id ids ih =>
    rw [List.foldl_cons, ih, get?_vacate]
    by_cases hx : x = id
    · simp [hx]
    · simp [hx]

theorem SlotsOk.foldl_vacate (h : t.SlotsOk) {ids : List EntryId} (hn : ids.Nodup)
    (hlive : ∀ id ∈ ids, ∃ e, t.get? id = some e) : (ids.foldl Table.vacate t).SlotsOk := by
  induction ids generalizing t with
  | nil => exact h
  | cons id ids ih =>
    obtain ⟨hid, hn⟩ := List.nodup_cons.mp hn
    obtain ⟨⟨e, live⟩, hlive⟩ := List.forall_mem_cons.mp hlive
    apply ih (h.vacate live) hn
    intro x hx
    rw [get?_vacate, if_neg fun (heq : x = id) => hid (heq ▸ hx)]
    exact hlive x hx

theorem run_freeWithin_succ {id : EntryId} {e : Entry} (live : t.get? id = some e) (depth : Nat) :
    (freeWithin (depth + 1) id : Edit ε Unit).run t =
      (e.children.forM (freeWithin depth)).run (t.vacate id) := by
  unfold freeWithin
  refine (look_bind_ok _ t rfl).trans ?_
  rw [live]
  exact change_bind _ _ _

theorem run_forM_freeWithin {depth : Nat} {xs : List Tree}
    (hrun : ∀ x ∈ xs, ∀ u : Table, (∀ y ∈ x.ids, u.get? y = t.get? y) →
      (freeWithin depth x.id : Edit ε Unit).run u = (.ok (), x.ids.foldl vacate u))
    (hn : (xs.flatMap Tree.ids).Nodup) {u : Table}
    (hu : ∀ y ∈ xs.flatMap Tree.ids, u.get? y = t.get? y) :
    ((xs.map Tree.id).forM (freeWithin depth : EntryId → Edit ε Unit)).run u =
      (.ok (), (xs.flatMap Tree.ids).foldl vacate u) := by
  induction xs generalizing u with
  | nil => rfl
  | cons x xs ih =>
    obtain ⟨hx, hxs⟩ := List.forall_mem_cons.mp hrun
    rw [List.flatMap_cons, List.nodup_append'] at hn
    obtain ⟨_, hn, hdisj⟩ := hn
    rw [List.flatMap_cons] at hu
    obtain ⟨hux, hus⟩ := List.forall_mem_append.mp hu
    rw [List.map_cons, forM_cons, bind_ok _ (hx u hux), ih hxs hn, List.flatMap_cons,
      List.foldl_append]
    -- what was freed does not occur in the trees to come
    intro y hy
    rw [get?_foldl_vacate, if_neg fun hm => hdisj hm hy]
    exact hus y hy

/-- A tree that is in the table is freed entry by entry. -/
theorem run_freeWithin {x : Tree} (hx : t.Holds x) (hn : x.ids.Nodup) {depth : Nat}
    (hd : x.height ≤ depth) {u : Table} (hu : ∀ y ∈ x.ids, u.get? y = t.get? y) :
    (freeWithin depth x.id : Edit ε Unit).run u = (.ok (), x.ids.foldl vacate u) := by
  induction hx generalizing depth u with
  | @leaf id e live plain =>
    cases depth with
    | zero => simp [Tree.height] at hd
    | succ depth =>
      have hget : u.get? id = some e := (hu id (Tree.id_mem_ids _)).trans live
      have hch : e.children = [] := by simp [Entry.children, plain]
      rw [Tree.id, run_freeWithin_succ hget, hch, forM_nil, Tree.ids_node]
      rfl
  | @scope id e b es bs live body entries builtins held ih =>
    cases depth with
    | zero => simp [Tree.height] at hd
    | succ depth =>
      have hget : u.get? id = some e := (hu id (Tree.id_mem_ids _)).trans live
      have hch := (Holds.scope live body entries builtins held).children
      have hd := Tree.height_le_succ.mp hd
      rw [Tree.ids_node] at hn hu ⊢
      obtain ⟨hid, hn⟩ := List.nodup_cons.mp hn
      rw [Tree.id, run_freeWithin_succ hget, ← hch, List.foldl_cons]
      refine run_forM_freeWithin (t := t) ?_ hn ?_
      · intro x hx v hv
        exact ih x hx ((List.nodup_flatMap.mp hn).1 x hx) (hd x hx) hv
      · intro y hy
        rw [get?_vacate, if_neg fun (heq : y = id) => hid (heq ▸ hy)]
        exact hu y (List.mem_cons_of_mem _ hy)

theorem run_freeTree (h : t.Sound) {id : EntryId} {x : Tree} (htree : t.tree id = .ok x) {u : Table}
    (hsize : u.slots.size = t.slots.size) (hu : ∀ y ∈ x.ids, u.get? y = t.get? y) :
    (freeTree id : Edit ε Unit).run u = (.ok (), x.ids.foldl vacate u) := by
  obtain ⟨⟨hx, hh⟩, rfl⟩ := tree_eq_ok_iff.mp htree
  unfold freeTree
  refine (look_bind_ok _ u rfl).trans ?_
  rw [hsize]
  exact run_freeWithin hx (hx.ids_nodup h) hh hu

/-! ## Removal -/

/-- The scope of an entry, if it has one, no longer lists it. -/
def Unlisted (t : Table) (id : EntryId) (e : Entry) (t' : Table) : Prop :=
  (e.owner = none ∧ t' = t) ∨ ∃ scope p b, e.owner = some scope ∧ t.get? scope = some p ∧
    p.scope? = some b ∧ t' = t.setBody scope (b.erase id e.name)

/-- The entry is off the lists of its scope, and all that lay under it is free. -/
def Removed (t : Table) (id : EntryId) (t' : Table) : Prop :=
  ∃ e x u, t.get? id = some e ∧ id ≠ root ∧ t.tree id = .ok x ∧ t.Unlisted id e u ∧
    t' = x.ids.foldl vacate u

theorem unlist_atomic (t : Table) (id : EntryId) (e : Entry) :
    (unlist e.owner id e.name).Atomic t fun _ => t.Unlisted id e := by
  unfold unlist
  cases ho : e.owner with
  | none => exact .done (run_pure () t) (Or.inl ⟨ho, rfl⟩)
  | some scope =>
    refine .look_bind ?_
    intro b hb
    obtain ⟨p, live, hs⟩ := scopeBody_eq_ok.mp hb
    exact .done (run_change _ t) (Or.inr ⟨scope, p, b, ho, live, hs, rfl⟩)

theorem Unlisted.size_slots {id : EntryId} {e : Entry} (hu : t.Unlisted id e t') :
    t'.slots.size = t.slots.size := by
  rcases hu with ⟨_, rfl⟩ | ⟨scope, p, b, _, _, _, rfl⟩
  · rfl
  · exact size_slots_update t scope _

theorem Unlisted.slotsOk (h : t.SlotsOk) {id : EntryId} {e : Entry} (hu : t.Unlisted id e t') :
    t'.SlotsOk := by
  rcases hu with ⟨_, rfl⟩ | ⟨scope, p, b, _, _, _, rfl⟩
  · exact h
  · exact h.update scope _

theorem Unlisted.get?_of_ne {id x : EntryId} {e : Entry} (hu : t.Unlisted id e t')
    (hx : e.owner ≠ some x) : t'.get? x = t.get? x := by
  rcases hu with ⟨_, rfl⟩ | ⟨scope, p, b, ho, _, _, rfl⟩
  · rfl
  · rw [get?_setBody, if_neg fun heq : x = scope => hx (heq ▸ ho)]

theorem Unlisted.get?_scope {id scope : EntryId} {e p : Entry} {b : ScopeBody}
    (hu : t.Unlisted id e t') (ho : e.owner = some scope) (live : t.get? scope = some p)
    (hb : p.scope? = some b) :
    t'.get? scope = some { p with storage := .scope (b.erase id e.name) } := by
  rcases hu with ⟨hdet, _⟩ | ⟨scope', p', b', ho', live', hb', rfl⟩
  · rw [ho] at hdet
    exact absurd hdet (by simp)
  · obtain rfl := Option.mem_unique ho ho'
    obtain rfl := Option.mem_unique live live'
    obtain rfl := Option.mem_unique hb hb'
    rw [get?_setBody, if_pos rfl, live]
    rfl

theorem Sound.not_mem_ids (h : t.Sound) {id scope : EntryId} {e : Entry} {x : Tree}
    (live : t.get? id = some e) (htree : t.tree id = .ok x) (hs : scope ∈ x.ids) :
    e.owner ≠ some scope := by
  intro ho
  obtain ⟨⟨hx, _⟩, rfl⟩ := tree_eq_ok_iff.mp htree
  obtain ⟨n, hn⟩ := h.level _ e live
  exact hn.not_under_owned live ho ((hx.mem_ids h).mp hs)

theorem Sound.removed (h : t.Sound) {id : EntryId} (hr : t.Removed id t') : t'.Sound := by
  obtain ⟨e, x, u, live, hroot, htree, hu, rfl⟩ := hr
  obtain ⟨⟨hx, _⟩, rfl⟩ := tree_eq_ok_iff.mp htree
  have out : ∀ y ∈ x.ids, u.get? y = t.get? y := fun y hy =>
    hu.get?_of_ne (h.not_mem_ids live htree hy)
  have hslots := (hu.slotsOk h.slots).foldl_vacate (hx.ids_nodup h) fun y hy => by
    rw [out y hy]
    exact hx.live_of_mem hy
  refine h.of_removed hslots live hroot ?_ ?_ ?_
  · intro y hy
    rw [get?_foldl_vacate, if_pos ((hx.mem_ids h).mpr hy)]
  · intro scope p b ho lp hb
    rw [get?_foldl_vacate, if_neg fun hm => h.not_mem_ids live htree hm ho]
    exact hu.get?_scope ho lp hb
  · intro y hy ho
    rw [get?_foldl_vacate, if_neg fun hm => hy ((hx.mem_ids h).mp hm)]
    exact hu.get?_of_ne ho

theorem remove_atomic (h : t.Sound) (id : EntryId) :
    (remove id).Atomic t fun _ => t.Removed id := by
  unfold remove
  refine .refuseIf_bind fun hroot => .look_bind ?_
  intro e he
  have live := liveEntry_eq_ok.mp he
  obtain ⟨x, hx⟩ := h.exists_tree live
  apply (unlist_atomic t id e).bind
  intro _ u hu
  exact ⟨(), _, run_freeTree h hx hu.size_slots fun y hy =>
    hu.get?_of_ne (h.not_mem_ids live hx hy), e, x, u, live, hroot, hx, hu, rfl⟩

/-! ## Release -/

/-- The slot of a temporary is free. -/
def Released (t : Table) (id : EntryId) (t' : Table) : Prop :=
  ∃ e, t.get? id = some e ∧ e.temporary = true ∧ t' = t.vacate id

theorem run_release (h : t.Sound) {id : EntryId} {e : Entry} (live : t.get? id = some e) :
    (release id).run t = if e.temporary then (.ok (), t.vacate id)
      else (.error (.error (.notTemporary e.name)), t) := by
  unfold release
  refine (look_bind_ok _ t (liveEntry_eq_ok.mpr live)).trans ?_
  cases ht : e.temporary with
  | false => exact refuseIf_bind_pos t rfl _ _
  | true =>
    refine (refuseIf_bind_neg t (by simp) _ _).trans ?_
    have hx : t.tree id = .ok (.node id e [] []) :=
      tree_eq_ok_iff.mpr ⟨⟨.leaf live (h.temporary id e live ht).2,
        Tree.height_le_succ.mpr (by simp)⟩, rfl⟩
    have hrun := run_freeTree (ε := TreeError) h hx rfl fun _ _ => rfl
    rw [Tree.ids_node] at hrun
    exact hrun

theorem release_atomic (h : t.Sound) (id : EntryId) :
    (release id).Atomic t fun _ => t.Released id := by
  cases live : t.get? id with
  | none => exact .refused (look_bind_error _ t (liveEntry_eq_error live))
  | some e =>
    have hrun := run_release h live
    cases ht : e.temporary with
    | false => exact .refused (by rw [hrun, ht, if_neg (by simp)])
    | true => exact .done (by rw [hrun, ht, if_pos rfl]) ⟨e, live, ht, rfl⟩

theorem Sound.released (h : t.Sound) {id : EntryId} (hr : t.Released id t') : t'.Sound := by
  obtain ⟨e, live, ht, rfl⟩ := hr
  obtain ⟨hdet, hplain⟩ := h.temporary id e live ht
  refine h.removed ⟨e, .node id e [] [], t, live, ?_, ?_, Or.inl ⟨hdet, rfl⟩, ?_⟩
  · rintro rfl
    obtain ⟨er, b, lr, hb, _⟩ := h.root
    rw [live, Option.some.injEq] at lr
    rw [lr, hb] at hplain
    exact absurd hplain (by simp)
  · exact tree_eq_ok_iff.mpr ⟨⟨.leaf live hplain, Tree.height_le_succ.mpr (by simp)⟩, rfl⟩
  · rw [Tree.ids_node]
    rfl

/-! ## Attachment -/

theorem run_pushChild {scope child : EntryId} {c p : Entry} {b : ScopeBody} (builtin : Bool)
    (hc : t.get? child = some c) (hp : t.get? scope = some p) (hb : p.scope? = some b) :
    (pushChild scope child builtin : Edit ε Unit).run t =
      (.ok (), t.setBody scope (b.push c.name child builtin)) := by
  unfold pushChild
  refine (look_bind_ok _ t (liveEntry_eq_ok.mpr hc)).trans ?_
  refine (look_bind_ok _ t (liveEntry_eq_ok.mpr hp)).trans ?_
  rw [hb]
  exact run_change _ t

/-- The entry gets its owner, and then the scope lists it. -/
theorem run_place {scope id : EntryId} {e p : Entry} {b : ScopeBody} (live : t.get? id = some e)
    (lp : t.get? scope = some p) (hs : p.scope? = some b) (hne : scope ≠ id) :
    (change (·.update id fun e => placed e (some scope)) >>= fun _ => pushChild scope id false :
      Edit ε Unit).run t =
      (.ok (), (t.update id fun e => placed e (some scope)).setBody scope
        (b.push e.name id false)) := by
  have live' :
      (t.update id fun e => placed e (some scope)).get? id = some (placed e (some scope)) := by
    rw [get?_update, if_pos rfl, live]
    rfl
  have lp' : (t.update id fun e => placed e (some scope)).get? scope = some p := by
    rw [get?_update, if_neg hne, lp]
  have hpush := run_pushChild (ε := ε) false live' lp' hs
  exact (change_bind _ _ _).trans hpush

/-- The entry had no owner, and the scope lists it now. -/
def Attached (t : Table) (scope id : EntryId) (t' : Table) : Prop :=
  ∃ e p b, t.get? id = some e ∧ e.owner = none ∧ id ≠ root ∧ e.name ≠ "" ∧
    t.get? scope = some p ∧ p.scope? = some b ∧ b.find? e.name = none ∧ ¬ t.Under id scope ∧
    t' = (t.update id fun e => placed e (some scope)).setBody scope (b.push e.name id false)

theorem attach_atomic (t : Table) (scope id : EntryId) :
    (attach scope id).Atomic t fun _ => t.Attached scope id := by
  unfold attach
  refine .refuseIf_bind fun hroot => .look_bind fun e he => .refuseIf_bind fun howner =>
    .refuseIf_bind fun hname => .look_bind fun links hlinks => .refuseIf_bind fun hcyc =>
    .discard_look_bind ?_
  intro b hb
  have live := liveEntry_eq_ok.mp he
  obtain ⟨p, lp, hs, hfree⟩ := requireFree_eq_ok.mp hb
  have hdet : e.owner = none := by simpa using howner
  -- the check against circles goes through the chain of the scope
  have hunder : ¬ t.Under id scope := by
    cases hchain : t.chain scope with
    | error x => simp [hchain, Attempt.ofFault] at hlinks
    | ok links' =>
      obtain rfl : links' = links := by simpa [hchain, Attempt.ofFault] using hlinks
      rwa [(chainWithin_eq_ok_iff.mp hchain).1.mem_iff] at hcyc
  have hne : scope ≠ id := fun heq => hunder (heq ▸ .self)
  refine .done (run_place live lp hs hne) ?_
  exact ⟨e, p, b, live, hdet, hroot, hname, lp, hs, hfree, hunder, rfl⟩

theorem Attached.get? {scope id : EntryId} {e p : Entry} {b : ScopeBody}
    (ha : t.Attached scope id t') (live : t.get? id = some e) (lp : t.get? scope = some p)
    (hb : p.scope? = some b) (other : EntryId) :
    t'.get? other =
      if other = id then some (placed e (some scope))
      else if other = scope then some { p with storage := .scope (b.push e.name id false) }
      else t.get? other := by
  obtain ⟨e', p', b', live', _, _, _, lp', hb', _, hunder, rfl⟩ := ha
  obtain rfl := Option.mem_unique live live'
  obtain rfl := Option.mem_unique lp lp'
  obtain rfl := Option.mem_unique hb hb'
  have hne : scope ≠ id := fun heq => hunder (heq ▸ .self)
  rw [get?_setBody, get?_update, get?_update, if_neg hne, lp, live]
  by_cases hx : other = scope
  · subst hx
    rw [if_pos rfl, if_neg hne, if_pos rfl]
    rfl
  · rw [if_neg hx, if_neg hx]
    rfl

theorem Sound.attached (h : t.Sound) {scope id : EntryId} (ha : t.Attached scope id t') :
    t'.Sound := by
  have hattached := ha
  obtain ⟨e, p, b, live, hdet, hroot, hname, lp, hs, hfree, hunder, rfl⟩ := hattached
  exact h.of_placed false ((h.slots.update _ _).update _ _) live hdet hroot hname lp hs hfree
    hunder (ha.get? live lp hs)

/-! ## Renaming -/

/-- The scope of an entry, if it has one, finds it under the new name, which was free. -/
def Relabelled (t : Table) (id : EntryId) (e : Entry) (name : String) (t' : Table) : Prop :=
  (e.owner = none ∧ t' = t) ∨ ∃ scope p b, e.owner = some scope ∧ t.get? scope = some p ∧
    p.scope? = some b ∧ b.find? name = none ∧ t' = t.setBody scope (b.relabel id e.name name)

/-- The entry has the name, which its scope finds it under. -/
def Renamed (t : Table) (id : EntryId) (name : String) (t' : Table) : Prop :=
  ∃ e, t.get? id = some e ∧ name ≠ "" ∧ ((e.name = name ∧ t' = t) ∨
    (e.name ≠ name ∧ ∃ u, t.Relabelled id e name u ∧
      t' = u.update id fun e => { e with name := name }))

theorem relabel_atomic (t : Table) (id : EntryId) (e : Entry) (name : String) :
    (relabel e.owner id e.name name).Atomic t fun _ => t.Relabelled id e name := by
  unfold relabel
  cases ho : e.owner with
  | none => exact .done (run_pure () t) (Or.inl ⟨ho, rfl⟩)
  | some scope =>
    refine .look_bind ?_
    intro b hb
    obtain ⟨p, live, hs, hfree⟩ := requireFree_eq_ok.mp hb
    exact .done (run_change _ t) (Or.inr ⟨scope, p, b, ho, live, hs, hfree, rfl⟩)

theorem rename_atomic (t : Table) (id : EntryId) (name : String) :
    (rename id name).Atomic t fun _ => t.Renamed id name := by
  unfold rename
  refine .refuseIf_bind fun hname => .look_bind ?_
  intro e he
  have live := liveEntry_eq_ok.mp he
  by_cases heq : e.name = name
  · rw [if_pos heq]
    exact .done (run_pure () t) ⟨e, live, hname, Or.inl ⟨heq, rfl⟩⟩
  · rw [if_neg heq]
    apply (relabel_atomic t id e name).bind
    intro _ u hu
    exact ⟨(), _, run_change _ u, e, live, hname, Or.inr ⟨heq, u, hu, rfl⟩⟩

/-- What is found once the scope and the entry have the new name. -/
theorem Relabelled.found (h : t.Sound) {id : EntryId} {e : Entry} {name : String} {u : Table}
    (hu : t.Relabelled id e name u) (live : t.get? id = some e)
    (ht' : t' = u.update id fun e => { e with name := name }) :
    t'.get? id = some { e with name := name } ∧
    (∀ scope p b, e.owner = some scope → t.get? scope = some p → p.scope? = some b →
      b.find? name = none ∧
        t'.get? scope = some { p with storage := .scope (b.relabel id e.name name) }) ∧
    ∀ x, x ≠ id → e.owner ≠ some x → t'.get? x = t.get? x := by
  subst ht'
  rcases hu with ⟨hdet, rfl⟩ | ⟨scope, p, b, ho, lp, hs, hfree, rfl⟩
  · refine ⟨?_, ?_, ?_⟩
    · rw [get?_update, if_pos rfl, live]
      rfl
    · intro scope _ _ ho
      rw [hdet] at ho
      exact absurd ho (by simp)
    · intro x hx _
      rw [get?_update, if_neg hx]
  · obtain ⟨n, hn⟩ := h.level id e live
    have hne : scope ≠ id := fun heq => hn.not_under_owned live ho (heq ▸ .self)
    refine ⟨?_, ?_, ?_⟩
    · rw [get?_update, if_pos rfl, get?_setBody, if_neg hne.symm, live]
      rfl
    · -- the scope of the entry is the one whose index was changed
      intro scope' p' b' ho' lp' hs'
      obtain rfl := Option.mem_unique ho ho'
      obtain rfl := Option.mem_unique lp lp'
      obtain rfl := Option.mem_unique hs hs'
      refine ⟨hfree, ?_⟩
      rw [get?_update, if_neg hne, get?_setBody, if_pos rfl, lp]
      rfl
    · intro x hx hox
      rw [get?_update, if_neg hx, get?_setBody, if_neg fun heq : x = scope => hox (heq ▸ ho)]

theorem Relabelled.slotsOk (h : t.SlotsOk) {id : EntryId} {e : Entry} {name : String}
    (hu : t.Relabelled id e name t') : t'.SlotsOk := by
  rcases hu with ⟨_, rfl⟩ | ⟨scope, p, b, _, _, _, _, rfl⟩
  · exact h
  · exact h.update scope _

theorem Sound.renamed (h : t.Sound) {id : EntryId} {name : String} (hr : t.Renamed id name t') :
    t'.Sound := by
  obtain ⟨e, live, hname, ⟨_, rfl⟩ | ⟨_, u, hu, rfl⟩⟩ := hr
  · exact h
  obtain ⟨atId, atScope, elsewhere⟩ := hu.found h live rfl
  exact h.of_renamed ((hu.slotsOk h.slots).update _ _) live hname
    (fun scope p b ho lp hs => (atScope scope p b ho lp hs).1) atId
    (fun scope p b ho lp hs => (atScope scope p b ho lp hs).2) elsewhere

end Table
end Settings

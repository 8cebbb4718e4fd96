import Settings.Proofs.Table.Copies
import Settings.Proofs.Table.Values

/-!
# Walks

Some walks through a table only look, and what they come to is a value: a chain, or a tree, with one
link or node for each entry that was met. Others free, record or copy as they go, through a table
that is another one after every step. Both kinds come to an end from every live entry, and meet no
entry twice.

For the walks that change the table this is told by a row of single steps. `vacateLive` and
`recordLive` are one step each and end with a fault where the entry is gone. The walk that frees is
such a row over the entries of the tree, the walk that records one over the registered ones, and
since the entries of a row are different and were all live, no step faults. For the walk that copies
it is told by the slots that it takes, one for each entry of the tree.
-/

set_option autoImplicit false

namespace Settings

/-! ## What is met through registered children -/

namespace Tree

mutual

/-- The handles that are met on a walk that leaves builtins out. -/
def registered : Tree → List EntryId
  | node i _ es _ => i :: registeredAll es

def registeredAll : List Tree → List EntryId
  | [] => []
  | x :: xs => registered x ++ registeredAll xs

end

theorem registeredAll_eq (xs : List Tree) : registeredAll xs = xs.flatMap registered := by
  induction xs with
  | nil => simp [registeredAll]
  | cons x xs ih => simp [registeredAll, ih]

theorem registered_node (id : EntryId) (e : Entry) (es bs : List Tree) :
    (node id e es bs).registered = id :: es.flatMap registered := by
  simp [registered, registeredAll_eq]

mutual

theorem registered_sublist_ids : ∀ x : Tree, x.registered.Sublist x.ids
  | node id e es bs => by
    simp only [registered, ids]
    exact ((registeredAll_sublist_idsAll es).trans (List.sublist_append_left _ _)).cons_cons id

theorem registeredAll_sublist_idsAll : ∀ xs : List Tree, (registeredAll xs).Sublist (idsAll xs)
  | [] => by simp [registeredAll]
  | x :: xs => by
    simp only [registeredAll, idsAll]
    exact (registered_sublist_ids x).append (registeredAll_sublist_idsAll xs)

end

mutual

theorem settings_sublist_registered :
    ∀ x : Tree, (x.settings.map Prod.fst).Sublist x.registered
  | node id e es bs => by
    simp only [settings, registered, List.map_append]
    have hrest := settingsAll_sublist_registeredAll es
    split
    · exact hrest.cons_cons id
    · exact hrest.cons id

theorem settingsAll_sublist_registeredAll :
    ∀ xs : List Tree, ((settingsAll xs).map Prod.fst).Sublist (registeredAll xs)
  | [] => by simp [settingsAll]
  | x :: xs => by
    simp only [settingsAll, registeredAll, List.map_append]
    exact (settings_sublist_registered x).append (settingsAll_sublist_registeredAll xs)

end

end Tree

namespace Table

open Edit

variable {ε : Type} {t t' u : Table} {s : Store} {id : EntryId} {x : Tree} {ids : List EntryId}

/-! ## Upwards -/

theorem Links.nodup (h : t.Sound) {links : List (EntryId × Entry)} (hl : t.Links id links) :
    (links.map Prod.fst).Nodup := by
  induction hl with
  | top => simp
  | @owned id owner e links live owned above ih =>
    obtain ⟨n, hn⟩ := h.level id e live
    rw [List.map_cons, List.nodup_cons]
    refine ⟨?_, ih⟩
    intro hid
    exact hn.not_under_owned live owned (above.mem_iff.mp hid)

/-! ## Freeing -/

/-- Frees one entry, which is to be there still. -/
def vacateLive (id : EntryId) : Edit ε Unit := do
  discard (.look (·.liveEntry id))
  .change (·.vacate id)

theorem run_vacateLive {e : Entry} (live : t.get? id = some e) :
    (vacateLive id : Edit ε Unit).run t = (.ok (), t.vacate id) :=
  (discard_look_bind_ok t _ (liveEntry_eq_ok.mpr live)).trans (run_change _ t)

theorem run_forM_vacateLive (hn : ids.Nodup) (hlive : ∀ id ∈ ids, ∃ e, t.get? id = some e) :
    (ids.forM vacateLive : Edit ε Unit).run t = (.ok (), ids.foldl vacate t) := by
  induction ids generalizing t with
  | nil => rfl
  | cons id ids ih =>
    obtain ⟨hid, hn⟩ := List.nodup_cons.mp hn
    obtain ⟨⟨e, live⟩, hlive⟩ := List.forall_mem_cons.mp hlive
    rw [forM_cons, bind_ok _ (run_vacateLive live), ih hn]
    · rfl
    · intro other hother
      rw [get?_vacate, if_neg fun (heq : other = id) => hid (heq ▸ hother)]
      exact hlive other hother

theorem free_foldl_vacate (t : Table) (ids : List EntryId) :
    (ids.foldl vacate t).free = ids.reverse ++ t.free := by
  induction ids generalizing t with
  | nil => rfl
  | cons id ids ih =>
    rw [List.foldl_cons, ih, List.reverse_cons, List.append_assoc]
    rfl

/-- The entries of a tree, each of them live, are freed one after the other. -/
structure Frees (t : Table) (x : Tree) (m : Edit ε Unit) (t' : Table) : Prop where
  run : m.run t = (.ok (), t')
  steps : (x.ids.forM vacateLive : Edit ε Unit).run t = (.ok (), t')
  free : t'.free = x.ids.reverse ++ t.free
  nodup : t'.free.Nodup

/-- A tree can be freed in any table that has its entries and differs elsewhere. -/
theorem frees_freeTree (h : t.Sound) (htree : t.tree id = .ok x) (hu : u.SlotsOk)
    (hsize : u.slots.size = t.slots.size) (hsame : ∀ y ∈ x.ids, u.get? y = t.get? y) :
    u.Frees x (freeTree id : Edit ε Unit) (x.ids.foldl vacate u) := by
  have hx := (tree_eq_ok_iff.mp htree).1.1
  have hlive : ∀ y ∈ x.ids, ∃ e, u.get? y = some e := by
    intro y hy
    rw [hsame y hy]
    exact hx.live_of_mem hy
  constructor
  case run => exact run_freeTree h htree hsize hsame
  case steps => exact run_forM_vacateLive (hx.ids_nodup h) hlive
  case free => exact free_foldl_vacate u x.ids
  case nodup => exact (hu.foldl_vacate (hx.ids_nodup h) hlive).nodup

/-! ## Recording defaults -/

/-- Records the value of one entry, which is to be there, as its default. -/
def recordLive (s : Store) (id : EntryId) : Edit ε Unit := do
  let e ← .look (·.liveEntry id)
  .change (·.set id (e.recordDefault s))

theorem recordDefault_of_scope? {e : Entry} {b : ScopeBody} (h : e.scope? = some b) (s : Store) :
    e.recordDefault s = e := by
  unfold Entry.recordDefault Entry.readText
  rw [scope?_eq_some h]

theorem run_recordLive {e : Entry} (live : t.get? id = some e) (s : Store) :
    (recordLive s id : Edit ε Unit).run t = (.ok (), t.set id (e.recordDefault s)) :=
  (look_bind_ok _ t (liveEntry_eq_ok.mpr live)).trans (run_change _ t)

/-- Only values and headers of entries may differ. -/
def SameFrames (t t' : Table) : Prop :=
  ∀ id, (t'.get? id).map Entry.frame = (t.get? id).map Entry.frame

theorem SameFrames.symm (h : t.SameFrames t') : t'.SameFrames t := fun id => (h id).symm

theorem SameFrames.trans {v : Table} (h : t.SameFrames u) (h' : u.SameFrames v) : t.SameFrames v :=
  fun id => (h' id).trans (h id)

theorem SameFrames.live (h : t.SameFrames u) {e : Entry} (live : t.get? id = some e) :
    ∃ e', u.get? id = some e' ∧ e'.scope? = e.scope? := by
  have := h id
  rw [live, Option.map_some, Option.map_eq_some_iff] at this
  obtain ⟨e', live', hframe⟩ := this
  exact ⟨e', live', congrArg (fun f => f.2.2.2) hframe⟩

theorem sameFrames_set {e e' : Entry} (live : t.get? id = some e) (hframe : e'.frame = e.frame) :
    t.SameFrames (t.set id e') := by
  intro other
  rw [get?_set t id other e' (index_lt_of_get? live)]
  by_cases hother : other = id
  · rw [if_pos hother, hother, live, Option.map_some, Option.map_some, hframe]
  · rw [if_neg hother]

theorem forM_append_of_ok {g : EntryId → Edit ε Unit} {as : List EntryId} (bs : List EntryId)
    (h : (as.forM g).run t = (.ok (), u)) : ((as ++ bs).forM g).run t = (bs.forM g).run u := by
  have happend : (as ++ bs).forM g = as.forM g >>= fun _ => bs.forM g := List.forM_append
  rw [happend, bind_ok _ h]

/-- The walk that records defaults and the row of single steps come to the same table, one in which
entries have kept their places. -/
def Records (ε : Type) (s : Store) (walk : Edit ε Unit) (row : List EntryId) (u t' : Table) :
    Prop :=
  walk.run u = (.ok (), t') ∧ (row.forM (recordLive s) : Edit ε Unit).run u = (.ok (), t') ∧
    u.SameFrames t'

theorem records_forM {depth : Nat} {xs : List Tree}
    (hrun : ∀ x ∈ xs, ∀ u, t.SameFrames u →
      ∃ v, Records ε s (updateWithin s depth x.id) x.registered u v) (hu : t.SameFrames u) :
    ∃ v, Records ε s ((xs.map Tree.id).forM (updateWithin s depth)) (xs.flatMap Tree.registered)
      u v := by
  induction xs generalizing u with
  | nil => exact ⟨u, rfl, rfl, fun _ => rfl⟩
  | cons x xs ih =>
    obtain ⟨hx, hxs⟩ := List.forall_mem_cons.mp hrun
    obtain ⟨v, hwalk, hsteps, hv⟩ := hx u hu
    obtain ⟨w, hwalks, hrow, hw⟩ := ih hxs (hu.trans hv)
    refine ⟨w, ?_, ?_, hv.trans hw⟩
    · rw [List.map_cons, forM_cons, bind_ok _ hwalk, hwalks]
    · rw [List.flatMap_cons, forM_append_of_ok _ hsteps, hrow]

/-- Values and headers may have changed since the tree was looked at, as they do on the way. -/
theorem records_updateWithin (hx : t.Holds x) (s : Store) {depth : Nat} (hd : x.height ≤ depth)
    (hu : t.SameFrames u) :
    ∃ v, Records ε s (updateWithin s depth x.id) x.registered u v := by
  induction hx generalizing depth u with
  | @leaf id e live plain =>
    cases depth with
    | zero => simp [Tree.height] at hd
    | succ depth =>
      obtain ⟨e', live', hscope⟩ := hu.live live
      have hstep := run_recordLive (ε := ε) live' s
      refine ⟨u.set id (e'.recordDefault s), ?_, ?_,
        sameFrames_set live' (e'.frame_recordDefault s)⟩
      · unfold updateWithin
        refine (look_bind_ok _ u (liveEntry_eq_ok.mpr live')).trans ?_
        rw [hscope, plain]
        exact run_change _ u
      · rw [Tree.registered_node, List.flatMap_nil, forM_cons, bind_ok _ hstep]
        rfl
  | @scope id e b es bs live body entries builtins held ih =>
    cases depth with
    | zero => simp [Tree.height] at hd
    | succ depth =>
      obtain ⟨e', live', hscope⟩ := hu.live live
      have hd := Tree.height_le_succ.mp hd
      have hes : ∀ x ∈ es, ∀ u, t.SameFrames u →
          ∃ v, Records ε s (updateWithin s depth x.id) x.registered u v := by
        intro x hx u hu
        have hmem := List.mem_append_left bs hx
        exact ih x hmem (hd x hmem) hu
      obtain ⟨v, hwalk, hsteps, hv⟩ := records_forM hes hu
      rw [body] at hscope
      refine ⟨v, ?_, ?_, hv⟩
      · unfold updateWithin
        refine (look_bind_ok _ u (liveEntry_eq_ok.mpr live')).trans ?_
        rw [hscope]
        show (b.entries.forM (updateWithin s depth)).run u = _
        rw [← entries, hwalk]
      · -- the step at the scope itself has nothing to record
        have hstep := run_recordLive (ε := ε) live' s
        rw [recordDefault_of_scope? hscope, set_get? live'] at hstep
        rw [Tree.registered_node, forM_cons, bind_ok _ hstep, hsteps]

theorem records_updateDefault (htree : t.tree id = .ok x) (s : Store) :
    ∃ t', Records ε s (updateDefault s id) x.registered t t' := by
  obtain ⟨⟨hx, hh⟩, rfl⟩ := tree_eq_ok_iff.mp htree
  obtain ⟨t', hwalk, hsteps⟩ := records_updateWithin (ε := ε) hx s hh (u := t) fun _ => rfl
  exact ⟨t', (look_bind_ok _ t rfl).trans hwalk, hsteps⟩

/-! ## Removing -/

/-- The scope of an entry is a scope and lists it, so that it can be taken off the lists. -/
theorem Sound.run_unlist (h : t.Sound) {e : Entry} (live : t.get? id = some e) :
    ∃ u, (unlist e.owner id e.name).run t = (.ok (), u) ∧ t.Unlisted id e u := by
  rcases unlist_atomic t id e with ⟨y, hy⟩ | ⟨_, u, hrun, hu⟩
  · cases ho : e.owner with
    | none =>
      rw [ho] at hy
      exact absurd (congrArg Prod.fst hy) (by simp [unlist, run_pure])
    | some owner =>
      obtain ⟨p, b, lp, hb, _⟩ := h.owned id e owner live ho
      rw [ho, unlist, look_bind_ok _ t (scopeBody_eq_ok.mpr ⟨p, lp, hb⟩)] at hy
      exact absurd (congrArg Prod.fst hy) (by simp [run_change])
  · exact ⟨u, hrun, hu⟩

theorem Sound.run_remove (h : t.Sound) {e : Entry} (live : t.get? id = some e)
    (htree : t.tree id = .ok x) (hroot : id ≠ Table.root) :
    ∃ u t', (remove id).run t = (.ok (), t') ∧ t.Unlisted id e u ∧
      u.Frees x (freeTree id : Edit TreeError Unit) t' := by
  obtain ⟨u, hrun, hu⟩ := h.run_unlist live
  have hfrees := frees_freeTree (ε := TreeError) h htree (hu.slotsOk h.slots) hu.size_slots
    fun y hy => hu.get?_of_ne (h.not_mem_ids live htree hy)
  refine ⟨u, _, ?_, hu, hfrees⟩
  unfold remove
  refine (refuseIf_bind_neg t hroot _ _).trans ?_
  refine (look_bind_ok _ t (liveEntry_eq_ok.mpr live)).trans ?_
  exact (bind_ok _ hrun).trans hfrees.run

/-! ## All walks from an entry -/

/-- The way up from an entry and the tree under it, with what the walks make of them: all of them
end, and none meets an entry twice. -/
structure Walks (t : Table) (s : Store) (id : EntryId) (e : Entry)
    (links : List (EntryId × Entry)) (x : Tree) : Prop where
  chain : t.chain id = .ok links ∧ t.Links id links
  links_nodup : (links.map Prod.fst).Nodup
  tree : t.tree id = .ok x ∧ t.Holds x
  ids_nodup : x.ids.Nodup
  registered : x.registered.Sublist x.ids
  validated : ∃ ids, t.validate s id = .ok ids ∧ ids.Sublist x.registered
  /-- Listing goes along the tree, level by level. -/
  listed : ∀ indent column, t.listing s id indent column =
    .ok (Listing.piecesAll indent column (x.outline s))
  recorded : ∃ t', Records Empty s (updateDefault s id) x.registered t t'
  copied : ∃ f t', (clone id : Edit Empty EntryId).run t = (.ok (f id), t') ∧
    x.ids.map f = t.nextSlots x.ids.length ∧ t.Takes x.ids.length t'
  removed : id ≠ root → ∃ u t', (remove id).run t = (.ok (), t') ∧ t.Unlisted id e u ∧
    u.Frees x (freeTree id : Edit TreeError Unit) t'
  released : e.temporary = true → ∃ t', t.Frees x (release id) t'

theorem validate_of_tree (htree : t.tree id = .ok x) (s : Store) :
    ∃ ids, t.validate s id = .ok ids ∧ ids.Sublist x.registered := by
  unfold validate
  rw [htree]
  refine ⟨_, rfl, ((List.filter_sublist).map Prod.fst).trans ?_⟩
  refine (Tree.settingsAll_sublist_registeredAll x.entries).trans ?_
  cases x with
  | node i e es bs =>
    show (Tree.registeredAll es).Sublist _
    rw [Tree.registered]
    exact List.sublist_cons_self i _

theorem Sound.walks (h : t.Sound) {e : Entry} (live : t.get? id = some e) (s : Store) :
    ∃ links x, t.Walks s id e links x := by
  obtain ⟨links, hchain, hlinks⟩ := h.exists_chain live
  obtain ⟨x, htree⟩ := h.exists_tree live
  have hx := (tree_eq_ok_iff.mp htree).1.1
  refine ⟨links, x, ⟨hchain, hlinks⟩, hlinks.nodup h, ⟨htree, hx⟩, hx.ids_nodup h,
    x.registered_sublist_ids, validate_of_tree htree s, ?_, records_updateDefault htree s, ?_,
    h.run_remove live htree, ?_⟩
  · intro indent column
    unfold listing
    rw [htree]
    rfl
  · obtain ⟨f, t', hrun, hcopied⟩ := run_clone (ε := Empty) h htree
    exact ⟨f, t', hrun, hcopied.map, hcopied.takes⟩
  · intro htemp
    have hfrees := frees_freeTree (ε := TreeError) h htree h.slots rfl fun _ _ => rfl
    refine ⟨_, ?_, hfrees.steps, hfrees.free, hfrees.nodup⟩
    unfold release
    refine (look_bind_ok _ t (liveEntry_eq_ok.mpr live)).trans ?_
    exact (refuseIf_bind_neg t (by simp [htemp]) _ _).trans hfrees.run

end Table
end Settings

import Settings.Proofs.Session.Ways
import Settings.Proofs.Table.Walks

/-!
# Attaching a tree

An entry without an owner is attached to a scope unless it would come to lie inside itself. The
check goes up from the scope and the tree goes down from the entry, so that the one tells about the
other rests on the invariant (`Holds.mem_ids`). `Attachable` lists the conditions, and `PutIn` tells
what an attachment comes to: the tree hangs in the scope as it was, and the paths of all its entries
are longer by the path of its top.
-/

set_option autoImplicit false

namespace Settings

/-- The body of a scope that has got one registered child more. -/
structure ScopeBody.Gained (b : ScopeBody) (id : EntryId) (name : String) (b' : ScopeBody) :
    Prop where
  entries : b'.entries = b.entries ++ [id]
  builtins : b'.builtins = b.builtins
  structureType : b'.structureType = b.structureType
  index : ∀ other, b'.find? other = if other = name then some id else b.find? other

namespace Table

open Edit

variable {t t' : Table} {scope id : EntryId} {e p : Entry} {b : ScopeBody} {x : Tree}

/-- The conditions for an attachment. No child of the scope has the name of the entry, and the scope
is not in the entry's tree, the entry itself included. -/
structure Attachable (t : Table) (scope id : EntryId) (e : Entry) (x : Tree) : Prop where
  not_root : id ≠ root
  detached : e.owner = none
  named : e.name ≠ ""
  outside : scope ∉ x.ids
  place : ∃ p b, t.get? scope = some p ∧ p.scope? = some b ∧
    ∀ c ∈ b.children, ∀ ec, t.get? c = some ec → ec.name ≠ e.name

/-- The entry, which has the tree, has been attached to the scope. -/
structure PutIn (t : Table) (scope id : EntryId) (e : Entry) (x : Tree) (t' : Table) : Prop where
  entry : t'.get? id = some { e with owner := some scope, temporary := false }
  body : ∃ p b b', t.get? scope = some p ∧ p.scope? = some b ∧
    t'.get? scope = some { p with storage := .scope b' } ∧ b.Gained id e.name b'
  kept : ∀ y, y ≠ id → y ≠ scope → t'.get? y = t.get? y
  free : t'.free = t.free
  slots : t'.slots.size = t.slots.size
  tree : t'.tree id = .ok
    (.node id { e with owner := some scope, temporary := false } x.entries x.builtins)
  path : ∀ d ∈ x.ids, ∃ above below, t'.pathOf id = .ok above ∧ t.pathOf d = .ok below ∧
    t'.pathOf d = .ok (if d = id then above else above ++ "." ++ below)

/-! ## The outcome -/

theorem ScopeOk.find?_eq_none_iff (h : t.ScopeOk scope b) {name : String} :
    b.find? name = none ↔ ∀ c ∈ b.children, ∀ ec, t.get? c = some ec → ec.name ≠ name := by
  constructor
  · intro hnone c hc ec lc hname
    rw [(h.find?_iff name c).mpr ⟨hc, ec, lc, hname⟩] at hnone
    exact absurd hnone (by simp)
  · intro hfree
    apply Option.eq_none_iff_forall_ne_some.mpr
    intro c hfound
    obtain ⟨hc, ec, lc, hname⟩ := (h.find?_iff name c).mp hfound
    exact hfree c hc ec lc hname

theorem requireFree_ne_wouldCycle (lp : t.get? scope = some p) (name other : String) :
    t.requireFree scope name ≠ .error (.error (.wouldCycle other)) := by
  unfold requireFree scopeBody
  rw [liveEntry_eq_ok.mpr lp]
  cases hb : p.scope? with
  | none => simp [bind, Except.bind, hb, throw, throwThe, MonadExceptOf.throw]
  | some b =>
    cases hf : b.find? name <;>
      simp [bind, Except.bind, hb, hf, pure, Except.pure, throw, throwThe, MonadExceptOf.throw]

section

variable (h : t.Sound) (live : t.get? id = some e) (lp : t.get? scope = some p)
  (hroot : id ≠ root) (hdet : e.owner = none) (hname : e.name ≠ "")

include live hroot hdet hname

/-- A named entry without an owner comes to the check against circles. -/
theorem run_attach_of_detached {links : List (EntryId × Entry)}
    (hchain : t.chain scope = .ok links) :
    (attach scope id).run t = (do
      refuseIf (id ∈ links.map Prod.fst) (.wouldCycle e.name)
      discard (look (·.requireFree scope e.name))
      change (·.update id fun e => { e with owner := some scope, temporary := false })
      pushChild scope id false : Edit TreeError Unit).run t := by
  unfold attach
  refine (refuseIf_bind_neg t hroot _ _).trans ?_
  refine (look_bind_ok _ t (liveEntry_eq_ok.mpr live)).trans ?_
  refine (refuseIf_bind_neg t (by simp [hdet]) _ _).trans ?_
  refine (refuseIf_bind_neg t hname _ _).trans ?_
  exact look_bind_ok _ t (congrArg Attempt.ofFault hchain)

include h lp

theorem run_attach_of_under (hu : t.Under id scope) :
    (attach scope id).run t = (.error (.error (.wouldCycle e.name)), t) := by
  obtain ⟨links, hchain, hlinks⟩ := h.exists_chain lp
  rw [run_attach_of_detached live hroot hdet hname hchain]
  exact refuseIf_bind_pos t (hlinks.mem_iff.mpr hu) _ _

/-- Outside of the tree of the entry the scope decides. -/
theorem run_attach_of_not_under (hu : ¬ t.Under id scope) :
    (attach scope id).run t = match t.requireFree scope e.name with
      | .ok b => (.ok (), (t.update id fun e => placed e (some scope)).setBody scope
          (b.push e.name id false))
      | .error y => (.error y, t) := by
  obtain ⟨links, hchain, hlinks⟩ := h.exists_chain lp
  rw [run_attach_of_detached live hroot hdet hname hchain]
  refine (refuseIf_bind_neg t (fun hm => hu (hlinks.mem_iff.mp hm)) _ _).trans ?_
  cases hb : t.requireFree scope e.name with
  | error y => exact discard_look_bind_error t _ hb
  | ok b =>
    obtain ⟨p', lp', hs, _⟩ := requireFree_eq_ok.mp hb
    refine (discard_look_bind_ok t _ hb).trans ?_
    exact run_place live lp' hs fun heq => hu (heq ▸ .self)

end

/-! ## The tree hangs in the scope -/

theorem Attached.keepsPlace (ha : t.Attached scope id t') {y : EntryId} (hy : y ≠ id) :
    t.KeepsPlace t' y := by
  have hattached := ha
  obtain ⟨e, p, b, live, _, _, _, lp, hb, _⟩ := hattached
  intro ey ly
  rw [ha.get? live lp hb, if_neg hy]
  by_cases hs : y = scope
  · subst hs
    obtain rfl := Option.mem_unique lp ly
    exact ⟨_, if_pos rfl, rfl, rfl⟩
  · exact ⟨ey, (if_neg hs).trans ly, rfl, rfl⟩

/-- A tree is as it was with another entry at its top, if that has the same children. -/
theorem Holds.withTop {e e' : Entry} {es bs : List Tree} (hx : t.Holds (.node id e es bs))
    (live : t'.get? id = some e') (hscope : e'.scope? = e.scope?)
    (same : ∀ y ∈ (es ++ bs).flatMap Tree.ids, t'.get? y = t.get? y) :
    t'.Holds (.node id e' es bs) := by
  cases hx with
  | leaf _ plain => exact .leaf live (hscope.trans plain)
  | scope _ body entries builtins held =>
    refine .scope live (hscope.trans body) entries builtins ?_
    intro x hx
    exact (held x hx).congr fun y hy => same y (List.mem_flatMap.mpr ⟨x, hx, hy⟩)

theorem Attached.tree (h : t.Sound) (ha : t.Attached scope id t') (live : t.get? id = some e)
    (htree : t.tree id = .ok x) :
    t'.tree id = .ok (.node id (placed e (some scope)) x.entries x.builtins) := by
  have hattached := ha
  obtain ⟨_, p, b, _, _, _, _, lp, hb, _, hunder, ht'⟩ := hattached
  obtain ⟨⟨hx, hh⟩, rfl⟩ := tree_eq_ok_iff.mp htree
  have hslots : t'.slots.size = t.slots.size := by
    rw [ht']
    exact (size_slots_update _ _ _).trans (size_slots_update _ _ _)
  have hout : scope ∉ x.ids := fun hm => hunder ((hx.mem_ids h).mp hm)
  have hn := hx.ids_nodup h
  have hget := ha.get? live lp hb
  cases x with
  | node id e₀ es bs =>
    obtain rfl := Option.mem_unique live hx.live
    rw [Tree.ids_node] at hout hn
    obtain ⟨hid, hbelow⟩ := not_or.mp fun hm => hout (List.mem_cons.mpr hm)
    refine tree_eq_ok_iff.mpr ⟨⟨hx.withTop ?_ rfl ?_, ?_⟩, rfl⟩
    · exact (hget id).trans (if_pos rfl)
    · intro y hy
      have hscope : y ≠ scope := fun heq => hbelow (heq ▸ hy)
      have htop : y ≠ id := fun heq => (List.nodup_cons.mp hn).1 (heq ▸ hy)
      exact ((hget y).trans (if_neg htop)).trans (if_neg hscope)
    · rw [hslots]
      exact Tree.height_le_succ.mpr (Tree.height_le_succ.mp hh)

/-- What lies under the entry is reached through the scope, by the names by which it was reached
from the entry. -/
theorem Attached.path (h : t.Sound) (ha : t.Attached scope id t') {d : EntryId}
    (hd : t.Under id d) : ∃ above below, t'.pathOf id = .ok above ∧ t.pathOf d = .ok below ∧
      t'.pathOf d = .ok (if d = id then above else above ++ "." ++ below) := by
  have hattached := ha
  obtain ⟨e, p, b, live, hdet, _, _, lp, hb, _, hunder, _⟩ := hattached
  have h' := h.attached ha
  obtain ⟨top, etop, above, ltop, htop, hscope⟩ := h.exists_way lp
  obtain ⟨below, hbelow⟩ := hd.exists_way
  have hne : scope ≠ id := fun heq => hunder (heq ▸ .self)
  have htopne : top ≠ id := fun heq => hunder (heq ▸ hscope.under)
  obtain ⟨etop', ltop', howner, _⟩ := ha.keepsPlace htopne etop ltop
  have live' : t'.get? id = some (placed e (some scope)) :=
    (ha.get? live lp hb id).trans (if_pos rfl)
  -- the way to the scope does not go through the entry
  have hscope' : t'.Way top scope above := hscope.carried h fun x _ hx _ =>
    ha.keepsPlace fun heq => hunder (heq ▸ hx)
  have hbelow' : t'.Way id d below := hbelow.carried h fun x _ _ hx => ha.keepsPlace hx
  have hid' : t'.Way top id (above ++ [(placed e (some scope)).name]) := .owned live' rfl hscope'
  have detached' : etop'.owner = none := howner.trans htop
  refine ⟨_, _, hid'.pathOf h' ltop' detached', hbelow.pathOf h live hdet, ?_⟩
  rw [(hid'.trans hbelow').pathOf h' ltop' detached']
  by_cases hdid : d = id
  · rw [if_pos hdid, (hbelow.eq_nil_iff h).mpr hdid, List.append_nil]
  · have hne : below ≠ [] := fun hnil => hdid ((hbelow.eq_nil_iff h).mp hnil)
    rw [if_neg hdid, pathOfNames_append (by simp) hne]

theorem Attached.putIn (h : t.Sound) (ha : t.Attached scope id t') (live : t.get? id = some e)
    (htree : t.tree id = .ok x) : t.PutIn scope id e x t' := by
  have hattached := ha
  obtain ⟨e', p, b, live', _, _, _, lp, hb, _, hunder, ht'⟩ := hattached
  obtain rfl := Option.mem_unique live live'
  obtain ⟨⟨hx, _⟩, hid⟩ := tree_eq_ok_iff.mp htree
  have hne : id ≠ scope := fun heq => hunder (heq ▸ .self)
  have hget := ha.get? live lp hb
  constructor
  case entry => exact (hget id).trans (if_pos rfl)
  case body =>
    refine ⟨p, b, b.push e.name id false, lp, hb, ?_, rfl, rfl, rfl, ?_⟩
    · rw [hget, if_neg hne.symm, if_pos rfl]
    · exact fun other => find?_push b e.name other id false
  case kept =>
    intro y hy hs
    rw [hget, if_neg hy, if_neg hs]
  case free =>
    rw [ht']
    exact (free_update _ _ _).trans (free_update _ _ _)
  case slots =>
    rw [ht']
    exact (size_slots_update _ _ _).trans (size_slots_update _ _ _)
  case tree => exact ha.tree h live htree
  case path =>
    intro d hd
    rw [hx.mem_ids h, hid] at hd
    exact ha.path h hd

theorem Attached.attachable (h : t.Sound) (ha : t.Attached scope id t')
    (live : t.get? id = some e) (htree : t.tree id = .ok x) : t.Attachable scope id e x := by
  obtain ⟨e', p, b, live', hdet, hroot, hname, lp, hb, hfree, hunder, _⟩ := ha
  obtain rfl := Option.mem_unique live live'
  obtain ⟨⟨hx, _⟩, rfl⟩ := tree_eq_ok_iff.mp htree
  exact ⟨hroot, hdet, hname, fun hm => hunder ((hx.mem_ids h).mp hm), p, b, lp, hb,
    (h.scope scope p b lp hb).find?_eq_none_iff.mp hfree⟩

theorem Attachable.exists_run (h : t.Sound) (ha : t.Attachable scope id e x)
    (live : t.get? id = some e) (htree : t.tree id = .ok x) :
    ∃ t', (attach scope id).run t = (.ok (), t') := by
  obtain ⟨hroot, hdet, hname, hout, p, b, lp, hb, hplace⟩ := ha
  obtain ⟨⟨hx, _⟩, rfl⟩ := tree_eq_ok_iff.mp htree
  have hunder : ¬ t.Under x.id scope := fun hu => hout ((hx.mem_ids h).mpr hu)
  have hfree : t.requireFree scope e.name = .ok b :=
    requireFree_eq_ok.mpr ⟨p, lp, hb, (h.scope scope p b lp hb).find?_eq_none_iff.mpr hplace⟩
  rw [run_attach_of_not_under h live lp hroot hdet hname hunder, hfree]
  exact ⟨_, rfl⟩

/-- An entry with a name and no owner is said to close a circle just if the scope is in its tree. -/
theorem Sound.attach_wouldCycle_iff (h : t.Sound) (live : t.get? id = some e)
    (lp : t.get? scope = some p) (htree : t.tree id = .ok x) (hroot : id ≠ Table.root)
    (hdet : e.owner = none) (hname : e.name ≠ "") (name : String) :
    ((attach scope id).run t).1 = .error (.error (.wouldCycle name)) ↔
      name = e.name ∧ scope ∈ x.ids := by
  obtain ⟨⟨hx, _⟩, rfl⟩ := tree_eq_ok_iff.mp htree
  rw [hx.mem_ids h]
  by_cases hu : t.Under x.id scope
  · rw [run_attach_of_under h live lp hroot hdet hname hu]
    simp [hu, eq_comm]
  · rw [run_attach_of_not_under h live lp hroot hdet hname hu]
    have hne := requireFree_ne_wouldCycle lp e.name name
    cases hfree : t.requireFree scope e.name with
    | ok b => simp [hu]
    | error y =>
      rw [hfree] at hne
      simpa [hu] using hne

/-! ## Requests -/

/-- An entry is attached to a scope just if it can be, and the check against circles is right. What
is attached hangs in the scope with the tree that it had, and is no temporary any more. -/
theorem attach_iff_attachable (h : t.Reachable) (live : t.get? id = some e)
    (lp : t.get? scope = some p) (s : Store) :
    ∃ x, t.tree id = .ok x ∧
      ((∃ t' s', (Request.attach scope id).answer t s = .ok (.ok (), t', s')) ↔
        t.Attachable scope id e x) ∧
      (id ≠ root → e.owner = none → e.name ≠ "" → ∀ name,
        ((∃ t' s', (Request.attach scope id).answer t s =
          .ok (.error (.wouldCycle name), t', s')) ↔ name = e.name ∧ scope ∈ x.ids)) ∧
      ∀ t' s', (Request.attach scope id).answer t s = .ok (.ok (), t', s') →
        s' = s ∧ t.PutIn scope id e x t' ∧ ∀ s'', (Request.release id).answer t' s'' =
          .ok (.error (.notTemporary e.name), t', s'') := by
  have sound := h.sound
  obtain ⟨x, htree⟩ := sound.exists_tree live
  have done : ∀ {t' s'}, (Request.attach scope id).answer t s = .ok (.ok (), t', s') →
      t.Attached scope id t' ∧ s' = s :=
    fun ha => Request.edited_done (attach_atomic t scope id) ha
  refine ⟨x, htree, ⟨?_, ?_⟩, ?_, ?_⟩
  · rintro ⟨t', s', ha⟩
    exact (done ha).1.attachable sound live htree
  · intro ha
    obtain ⟨t', hrun⟩ := ha.exists_run sound live htree
    exact ⟨t', s, congrArg (Request.answer.edited s) hrun⟩
  · intro hroot hdet hname name
    rw [← sound.attach_wouldCycle_iff live lp htree hroot hdet hname name]
    constructor
    · rintro ⟨t', s', ha⟩
      exact congrArg Prod.fst (Request.edited_eq_ok ha).1
    · intro hrun
      refine ⟨((attach scope id).run t).2, s, ?_⟩
      show Except.map _ ((attach scope id).run t).1.settle = _
      rw [hrun]
      rfl
  · intro t' s' ha
    obtain ⟨hattached, hs⟩ := done ha
    have hput := hattached.putIn sound live htree
    refine ⟨hs, hput, ?_⟩
    intro s''
    exact congrArg (Request.answer.edited s'')
      (run_release (sound.attached hattached) hput.entry)

/-- A scope with a value in it, copied and renamed, beside the scope that it was copied from. -/
theorem copy_is_attached_beside_its_original :
    let t := ((Session.fresh "root" "").after
      [.ask (.register root "pop" "" (.scope "")), .ask (.register ⟨1⟩ "size" "" .number),
        .ask (.clone ⟨1⟩), .ask (.rename ⟨3⟩ "copy")]).table
    t.Reachable ∧ ∃ e p, t.get? ⟨3⟩ = some e ∧ t.get? root = some p ∧ ∃ x,
      t.tree ⟨3⟩ = .ok x ∧ ((∃ t' s', (Request.attach root ⟨3⟩).answer t .empty =
        .ok (.ok (), t', s')) ↔ t.Attachable root ⟨3⟩ e x) ∧
      ∃ t' s', (Request.attach root ⟨3⟩).answer t .empty = .ok (.ok (), t', s') ∧
        t.PutIn root ⟨3⟩ e x t' := by
  intro t
  have h : t.Reachable := ⟨"root", "", _, rfl⟩
  obtain ⟨e, live⟩ := contains_iff.mp (show t.contains ⟨3⟩ = true by decide +kernel)
  obtain ⟨p, lp⟩ := contains_iff.mp (show t.contains root = true by decide +kernel)
  obtain ⟨x, htree, hiff, _, hdone⟩ := attach_iff_attachable h live lp .empty
  have hanswer : (Request.attach root ⟨3⟩).answer t .empty = .ok (.ok (), _, .empty) := rfl
  exact ⟨h, e, p, live, lp, x, htree, hiff, _, _, hanswer, (hdone _ _ hanswer).2.1⟩

end Table
end Settings

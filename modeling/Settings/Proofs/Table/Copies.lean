import Settings.Proofs.Table.Images

/-!
# What copying does

Copying takes slots in the order in which the tree lists its entries, an entry before its children.
So the map from originals to copies is known before the copying begins: it sends the entries of the
tree to the slots to come, in order, and the induction over the tree has one map from beginning to
end.

The table grows while its trees are walked. What is walked are the trees of the table at the start,
`t₀` below, and these stay as they are, because only slots that were free are written to.
-/

set_option autoImplicit false

namespace Settings
namespace Table

open Edit

variable {ε : Type} {t₀ t t' : Table} {f : EntryId → EntryId}

/-- The tree has come in, owned as given, and nothing else has changed. -/
structure Cloned (f : EntryId → EntryId) (owner : Option EntryId) (x : Tree) (t t' : Table) :
    Prop where
  slots : t'.SlotsOk
  takes : t.Takes x.ids.length t'
  same : ∀ z, z ∉ x.ids.map f → t'.get? z = t.get? z
  held : t'.Holds (x.copied f owner)

/-- The trees have come in, listed at the end of one list of their scope, and nothing else has
changed. -/
structure RowCloned (f : EntryId → EntryId) (scope : EntryId) (p : Entry) (b : ScopeBody)
    (builtin : Bool) (xs : List Tree) (t t' : Table) : Prop where
  slots : t'.SlotsOk
  takes : t.Takes (xs.flatMap Tree.ids).length t'
  listed : t'.get? scope = some { p with storage := .scope (b.pushAll f builtin xs) }
  same : ∀ z, z ≠ scope → z ∉ (xs.flatMap Tree.ids).map f → t'.get? z = t.get? z
  held : ∀ x ∈ xs, t'.Holds (x.copied f (some scope))

/-- Copying a tree of the first table works on every table that this one has grown to. -/
def ClonesTo (ε : Type) (t₀ : Table) (f : EntryId → EntryId) (depth : Nat) (x : Tree) : Prop :=
  ∀ (t : Table) (owner : Option EntryId), t.SlotsOk → t₀.Extends t →
    x.ids.map f = t.nextSlots x.ids.length →
    ∃ t', (cloneWithin depth owner x.id : Edit ε EntryId).run t = (.ok (f x.id), t') ∧
      Cloned f owner x t t'

/-- The copies of a row of children, each listed once it is complete. -/
def cloneRow (depth : Nat) (scope : EntryId) (builtin : Bool) (ids : List EntryId) : Edit ε Unit :=
  ids.forM fun c => do pushChild scope (← cloneWithin depth (some scope) c) builtin

/-- Writing to slots that were free, and to a scope that came in later, leaves the first table
within the last. -/
theorem Extends.of_same {scope : EntryId} {ids : List EntryId} (hext : t₀.Extends t)
    (hscope : t₀.get? scope = none) (hfree : ∀ z ∈ ids, t.get? z = none)
    (hsame : ∀ z, z ≠ scope → z ∉ ids → t'.get? z = t.get? z) : t₀.Extends t' := by
  intro z e live
  have live' := hext z e live
  rw [hsame z ?_ ?_, live']
  · rintro rfl
    rw [live] at hscope
    exact absurd hscope (by simp)
  · intro hz
    rw [hfree z hz] at live'
    exact absurd live' (by simp)

theorem SlotsOk.not_mem_nextSlots (h : t.SlotsOk) {z : EntryId} {e : Entry} {n : Nat}
    (live : t.get? z = some e) : z ∉ t.nextSlots n := by
  intro hz
  rw [h.get?_nextSlots hz] at live
  exact absurd live (by simp)

theorem run_cloneRow {depth : Nat} {xs : List Tree} (hclone : ∀ x ∈ xs, ClonesTo ε t₀ f depth x)
    (builtin : Bool) {scope : EntryId} {p : Entry} {b : ScopeBody} (hslots : t.SlotsOk)
    (hext : t₀.Extends t) (hscope : t₀.get? scope = none)
    (live : t.get? scope = some { p with storage := .scope b })
    (hmap : (xs.flatMap Tree.ids).map f = t.nextSlots (xs.flatMap Tree.ids).length) :
    ∃ t', (cloneRow depth scope builtin (xs.map Tree.id) : Edit ε Unit).run t = (.ok (), t') ∧
      RowCloned f scope p b builtin xs t t' := by
  induction xs generalizing t b with
  | nil => exact ⟨t, rfl, hslots, ⟨by simp, by simp⟩, live, fun _ _ _ => rfl, by simp⟩
  | cons x xs ih =>
    obtain ⟨hx, hxs⟩ := List.forall_mem_cons.mp hclone
    rw [List.flatMap_cons] at hmap
    obtain ⟨hfirst, hrest⟩ := map_nextSlots_append hmap
    obtain ⟨u, hrun, hu⟩ := hx t (some scope) hslots hext hfirst
    have hscopeOut : scope ∉ x.ids.map f := hfirst ▸ hslots.not_mem_nextSlots live
    have liveU : u.get? scope = some { p with storage := .scope b } :=
      (hu.same scope hscopeOut).trans live
    have liveX : u.get? (f x.id) = some (x.entry.copied f (some scope)) := by
      have := hu.held.live
      rwa [Tree.id_copied, Tree.entry_copied] at this
    -- the copy is complete, and its scope lists it
    have hpush := run_pushChild (ε := ε) builtin liveX liveU rfl
    rw [Entry.name_copied] at hpush
    let v := u.setBody scope (b.push x.entry.name (f x.id) builtin)
    have liveV : v.get? scope =
        some { p with storage := .scope (b.push x.entry.name (f x.id) builtin) } := by
      rw [get?_setBody, if_pos rfl, liveU]
      rfl
    have sameV : ∀ z, z ≠ scope → v.get? z = u.get? z := fun z hz => by
      rw [get?_setBody, if_neg hz]
    have hextV : t₀.Extends v := hext.of_same hscope
      (fun z hz => hslots.get?_nextSlots (hfirst ▸ hz))
      fun z hz hout => (sameV z hz).trans (hu.same z hout)
    have takesV : t.Takes x.ids.length v := hu.takes.trans (.update u scope _)
    obtain ⟨t', hrun', ht'⟩ := ih hxs (hu.slots.update scope _) hextV liveV (hrest takesV)
    refine ⟨t', ?_, ht'.slots, ?_, ht'.listed, ?_, List.forall_mem_cons.mpr ⟨?_, ht'.held⟩⟩
    · unfold cloneRow
      rw [List.map_cons, forM_cons]
      exact (bind_ok _ ((bind_ok _ hrun).trans hpush)).trans hrun'
    · rw [List.flatMap_cons, List.length_append]
      exact takesV.trans ht'.takes
    · intro z hz hout
      rw [List.flatMap_cons, List.map_append, List.mem_append, not_or] at hout
      exact ((ht'.same z hz hout.2).trans (sameV z hz)).trans (hu.same z hout.1)
    · -- what the rest of the row writes to was still free when this copy was complete
      apply hu.held.congr
      intro y hy
      obtain ⟨ey, ly⟩ := hu.held.live_of_mem hy
      rw [Tree.ids_copied] at hy
      have hne : y ≠ scope := fun heq => hscopeOut (heq ▸ hy)
      have hout : y ∉ (xs.flatMap Tree.ids).map f :=
        hrest takesV ▸ (hu.slots.update scope _).not_mem_nextSlots ((sameV y hne).trans ly)
      exact (ht'.same y hne hout).trans (sameV y hne)

/-- The children of a scope, read off their trees: they are found under their names, which are all
different. -/
theorem Sound.find?_of_held (h : t.Sound) {id : EntryId} {e : Entry} {b : ScopeBody}
    {es bs : List Tree} (hx : t.Holds (.node id e es bs)) (hb : e.scope? = some b) :
    (∀ x ∈ es ++ bs, b.find? x.entry.name = some x.id) ∧
      (es ++ bs).Pairwise (fun x y => x.entry.name ≠ y.entry.name) ∧
      ∀ name c, b.find? name = some c → ∃ x ∈ es ++ bs, x.entry.name = name := by
  have live := hx.live
  have hchildren : (es ++ bs).map Tree.id = b.children := hx.children.trans (children_eq hb)
  have scope := h.scope id e b live hb
  have held := hx.held
  have found : ∀ x ∈ es ++ bs, b.find? x.entry.name = some x.id := fun x hx =>
    (scope.find?_iff _ _).mpr
      ⟨hchildren ▸ List.mem_map_of_mem hx, x.entry, (held x hx).live, rfl⟩
  refine ⟨found, ?_, ?_⟩
  · have hdistinct : (es ++ bs).Pairwise fun x y => x.id ≠ y.id := by
      apply List.pairwise_map.mp
      show ((es ++ bs).map Tree.id).Nodup
      exact hchildren ▸ scope.nodup
    refine hdistinct.imp_of_mem fun {x y} hx hy hne heq => hne ?_
    have := (found x hx).symm.trans (heq ▸ found y hy)
    exact Option.some.inj this
  · intro name c hc
    obtain ⟨hmem, ec, lc, hname⟩ := (scope.find?_iff name c).mp hc
    rw [← hchildren] at hmem
    obtain ⟨x, hx, rfl⟩ := List.mem_map.mp hmem
    have := (held x hx).live
    rw [lc, Option.some.injEq] at this
    exact ⟨x, hx, this ▸ hname⟩

/-- The two rows of children, listed one by one, make the image of the scope. -/
theorem Sound.pushAll_eq_map (h : t.Sound) (f : EntryId → EntryId) {id : EntryId} {e : Entry}
    {b : ScopeBody} {es bs : List Tree} (hx : t.Holds (.node id e es bs))
    (hb : e.scope? = some b) :
    ((ScopeBody.empty b.structureType).pushAll f false es).pushAll f true bs = b.map f := by
  obtain ⟨found, hn, named⟩ := h.find?_of_held hx hb
  obtain ⟨hnes, hnbs, _⟩ := List.pairwise_append.mp hn
  have entries : es.map Tree.id = b.entries ∧ bs.map Tree.id = b.builtins := by
    cases hx with
    | leaf _ plain =>
      rw [hb] at plain
      exact absurd plain (by simp)
    | scope _ body entries builtins _ =>
      obtain rfl := Option.mem_unique hb body
      exact ⟨entries, builtins⟩
  refine ScopeBody.ext_find? ?_ ?_ ?_ ?_
  · rw [ScopeBody.entries_pushAll, ScopeBody.entries_pushAll, entries.1]
    rfl
  · rw [ScopeBody.builtins_pushAll, ScopeBody.builtins_pushAll, entries.2]
    rfl
  · intro name
    have only : ∀ x ∈ es ++ bs, x.entry.name = name → b.find? name = some x.id := fun x hx hname =>
      hname ▸ found x hx
    rw [ScopeBody.find?_pushAll f true _ hnbs, ScopeBody.find?_pushAll f false _ hnes,
      ScopeBody.find?_map]
    cases hbs : bs.find? fun x => x.entry.name = name with
    | some x =>
      have := only x (List.mem_append_right _ (List.mem_of_find?_eq_some hbs))
        (by simpa using List.find?_some hbs)
      simp [this]
    | none =>
      cases hes : es.find? fun x => x.entry.name = name with
      | some x =>
        have := only x (List.mem_append_left _ (List.mem_of_find?_eq_some hes))
          (by simpa using List.find?_some hes)
        simp [this]
      | none =>
        cases hf : b.find? name with
        | none => rfl
        | some c =>
          obtain ⟨x, hx, hname⟩ := named name c hf
          rcases List.mem_append.mp hx with hx | hx
          · exact absurd hname (by simpa using List.find?_eq_none.mp hes x hx)
          · exact absurd hname (by simpa using List.find?_eq_none.mp hbs x hx)
  · rw [ScopeBody.structureType_pushAll, ScopeBody.structureType_pushAll]
    rfl

theorem clonesTo_leaf {id : EntryId} {e : Entry} (live : t₀.get? id = some e)
    (plain : e.scope? = none) (depth : Nat) : ClonesTo ε t₀ f (depth + 1) (.node id e [] []) := by
  intro t owner hslots hext hmap
  rw [Tree.ids_node] at hmap
  have hid : f id = (t.alloc { e with owner := owner }).1 := by
    have := hmap.trans (nextSlots_one t { e with owner := owner })
    simpa using this
  refine ⟨(t.alloc { e with owner := owner }).2, ?_, hslots.alloc _, ?_, ?_, ?_⟩
  · rw [Tree.id]
    unfold cloneWithin
    refine (look_bind_ok _ t (liveEntry_eq_ok.mpr (hext _ _ live))).trans ?_
    rw [Entry.bare_of_plain plain, plain, hid]
    exact alloc_bind t _ _
  · rw [Tree.ids_node]
    exact .alloc t _
  · intro z hz
    rw [hslots.get?_alloc, ← hid, if_neg]
    simpa [Tree.ids_node] using hz
  · rw [Tree.copied_node, Entry.copied_of_plain plain]
    refine .leaf ?_ plain
    rw [hslots.get?_alloc, ← hid, if_pos rfl]

/-- A scope is copied by taking a slot for it and copying its two rows of children. -/
theorem clonesTo_scope (h : t₀.Sound) {id : EntryId} {e : Entry} {b : ScopeBody}
    {es bs : List Tree} (hx : t₀.Holds (.node id e es bs)) (body : e.scope? = some b)
    (entries : es.map Tree.id = b.entries) (builtins : bs.map Tree.id = b.builtins) {depth : Nat}
    (ihes : ∀ x ∈ es, ClonesTo ε t₀ f depth x) (ihbs : ∀ x ∈ bs, ClonesTo ε t₀ f depth x) :
    ClonesTo ε t₀ f (depth + 1) (.node id e es bs) := by
  intro t owner hslots hext hmap
  have live : t₀.get? id = some e := hx.live
  -- the copy comes in with no children
  let p : Entry := { e with owner := owner }
  let bare : Entry := { p with storage := .scope (.empty b.structureType) }
  have hbare : { e.bare with owner := owner } = bare := by rw [Entry.bare_of_scope body]
  rw [Tree.ids_node, ← List.singleton_append] at hmap
  obtain ⟨hfirst, hrest⟩ := map_nextSlots_append hmap
  have hid : f id = (t.alloc bare).1 := by simpa [nextSlots_one t bare] using hfirst
  have takes1 : t.Takes [id].length (t.alloc bare).2 := .alloc t bare
  have hnone : t₀.get? (f id) = none := by
    cases h₀ : t₀.get? (f id) with
    | none => rfl
    | some e₀ => exact absurd hid (hslots.ne_alloc bare (hext _ _ h₀))
  have live1 : (t.alloc bare).2.get? (f id) = some bare := by
    rw [hslots.get?_alloc, if_pos hid]
  have hext1 : t₀.Extends (t.alloc bare).2 := fun z ez lz =>
    hslots.get?_alloc_of_live bare (hext z ez lz)
  have hboth := hrest takes1
  rw [List.flatMap_append] at hboth
  obtain ⟨hes, hbs⟩ := map_nextSlots_append hboth
  -- then the registered children come in, and then the builtin ones
  obtain ⟨u, hrunU, hu⟩ := run_cloneRow ihes false (hslots.alloc bare) hext1 hnone live1 hes
  have hextU : t₀.Extends u := hext1.of_same hnone
    (fun z hz => (hslots.alloc bare).get?_nextSlots (hes ▸ hz)) hu.same
  obtain ⟨t', hrun', ht'⟩ :=
    run_cloneRow ihbs true hu.slots hextU hnone hu.listed (hbs hu.takes)
  have hlisted : t'.get? (f id) = some (e.copied f owner) := by
    rw [ht'.listed, h.pushAll_eq_map f hx body,
      Entry.copied_of_scope body]
  have heldEs : ∀ x ∈ es, t'.Holds (x.copied f (some (f id))) := fun x hx => by
    apply (hu.held x hx).congr
    intro y hy
    obtain ⟨ey, ly⟩ := (hu.held x hx).live_of_mem hy
    refine ht'.same y ?_ (hbs hu.takes ▸ hu.slots.not_mem_nextSlots ly)
    -- the scope was there before the children
    intro heq
    rw [Tree.ids_copied] at hy
    obtain ⟨z, hz, hzy⟩ := List.mem_map.mp hy
    have hmem : y ∈ (es.flatMap Tree.ids).map f :=
      hzy ▸ List.mem_map_of_mem (List.mem_flatMap.mpr ⟨x, hx, hz⟩)
    rw [hes] at hmem
    exact (hslots.alloc bare).not_mem_nextSlots live1 (heq ▸ hmem)
  refine ⟨t', ?_, ht'.slots, ?_, ?_, ?_⟩
  · rw [Tree.id]
    unfold cloneWithin
    refine (look_bind_ok _ t (liveEntry_eq_ok.mpr (hext _ _ live))).trans ?_
    rw [hbare, body, hid]
    refine (alloc_bind t bare _).trans ?_
    rw [← hid]
    have hrunU' := entries ▸ hrunU
    have hrun'' := builtins ▸ hrun'
    exact (bind_ok _ hrunU').trans ((bind_ok _ hrun'').trans (run_pure _ _))
  · rw [Tree.ids_node, List.length_cons, List.flatMap_append, List.length_append,
      Nat.add_comm _ 1]
    exact takes1.trans (hu.takes.trans ht'.takes)
  · intro z hz
    rw [Tree.ids_node, List.map_cons, List.mem_cons, List.flatMap_append, List.map_append,
      List.mem_append, not_or, not_or] at hz
    obtain ⟨hzid, hzes, hzbs⟩ := hz
    rw [ht'.same z hzid hzbs, hu.same z hzid hzes, hslots.get?_alloc, if_neg (hid ▸ hzid)]
  · rw [Tree.copied_node]
    have hids : ∀ xs : List Tree, (xs.map (Tree.copied f (some (f id)))).map Tree.id =
        (xs.map Tree.id).map f := fun xs => by
      simp [Function.comp_def, Tree.id_copied]
    refine .scope hlisted (by rw [Entry.scope?_copied, body]; rfl) ?_ ?_ ?_
    · rw [hids, entries]
      rfl
    · rw [hids, builtins]
      rfl
    · rw [← List.map_append]
      intro y hy
      obtain ⟨x, hx, rfl⟩ := List.mem_map.mp hy
      rcases List.mem_append.mp hx with hx | hx
      · exact heldEs x hx
      · exact ht'.held x hx

theorem clonesTo (h : t₀.Sound) {x : Tree} (hx : t₀.Holds x) {depth : Nat} (hd : x.height ≤ depth) :
    ClonesTo ε t₀ f depth x := by
  induction hx generalizing depth with
  | leaf live plain =>
    cases depth with
    | zero => simp [Tree.height] at hd
    | succ depth => exact clonesTo_leaf live plain depth
  | scope live body entries builtins held ih =>
    cases depth with
    | zero => simp [Tree.height] at hd
    | succ depth =>
      have hd := Tree.height_le_succ.mp hd
      obtain ⟨ihes, ihbs⟩ := List.forall_mem_append.mp fun x hx => ih x hx (hd x hx)
      have hx := Holds.scope live body entries builtins held
      exact clonesTo_scope h hx body entries builtins ihes ihbs

/-! ## The whole copy -/

/-- Different handles can be sent to the members of any row that is as long as theirs. -/
theorem exists_map_eq {as bs : List EntryId} (hn : as.Nodup) (hlen : as.length = bs.length) :
    ∃ f : EntryId → EntryId, as.map f = bs := by
  induction as generalizing bs with
  | nil => exact ⟨fun a => a, (List.eq_nil_of_length_eq_zero hlen.symm).symm⟩
  | cons a as ih =>
    cases bs with
    | nil => simp at hlen
    | cons b bs =>
      obtain ⟨ha, hn⟩ := List.nodup_cons.mp hn
      obtain ⟨f, hf⟩ := ih hn (by simpa using hlen)
      refine ⟨fun x => if x = a then b else f x, ?_⟩
      rw [List.map_cons, if_pos rfl, ← hf, List.cons.injEq]
      exact ⟨rfl, List.map_congr_left fun x hx => if_neg fun (heq : x = a) => ha (heq ▸ hx)⟩

/-- A copy of an entry with everything under it has come in. -/
structure Copied (f : EntryId → EntryId) (x : Tree) (t t' : Table) : Prop
    extends Cloned f none x t t' where
  map : x.ids.map f = t.nextSlots x.ids.length

theorem run_clone (h : t.Sound) {id : EntryId} {x : Tree} (htree : t.tree id = .ok x) :
    ∃ f t', (clone id : Edit ε EntryId).run t = (.ok (f id), t') ∧ Copied f x t t' := by
  obtain ⟨⟨hx, hh⟩, rfl⟩ := tree_eq_ok_iff.mp htree
  obtain ⟨f, hf⟩ := exists_map_eq (hx.ids_nodup h) (t.length_nextSlots x.ids.length).symm
  obtain ⟨t', hrun, hc⟩ := clonesTo (ε := ε) h hx hh t none h.slots (.refl t) hf
  exact ⟨f, t', (look_bind_ok _ t rfl).trans hrun, hc, hf⟩

/-- What became of each entry of a tree is told by the tree of the copy. -/
theorem Holds.get?_copied (h : t.Sound) {x : Tree} (hx : t.Holds x) {owner : Option EntryId}
    (hc : t'.Holds (x.copied f owner)) {y : EntryId} {e : Entry} (hy : y ∈ x.ids)
    (live : t.get? y = some e) :
    t'.get? (f y) = some (e.copied f (if y = x.id then owner else e.owner.map f)) := by
  induction hx generalizing owner with
  | @leaf id e₀ live₀ plain =>
    obtain rfl : y = id := by simpa [Tree.ids_node] using hy
    obtain rfl := Option.mem_unique live live₀
    have := hc.live
    rw [Tree.id_copied, Tree.entry_copied] at this
    rw [if_pos (by rfl)]
    exact this
  | @scope id e₀ b es bs live₀ body entries builtins held ih =>
    have hx := Holds.scope live₀ body entries builtins held
    rcases Tree.mem_ids_node.mp hy with rfl | ⟨x, hxm, hyx⟩
    · obtain rfl := Option.mem_unique live live₀
      have := hc.live
      rw [Tree.id_copied, Tree.entry_copied] at this
      rw [if_pos (by rfl)]
      exact this
    · have hne : y ≠ id := by
        rintro rfl
        have hn := hx.ids_nodup h
        rw [Tree.ids_node, List.nodup_cons] at hn
        exact hn.1 (List.mem_flatMap.mpr ⟨x, hxm, hyx⟩)
      rw [Tree.copied_node] at hc
      have hcx : t'.Holds (x.copied f (some (f id))) := by
        apply hc.held
        rw [← List.map_append]
        exact List.mem_map_of_mem hxm
      rw [ih x hxm hcx hyx, Tree.id, if_neg hne]
      by_cases hyid : y = x.id
      · -- a child is owned by the top, and its copy by the copy of the top
        obtain ⟨ec, lc, _, hoc⟩ := h.child live₀ (hx.children ▸ List.mem_map_of_mem hxm)
        rw [← hyid, live, Option.some.injEq] at lc
        rw [if_pos hyid, lc, hoc]
        rfl
      · rw [if_neg hyid]

namespace Copied

variable {x : Tree}

theorem injOn (h : t.Sound) (hc : Copied f x t t') {y z : EntryId} (hy : y ∈ x.ids)
    (hz : z ∈ x.ids) (heq : f y = f z) : y = z := by
  have hn : (x.ids.map f).Nodup := hc.map ▸ h.slots.nextSlots_nodup _
  exact List.inj_on_of_nodup_map hn hy hz heq

theorem fresh (h : t.Sound) (hc : Copied f x t t') {z : EntryId} (hz : z ∈ x.ids.map f) :
    t.get? z = none := h.slots.get?_nextSlots (hc.map ▸ hz)

theorem keeps (h : t.Sound) (hc : Copied f x t t') : t.Extends t' := fun z e live => by
  rw [hc.same z fun hz => ?_, live]
  rw [hc.fresh h hz] at live
  exact absurd live (by simp)

/-- What is found afterwards was found before, or is the copy of an entry of the tree. -/
theorem get?_cases (h : t.Sound) (hx : t.Holds x) (hc : Copied f x t t') {z : EntryId} {e' : Entry}
    (live : t'.get? z = some e') : t.get? z = some e' ∨ ∃ y e, y ∈ x.ids ∧ z = f y ∧
      t.get? y = some e ∧ e' = e.copied f (if y = x.id then none else e.owner.map f) := by
  by_cases hz : z ∈ x.ids.map f
  · obtain ⟨y, hy, rfl⟩ := List.mem_map.mp hz
    obtain ⟨e, le⟩ := hx.live_of_mem hy
    rw [hx.get?_copied h hc.held hy le, Option.some.injEq] at live
    exact Or.inr ⟨y, e, hy, rfl, le, live.symm⟩
  · exact Or.inl ((hc.same z hz).symm.trans live)

/-- The tree of the copy is the image of the tree. -/
theorem tree {id : EntryId} (htree : t.tree id = .ok x) (hc : Copied f x t t') :
    t'.tree (f id) = .ok (x.copied f none) := by
  obtain ⟨⟨_, hh⟩, rfl⟩ := tree_eq_ok_iff.mp htree
  refine tree_eq_ok_iff.mpr ⟨⟨hc.held, ?_⟩, Tree.id_copied f none x⟩
  rw [Tree.height_copied]
  have := hc.takes.size
  omega

/-- The copy is listed like the original, whatever the host variables hold. -/
theorem configText {id : EntryId} (htree : t.tree id = .ok x) (hc : Copied f x t t') (s : Store) :
    t'.configText s (f id) = t.configText s id := by
  unfold Table.configText listingOfContents
  rw [htree, hc.tree htree]
  cases x with
  | node i e es bs =>
    have hrow : Tree.outlineAll s ((Tree.node i e es bs).copied f none).entries =
        Tree.outlineAll s (Tree.node i e es bs).entries := by
      simp only [Tree.copied, Tree.entries]
      exact Tree.outlineAll_copiedAll s f (some (f i)) es
    simp only [Except.map, hrow]

end Copied

/-- A child of an entry of the tree is in the tree below the top, and so is its copy. -/
theorem Sound.child_copied (h : t.Sound) {x : Tree} (hx : t.Holds x) (hc : Copied f x t t')
    {y c : EntryId} {e : Entry} (hy : y ∈ x.ids) (live : t.get? y = some e) (hm : c ∈ e.children) :
    c ∈ x.ids ∧ ∃ ec, t.get? c = some ec ∧ ec.name ≠ "" ∧
      t'.get? (f c) = some (ec.copied f (some (f y))) := by
  have hcx := hx.child_mem hy live hm
  obtain ⟨ec, lc, hname, hoc⟩ := h.child live hm
  obtain ⟨n, hn⟩ := h.level c ec lc
  have hne : c ≠ x.id := by
    rintro rfl
    exact hn.not_under_owned lc hoc ((hx.mem_ids h).mp hy)
  refine ⟨hcx, ec, lc, hname, ?_⟩
  have := hx.get?_copied h hc.held hcx lc
  rwa [if_neg hne, hoc] at this

/-- A scope has an image in order if its children have images, and different ones. -/
theorem ScopeOk.map {scope scope' : EntryId} {b : ScopeBody} (h : t.ScopeOk scope b)
    (hinj : ∀ c ∈ b.children, ∀ d ∈ b.children, f c = f d → c = d)
    (himage : ∀ c ∈ b.children, ∃ e, t.get? c = some e ∧ e.name ≠ "" ∧
      t'.get? (f c) = some (e.copied f (some scope'))) : t'.ScopeOk scope' (b.map f) where
  nodup := by
    rw [ScopeBody.children_map]
    exact h.nodup.map_on hinj
  child := by
    intro c' hc'
    rw [ScopeBody.children_map] at hc'
    obtain ⟨c, hc, rfl⟩ := List.mem_map.mp hc'
    obtain ⟨e, _, hname, hcopy⟩ := himage c hc
    exact ⟨_, hcopy, by rwa [Entry.name_copied], Entry.owner_copied _ _ _⟩
  find?_iff := by
    intro name c'
    rw [ScopeBody.find?_map, ScopeBody.children_map, Option.map_eq_some_iff]
    constructor
    · rintro ⟨c, hfound, rfl⟩
      obtain ⟨hc, e, live, hname⟩ := (h.find?_iff name c).mp hfound
      obtain ⟨_, live', _, hcopy⟩ := himage c hc
      obtain rfl := Option.mem_unique live live'
      exact ⟨List.mem_map_of_mem hc, _, hcopy, by rwa [Entry.name_copied]⟩
    · rintro ⟨hc', e', live', hname⟩
      obtain ⟨c, hc, rfl⟩ := List.mem_map.mp hc'
      obtain ⟨e, live, _, hcopy⟩ := himage c hc
      obtain rfl := Option.mem_unique hcopy live'
      rw [Entry.name_copied] at hname
      exact ⟨c, (h.find?_iff name c).mpr ⟨hc, e, live, hname⟩, rfl⟩

/-- Up to the copy of the top the owners of the copies are the copies of the owners. -/
theorem Copied.level (h : t.Sound) {x : Tree} (hx : t.Holds x) (hc : Copied f x t t') {y : EntryId}
    (hy : t.Under x.id y) : ∃ n, t'.Level (f y) n := by
  induction hy with
  | self =>
    have top := hx.get?_copied h hc.held x.id_mem_ids hx.live
    rw [if_pos rfl] at top
    exact ⟨0, .top top (Entry.owner_copied _ _ _)⟩
  | @owned y owner e live owned above ih =>
    obtain ⟨n, hn⟩ := ih
    obtain ⟨p, b, lp, hb, hm⟩ := h.owned y e owner live owned
    obtain ⟨_, _, _, _, hcopy⟩ := h.child_copied hx hc ((hx.mem_ids h).mpr above) lp
      (children_eq hb ▸ hm)
    exact ⟨n + 1, .owned hcopy (Entry.owner_copied _ _ _) hn⟩

theorem Sound.copied (h : t.Sound) {x : Tree} (hx : t.Holds x) (hc : Copied f x t t') :
    t'.Sound := by
  have hext := hc.keeps h
  have image := fun {y e} => hx.get?_copied (y := y) (e := e) h hc.held
  constructor
  case slots => exact hc.slots
  case root =>
    obtain ⟨er, br, lr, hbr, hdr⟩ := h.root
    exact ⟨er, br, hext _ _ lr, hbr, hdr⟩
  case scope =>
    intro z e' b' live' hb'
    rcases hc.get?_cases h hx live' with old | ⟨y, e, hy, rfl, live, rfl⟩
    · exact hext.scopeOk (h.scope z e' b' old hb')
    · rw [Entry.scope?_copied] at hb'
      obtain ⟨b, hb, rfl⟩ := Option.map_eq_some_iff.mp hb'
      have child := fun {c} (hm : c ∈ b.children) =>
        h.child_copied hx hc hy live (children_eq hb ▸ hm)
      exact (h.scope y e b live hb).map
        (fun c hm d hd => hc.injOn h (child hm).1 (child hd).1) fun c hm => (child hm).2
  case owned =>
    intro z e' owner live' howner
    rcases hc.get?_cases h hx live' with old | ⟨y, e, hy, rfl, live, rfl⟩
    · exact hext.lists (h.owned z e' owner old howner)
    · rw [Entry.owner_copied] at howner
      split at howner
      · exact absurd howner (by simp)
      · rename_i hne
        obtain ⟨o, ho, rfl⟩ := Option.map_eq_some_iff.mp howner
        obtain ⟨p, b, lp, hb, hm⟩ := h.owned y e o live ho
        have hox : o ∈ x.ids := (hx.mem_ids h).mpr
          ((((hx.mem_ids h).mp hy).above live ho).resolve_left fun heq => hne heq.symm)
        refine ⟨_, b.map f, image hox lp, by rw [Entry.scope?_copied, hb]; rfl, ?_⟩
        rw [ScopeBody.children_map]
        exact List.mem_map_of_mem hm
  case level =>
    intro z e' live'
    rcases hc.get?_cases h hx live' with old | ⟨y, e, hy, rfl, live, rfl⟩
    · obtain ⟨n, hn⟩ := h.level z e' old
      exact ⟨n, hext.level hn⟩
    · exact hc.level h hx ((hx.mem_ids h).mp hy)
  case temporary =>
    intro z e' live' htemp
    rcases hc.get?_cases h hx live' with old | ⟨y, e, hy, rfl, live, rfl⟩
    · exact h.temporary z e' old htemp
    · rw [Entry.temporary_copied] at htemp
      obtain ⟨hdet, hplain⟩ := h.temporary y e live htemp
      rw [Entry.owner_copied, Entry.scope?_copied, hdet, hplain]
      exact ⟨by split <;> rfl, rfl⟩

end Table
end Settings

import Settings.Proofs.Table.Growth

/-!
# Removing a tree

Removing an entry frees the tree under it. The walk takes a slot before it visits the children that
were listed there, and pushes slots on the free list as it goes; that each entry of the tree is met
on it, and none twice, is what the invariant says of lists and owners. `TakenOut` tells what is
left.

A copy has no owner, so taking it out again undoes the copying, slots aside: what the copy took was
free, and nothing else was touched.
-/

set_option autoImplicit false

namespace Settings

/-- The body of a scope that has lost a child: both lists are the old ones without it, and the index
finds what it found, except under the child's name. -/
structure ScopeBody.Lost (b : ScopeBody) (id : EntryId) (name : String) (b' : ScopeBody) :
    Prop where
  entries : b'.entries = b.entries.filter fun c => c ≠ id
  builtins : b'.builtins = b.builtins.filter fun c => c ≠ id
  structureType : b'.structureType = b.structureType
  found : b.find? name = some id
  index : ∀ other, b'.find? other = if other = name then none else b.find? other

theorem ScopeBody.lost_erase {b : ScopeBody} {id : EntryId} {name : String}
    (found : b.find? name = some id) : b.Lost id name (b.erase id name) where
  entries := rfl
  builtins := rfl
  structureType := rfl
  found := found
  index := Table.find?_erase b id name

namespace Table

open Edit

variable {t t' : Table} {id : EntryId} {e : Entry} {x : Tree}

/-- The entry, which has the tree, has been taken out of the table with all that lay under it. -/
structure TakenOut (t : Table) (id : EntryId) (e : Entry) (x : Tree) (t' : Table) : Prop where
  tree : t.tree id = .ok x
  mem_ids : ∀ y, y ∈ x.ids ↔ t.Under id y
  ids_nodup : x.ids.Nodup
  /-- The entries of the tree have been put on the free list one by one. -/
  free : t'.free = x.ids.reverse ++ t.free
  free_nodup : t'.free.Nodup
  gone : ∀ y ∈ x.ids, t'.contains y = false
  size : t'.size + x.ids.length = t.size
  owner : ∀ scope, e.owner = some scope → ∃ p b b', t.get? scope = some p ∧ p.scope? = some b ∧
    t'.get? scope = some { p with storage := .scope b' } ∧ b.Lost id e.name b'
  kept : ∀ y, y ∉ x.ids → e.owner ≠ some y → t'.get? y = t.get? y

theorem Unlisted.free (hu : t.Unlisted id e t') : t'.free = t.free := by
  rcases hu with ⟨_, rfl⟩ | ⟨scope, p, b, _, _, _, rfl⟩
  · rfl
  · exact free_update t scope _

theorem Removed.takenOut (h : t.Sound) (live : t.get? id = some e) (htree : t.tree id = .ok x)
    (hr : t.Removed id t') : t.TakenOut id e x t' := by
  have slots := (h.removed hr).slots
  obtain ⟨e', x', u, live', _, htree', hu, rfl⟩ := hr
  obtain rfl := Option.mem_unique live live'
  obtain rfl : x = x' := Except.ok.inj (htree.symm.trans htree')
  obtain ⟨hx, rfl⟩ : t.Holds x ∧ x.id = id := by
    obtain ⟨⟨hx, _⟩, hid⟩ := tree_eq_ok_iff.mp htree
    exact ⟨hx, hid⟩
  have hfree : (x.ids.foldl vacate u).free = x.ids.reverse ++ t.free := by
    rw [free_foldl_vacate, hu.free]
  constructor
  case tree => exact htree
  case mem_ids => exact fun y => hx.mem_ids h
  case ids_nodup => exact hx.ids_nodup h
  case free => exact hfree
  case free_nodup => exact slots.nodup
  case gone =>
    intro y hy
    rw [contains, get?_foldl_vacate, if_pos hy]
    rfl
  case size =>
    -- the slots are as many as before, and the free list is longer by the entries of the tree
    have hslots : (x.ids.foldl vacate u).slots.size = t.slots.size := by
      rw [size_slots_foldl_vacate, hu.size_slots]
    have hcount := slots.free_length_add
    have hlength : (x.ids.foldl vacate u).free.length = x.ids.length + t.free.length := by
      rw [hfree, List.length_append, List.length_reverse]
    unfold size
    omega
  case owner =>
    intro scope howner
    obtain ⟨p, b, lp, hb, found⟩ := h.owner_finds live howner
    refine ⟨p, b, b.erase x.id e.name, lp, hb, ?_, ScopeBody.lost_erase found⟩
    rw [get?_foldl_vacate, if_neg fun hm => h.not_mem_ids live htree hm howner]
    exact hu.get?_scope howner lp hb
  case kept =>
    intro y hy howner
    rw [get?_foldl_vacate, if_neg hy]
    exact hu.get?_of_ne howner

theorem Sound.exists_takenOut (h : t.Sound) (live : t.get? id = some e) (hroot : id ≠ Table.root)
    (htree : t.tree id = .ok x) :
    ∃ t', (remove id).run t = (.ok (), t') ∧ t.TakenOut id e x t' := by
  obtain ⟨t', hrun, hr⟩ := h.exists_removed live hroot
  exact ⟨t', hrun, hr.takenOut h live htree⟩

/-- The copy of an entry is taken out again with nothing left of it. -/
theorem Sound.exists_copy_takenOut {ε : Type} (h : t.Sound) (live : t.get? id = some e) :
    ∃ copy t₁ t₂, (Table.clone id : Edit ε EntryId).run t = (.ok copy, t₁) ∧
      (remove copy).run t₁ = (.ok (), t₂) ∧ t.get? copy = none ∧
      (∀ y, t₂.get? y = t.get? y) ∧ t₂.size = t.size := by
  obtain ⟨x, htree⟩ := h.exists_tree live
  obtain ⟨f, t₁, hclone, hc⟩ := run_clone (ε := ε) h htree
  have hx := (tree_eq_ok_iff.mp htree).1.1
  obtain rfl := (tree_eq_ok_iff.mp htree).2
  obtain rfl := Option.mem_unique live hx.live
  have hfresh : t.get? (f x.id) = none := hc.fresh h (List.mem_map_of_mem x.id_mem_ids)
  -- the root is in the table already, so the copy is another entry
  have hroot : f x.id ≠ Table.root := by
    obtain ⟨er, _, lr, _⟩ := h.root
    intro heq
    rw [← heq, hfresh] at lr
    exact absurd lr (by simp)
  have hcopy : t₁.get? (f x.id) = some (x.entry.copied f none) := by
    have hget := hx.get?_copied h hc.held x.id_mem_ids hx.live
    rwa [if_pos rfl] at hget
  obtain ⟨t₂, hremove, ht₂⟩ :=
    (h.copied hx hc).exists_takenOut hcopy hroot (hc.tree htree)
  have hids : (x.copied f none).ids = x.ids.map f := Tree.ids_copied f none x
  refine ⟨f x.id, t₁, t₂, hclone, hremove, hfresh, ?_, ?_⟩
  · intro y
    by_cases hy : y ∈ x.ids.map f
    · rw [hc.fresh h hy]
      have hgone := ht₂.gone y (hids ▸ hy)
      simpa [contains] using hgone
    · rw [ht₂.kept y (hids ▸ hy) (by simp [Entry.owner_copied]), hc.same y hy]
  · have hgrown := hc.takes.size_add h.slots
    have hshrunk := ht₂.size
    rw [hids, List.length_map] at hshrunk
    omega

end Table

/-! ## Requests -/

namespace Table

variable {t : Table} {id : EntryId} {e : Entry}

/-- Removing a live entry other than the root frees its tree, each entry of it once, and nothing
else. So removing the copy of an entry gives back the entries that there were before it was made. -/
theorem remove_frees_tree_once (h : t.Reachable) (live : t.get? id = some e) (s : Store) :
    (id ≠ root → ∃ x t', (Request.remove id).answer t s = .ok (.ok (), t', s) ∧
      t.TakenOut id e x t') ∧
    ∃ copy t₁ t₂, (Request.clone id).answer t s = .ok (copy, t₁, s) ∧
      (Request.remove copy).answer t₁ s = .ok (.ok (), t₂, s) ∧ t.get? copy = none ∧
      (∀ y, t₂.get? y = t.get? y) ∧ t₂.size = t.size := by
  have sound := h.sound
  constructor
  · intro hroot
    obtain ⟨x, htree⟩ := sound.exists_tree live
    obtain ⟨t', hrun, hout⟩ := sound.exists_takenOut live hroot htree
    exact ⟨x, t', congrArg (Request.answer.edited s) hrun, hout⟩
  · obtain ⟨copy, t₁, t₂, hclone, hremove, hfresh, hsame, hsize⟩ :=
      sound.exists_copy_takenOut (ε := Empty) live
    exact ⟨copy, t₁, t₂, congrArg (Request.answer.done s) hclone,
      congrArg (Request.answer.edited s) hremove, hfresh, hsame, hsize⟩

/-- A scope with a builtin in it, and a value whose slot was a temporary's before. -/
theorem scope_with_builtin_is_removed :
    let t := ((Session.fresh "root" "").after
      [.ask (.makeTemp (.number Binary.zero)), .ask (.register root "pop" "" (.scope "")),
        .ask (.release ⟨1⟩), .ask (.register ⟨2⟩ "size" "" .number),
        .define ⟨2⟩ "grow" (.variadic fun _ => .finish (.ok .unit)) "" true]).table
    t.Reachable ∧ ∃ e, t.get? ⟨2⟩ = some e ∧ (⟨2⟩ : EntryId) ≠ root ∧ ∃ x t',
      (Request.remove ⟨2⟩).answer t .empty = .ok (.ok (), t', .empty) ∧
      t.TakenOut ⟨2⟩ e x t' := by
  intro t
  have h : t.Reachable := ⟨"root", "", _, rfl⟩
  obtain ⟨e, live⟩ := contains_iff.mp (show t.contains ⟨2⟩ = true by decide +kernel)
  have hroot : (⟨2⟩ : EntryId) ≠ root := by decide
  obtain ⟨x, t', hanswer, hout⟩ := (remove_frees_tree_once h live .empty).1 hroot
  exact ⟨h, e, live, hroot, x, t', hanswer, hout⟩

end Table
end Settings

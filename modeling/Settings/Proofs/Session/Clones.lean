import Settings.Proofs.Session.Runs

/-!
# Clones

The answer to a request for a clone, in every table that a host can come to: a fresh image of the
whole tree under the entry, with nothing else changed.
-/

set_option autoImplicit false

namespace Settings
namespace Table

/-- The tree `x` under the entry `id` has the image `f` in the table after the request. -/
structure ClonedAs (t : Table) (id : EntryId) (x : Tree) (f : EntryId → EntryId) (t' : Table) :
    Prop where
  tree : t.tree id = .ok x
  ids_nodup : x.ids.Nodup
  mem_ids : ∀ y, y ∈ x.ids ↔ t.Under id y
  /-- The handle of the copy is given back, and the host variables are as they were. -/
  answer : ∀ s, (Request.clone id).answer t s = .ok (f id, t', s)
  injective : ∀ y ∈ x.ids, ∀ z ∈ x.ids, f y = f z → y = z
  fresh : ∀ y ∈ x.ids, t.get? (f y) = none
  /-- Below the top the owner of a copy is the copy of the owner; the top has none. -/
  image : ∀ y ∈ x.ids, ∀ e, t.get? y = some e →
    t'.get? (f y) = some (e.copied f (if y = id then none else e.owner.map f))
  kept : ∀ z e, t.get? z = some e → t'.get? z = some e
  live_iff : ∀ z, t'.contains z = true ↔ t.contains z = true ∨ ∃ y ∈ x.ids, f y = z
  size : t'.size = t.size + x.ids.length
  configText : ∀ s, ∃ text, t.configText s id = .ok text ∧ t'.configText s (f id) = .ok text

theorem Copied.live_iff {t t' : Table} {x : Tree} {f : EntryId → EntryId} (h : t.Sound)
    (hx : t.Holds x) (hc : Copied f x t t') (z : EntryId) :
    t'.contains z = true ↔ t.contains z = true ∨ ∃ y ∈ x.ids, f y = z := by
  simp only [contains_iff]
  constructor
  · rintro ⟨e', live'⟩
    rcases hc.get?_cases h hx live' with live | ⟨y, e, hy, rfl, _, _⟩
    · exact Or.inl ⟨e', live⟩
    · exact Or.inr ⟨y, hy, rfl⟩
  · rintro (⟨e, live⟩ | ⟨y, hy, rfl⟩)
    · exact ⟨e, hc.keeps h z e live⟩
    · obtain ⟨e, live⟩ := hx.live_of_mem hy
      exact ⟨_, hx.get?_copied h hc.held hy live⟩

theorem clone_is_an_image {t : Table} (h : t.Reachable) {id : EntryId} {e : Entry}
    (live : t.get? id = some e) : ∃ x f t', t.ClonedAs id x f t' := by
  have sound := h.sound
  obtain ⟨x, htree⟩ := sound.exists_tree live
  obtain ⟨f, t', hrun, hc⟩ := run_clone (ε := Empty) sound htree
  obtain ⟨⟨hx, _⟩, rfl⟩ := tree_eq_ok_iff.mp htree
  refine ⟨x, f, t', htree, hx.ids_nodup sound, fun y => hx.mem_ids sound, fun s => ?_,
    fun y hy z hz => hc.injOn sound hy hz, fun y hy => hc.fresh sound (List.mem_map_of_mem hy),
    fun y hy e => hx.get?_copied sound hc.held hy, hc.keeps sound, hc.live_iff sound hx,
    hc.takes.size_add sound.slots, fun s => ?_⟩
  · show Request.answer.done s ((clone x.id).run t) = _
    rw [hrun]
    rfl
  · rw [hc.configText htree s]
    unfold configText listingOfContents
    rw [htree]
    exact ⟨_, rfl, rfl⟩

/-- A scope with a value and a builtin function in it, one slot having been freed before. -/
theorem clone_of_scope_is_an_image :
    let t := ((Session.fresh "root" "").after
      [.ask (.makeTemp (.text "")), .ask (.register root "pop" "" (.scope "Population")),
        .ask (.register ⟨2⟩ "size" "" .number),
        .define ⟨2⟩ "grow" (.variadic fun _ => .finish (.ok .unit)) "" true,
        .ask (.release ⟨1⟩)]).table
    t.Reachable ∧ ∃ e, t.get? ⟨2⟩ = some e ∧ ∃ x f t', t.ClonedAs ⟨2⟩ x f t' := by
  intro t
  have h : t.Reachable := ⟨"root", "", _, rfl⟩
  obtain ⟨e, live⟩ := contains_iff.mp (show t.contains ⟨2⟩ = true by decide +kernel)
  exact ⟨h, e, live, clone_is_an_image h live⟩

end Table
end Settings

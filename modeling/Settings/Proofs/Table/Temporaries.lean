import Settings.Proofs.Session.Paths

/-!
# Temporaries on top of a table

A call from a script puts temporaries into a table and takes all of them out again. In between the
table is `Holding` them: they are in slots that were empty, and nothing else is different. Making
one more and releasing any one of them keep that up, in whatever order, and a table that holds none
any more has the entries it had. Its free list may have another order, and has new slots on it if
the table had to grow.
-/

set_option autoImplicit false

namespace Settings
namespace Table

variable {ε : Type} {t t₀ t' : Table} {ids ids' : List EntryId} {id : EntryId}

/-- A temporary that was not there before holds the value, and nothing else is different. -/
structure Gains (t : Table) (new : EntryId) (v : Scalar) (t' : Table) : Prop where
  fresh : t.get? new = none
  holds : t'.get? new = some (.temp v)
  same : ∀ id, id ≠ new → t'.get? id = t.get? id
  size : t'.size = t.size + 1
  grown : t.slots.size ≤ t'.slots.size
  sound : t'.Sound

theorem Sound.gains (h : t.Sound) (v : Scalar) :
    t.Gains (t.alloc (.temp v)).1 v (t.alloc (.temp v)).2 where
  fresh := h.slots.get?_alloc_self _
  holds := by simp [h.slots.get?_alloc]
  same := by
    intro id hid
    simp [h.slots.get?_alloc, hid]
  size := (Takes.alloc t _).size_add h.slots
  grown := by
    have := (Takes.alloc t (.temp v)).size
    omega
  sound := h.temp v

/-- A table with temporaries over those entries that it had at the start. -/
structure Holding (t₀ : Table) (ids : List EntryId) (t : Table) : Prop where
  sound : t.Sound
  nodup : ids.Nodup
  temp : ∀ id ∈ ids, t₀.get? id = none ∧ ∃ v, t.get? id = some (.temp v)
  same : ∀ id, id ∉ ids → t.get? id = t₀.get? id
  grown : t₀.slots.size ≤ t.slots.size

theorem Sound.holding (h : t.Sound) : Holding t [] t where
  sound := h
  nodup := List.nodup_nil
  temp := by simp
  same := fun _ _ => rfl
  grown := Nat.le_refl _

namespace Holding

theorem perm (h : Holding t₀ ids t) (hp : ids.Perm ids') : Holding t₀ ids' t where
  sound := h.sound
  nodup := hp.nodup_iff.mp h.nodup
  temp := fun id hid => h.temp id (hp.mem_iff.mpr hid)
  same := fun id hid => h.same id fun hm => hid (hp.mem_iff.mp hm)
  grown := h.grown

theorem not_mem_of_live (h : Holding t₀ ids t) {e : Entry} (live : t₀.get? id = some e) :
    id ∉ ids := by
  intro hid
  rw [(h.temp id hid).1] at live
  exact absurd live (by simp)

theorem live (h : Holding t₀ ids t) {e : Entry} (live : t₀.get? id = some e) :
    t.get? id = some e := by
  rw [h.same id (h.not_mem_of_live live), live]

/-- A temporary is owned by none, so what has an owner was there at the start. -/
theorem owned (h : Holding t₀ ids t) (ho : t.Owned id) : t₀.Owned id := by
  obtain ⟨e, owner, live, howner⟩ := ho
  have hid : id ∉ ids := by
    intro hid
    obtain ⟨v, hv⟩ := (h.temp id hid).2
    rw [hv, Option.some.injEq] at live
    rw [← live] at howner
    cases v <;> exact absurd howner (by simp [Entry.temp, Entry.new])
  exact ⟨e, owner, by rw [← h.same id hid, live], howner⟩

theorem trans (h : Holding t₀ ids t) (h' : Holding t ids' t') : Holding t₀ (ids' ++ ids) t' := by
  have apart : ∀ id ∈ ids', id ∉ ids := by
    intro id hid hold
    obtain ⟨v, hv⟩ := (h.temp id hold).2
    exact h'.not_mem_of_live hv hid
  constructor
  case sound => exact h'.sound
  case nodup => exact h'.nodup.append h.nodup apart
  case temp =>
    refine List.forall_mem_append.mpr ⟨fun id hid => ⟨?_, (h'.temp id hid).2⟩, fun id hid => ?_⟩
    · rw [← h.same id (apart id hid), (h'.temp id hid).1]
    · obtain ⟨hfresh, v, hv⟩ := h.temp id hid
      exact ⟨hfresh, v, h'.live hv⟩
  case same =>
    intro id hid
    obtain ⟨hid', hid⟩ := not_or.mp fun hm => hid (List.mem_append.mpr hm)
    rw [h'.same id hid', h.same id hid]
  case grown => exact Nat.le_trans h.grown h'.grown

/-! ## One more -/

theorem gain (h : Holding t₀ ids t) {new : EntryId} {v : Scalar} (hg : t.Gains new v t') :
    Holding t₀ (new :: ids) t' := by
  have hnew : new ∉ ids := by
    intro hid
    obtain ⟨w, hw⟩ := (h.temp new hid).2
    rw [hg.fresh] at hw
    exact absurd hw (by simp)
  constructor
  case sound => exact hg.sound
  case nodup => exact List.nodup_cons.mpr ⟨hnew, h.nodup⟩
  case temp =>
    refine List.forall_mem_cons.mpr ⟨⟨?_, v, hg.holds⟩, ?_⟩
    · rw [← h.same new hnew, hg.fresh]
    · intro id hid
      have hne : id ≠ new := fun heq => hnew (heq ▸ hid)
      rw [hg.same id hne]
      exact h.temp id hid
  case same =>
    intro id hid
    obtain ⟨hne, hid⟩ := List.ne_and_not_mem_of_not_mem_cons hid
    rw [hg.same id hne, h.same id hid]
  case grown => exact Nat.le_trans h.grown hg.grown

/-! ## One less -/

theorem vacate (h : Holding t₀ ids t) (hid : id ∈ ids) :
    Holding t₀ (ids.erase id) (t.vacate id) := by
  obtain ⟨hfresh, v, hv⟩ := h.temp id hid
  constructor
  case sound => exact h.sound.released ⟨_, hv, by cases v <;> rfl, rfl⟩
  case nodup => exact h.nodup.erase id
  case temp =>
    intro other hother
    obtain ⟨hne, hother⟩ := (h.nodup.mem_erase_iff).mp hother
    rw [get?_vacate, if_neg hne]
    exact h.temp other hother
  case same =>
    intro other hother
    rw [get?_vacate]
    by_cases hne : other = id
    · rw [if_pos hne, hne, hfresh]
    · rw [if_neg hne]
      exact h.same other fun hm => hother (h.nodup.mem_erase_iff.mpr ⟨hne, hm⟩)
  case grown => simpa [Table.vacate] using h.grown

end Holding

theorem run_releaseIfTemporary (h : t.Sound) {e : Entry} (live : t.get? id = some e) :
    (releaseIfTemporary id : Edit ε Bool).run t =
      if e.temporary then (.ok true, t.vacate id) else (.ok false, t) := by
  have hrun := run_release h live
  unfold releaseIfTemporary
  cases ht : e.temporary with
  | true =>
    rw [ht, if_pos rfl] at hrun
    exact (Edit.bind_ok _ (by rw [Edit.run_settle, hrun]; rfl)).trans (Edit.run_pure _ _)
  | false =>
    rw [ht, if_neg (by simp)] at hrun
    exact (Edit.bind_ok _ (by rw [Edit.run_settle, hrun]; rfl)).trans (Edit.run_pure _ _)

/-- Releasing is for temporaries; what has an owner stays. -/
theorem Sound.releaseIfTemporary_owned (h : t.Sound) (ho : t.Owned id) :
    (releaseIfTemporary id : Edit ε Bool).run t = (.ok false, t) := by
  obtain ⟨e, owner, live, howner⟩ := ho
  rw [run_releaseIfTemporary h live, h.not_temporary live howner, if_neg (by simp)]

theorem Holding.releaseIfTemporary (h : Holding t₀ ids t) (hid : id ∈ ids) :
    (releaseIfTemporary id : Edit ε Bool).run t = (.ok true, t.vacate id) := by
  obtain ⟨_, v, hv⟩ := h.temp id hid
  rw [run_releaseIfTemporary h.sound hv, if_pos (by cases v <;> rfl)]

/-! ## None any more -/

/-- The free list of a table with the entries that another had: the slots that were free, in some
order, and those by which the table has grown. -/
theorem Holding.free_perm (h₀ : t₀.SlotsOk) (h : Holding t₀ [] t) :
    t.free.Perm (t₀.free ++
      (List.range (t.slots.size - t₀.slots.size)).map fun i => ⟨t₀.slots.size + i⟩) := by
  have same : ∀ id, t.contains id = t₀.contains id := by
    intro id
    simp [contains, h.same id]
  have hsize : t.slots.size = t₀.slots.size + (t.slots.size - t₀.slots.size) := by
    have := h.grown
    omega
  have hhandles : t.handles = t₀.handles ++
      (List.range (t.slots.size - t₀.slots.size)).map fun i => ⟨t₀.slots.size + i⟩ := by
    rw [handles, hsize, List.range_add, List.map_append, List.map_map]
    simp [handles, Function.comp_def]
  have hnew : ∀ id ∈ (List.range (t.slots.size - t₀.slots.size)).map
      (fun i => (⟨t₀.slots.size + i⟩ : EntryId)), (!t₀.contains id) = true := by
    intro id hid
    obtain ⟨i, _, rfl⟩ := List.mem_map.mp hid
    simp [contains, get?]
  refine h.sound.slots.free_perm.trans ?_
  simp only [same]
  rw [hhandles, List.filter_append, List.filter_eq_self.mpr hnew]
  exact (h₀.free_perm.symm).append_right _

theorem Holding.size_eq (h₀ : t₀.SlotsOk) (h : Holding t₀ [] t) : t.size = t₀.size := by
  have hlen := (h.free_perm h₀).length_eq
  have hlen₀ := h₀.free_length_add
  have := h.grown
  simp only [List.length_append, List.length_map, List.length_range] at hlen
  unfold size
  omega

end Table
end Settings

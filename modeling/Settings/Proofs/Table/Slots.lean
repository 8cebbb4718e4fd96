import Mathlib.Data.List.Nodup
import Settings.Table.Basic

/-!
# The free list

`SlotsOk` is the part of a table's invariant that speaks of slots alone: the free list names the
empty slots, each of them once. It is what makes a new handle new (`get?_alloc_self`), and what
makes the difference of the two lengths the number of live entries (`size_eq`).

Each primitive keeps it: `alloc` always, `update` always, `vacate` where the slot is not empty yet.
-/

set_option autoImplicit false

namespace Settings
namespace Table

/-- The free list has no repeats and lists exactly the empty slots. -/
structure SlotsOk (t : Table) : Prop where
  nodup : t.free.Nodup
  mem_iff : ∀ id, id ∈ t.free ↔ id.index < t.slots.size ∧ t.get? id = none

/-! ## Taking slots -/

theorem size_slots_update (t : Table) (id : EntryId) (f : Entry → Entry) :
    (t.update id f).slots.size = t.slots.size := by
  unfold update
  split
  · simp [set]
  · rfl

theorem free_update (t : Table) (id : EntryId) (f : Entry → Entry) :
    (t.update id f).free = t.free := by
  unfold update
  split <;> rfl

namespace SlotsOk

variable {t : Table}

theorem lt_of_mem_free (h : t.SlotsOk) {id : EntryId} (hid : id ∈ t.free) :
    id.index < t.slots.size := ((h.mem_iff id).mp hid).1

theorem get?_alloc_self (h : t.SlotsOk) (e : Entry) : t.get? (t.alloc e).1 = none := by
  unfold alloc
  cases hf : t.free with
  | nil => simp [get?]
  | cons id rest => exact ((h.mem_iff id).mp (hf ▸ List.mem_cons_self)).2

theorem get?_alloc (h : t.SlotsOk) (e : Entry) (other : EntryId) :
    (t.alloc e).2.get? other = if other = (t.alloc e).1 then some e else t.get? other :=
  Table.get?_alloc t e other fun _ hid => h.lt_of_mem_free hid

theorem ne_alloc (h : t.SlotsOk) (e : Entry) {id : EntryId} {old : Entry}
    (hid : t.get? id = some old) : id ≠ (t.alloc e).1 := by
  rintro rfl
  rw [h.get?_alloc_self e] at hid
  exact absurd hid (by simp)

theorem get?_alloc_of_live (h : t.SlotsOk) (e : Entry) {id : EntryId} {old : Entry}
    (hid : t.get? id = some old) : (t.alloc e).2.get? id = some old := by
  rw [h.get?_alloc, if_neg (h.ne_alloc e hid), hid]

theorem alloc (h : t.SlotsOk) (e : Entry) : (t.alloc e).2.SlotsOk := by
  cases hf : t.free with
  | nil =>
    have hfree : (t.alloc e).2.free = [] := by simp [Table.alloc, hf]
    have hsize : (t.alloc e).2.slots.size = t.slots.size + 1 := by simp [Table.alloc, hf]
    have hnew : (t.alloc e).1 = ⟨t.slots.size⟩ := by simp [Table.alloc, hf]
    refine ⟨hfree ▸ List.nodup_nil, ?_⟩
    intro id
    rw [hfree, h.get?_alloc, hsize, hnew]
    refine ⟨fun hm => absurd hm (by simp), ?_⟩
    rintro ⟨hlt, hn⟩
    split at hn
    · exact absurd hn (by simp)
    · rename_i hne
      have hi : id.index ≠ t.slots.size := fun hi => hne (EntryId.eq_of_index hi)
      exact absurd ((h.mem_iff id).mpr ⟨by omega, hn⟩) (by simp [hf])
  | cons first rest =>
    have hfree : (t.alloc e).2.free = rest := by simp [Table.alloc, hf]
    have hsize : (t.alloc e).2.slots.size = t.slots.size := by simp [Table.alloc, hf, set]
    have hnew : (t.alloc e).1 = first := by simp [Table.alloc, hf]
    obtain ⟨hfirst, hrest⟩ := List.nodup_cons.mp (hf ▸ h.nodup)
    refine ⟨hfree ▸ hrest, ?_⟩
    intro id
    rw [hfree, h.get?_alloc, hsize, hnew]
    have hm := h.mem_iff id
    rw [hf, List.mem_cons] at hm
    by_cases hid : id = first
    · subst hid
      rw [if_pos rfl]
      exact ⟨fun hr => absurd hr hfirst, fun hr => absurd hr.2 (by simp)⟩
    · rw [if_neg hid, ← hm]
      exact ⟨Or.inr, fun hr => hr.resolve_left hid⟩

theorem update (h : t.SlotsOk) (id : EntryId) (f : Entry → Entry) : (t.update id f).SlotsOk := by
  refine ⟨free_update t id f ▸ h.nodup, ?_⟩
  intro other
  rw [free_update, size_slots_update, get?_update, h.mem_iff other]
  split
  · rename_i ho
    rw [ho, Option.map_eq_none_iff]
  · rfl

theorem vacate (h : t.SlotsOk) {id : EntryId} {e : Entry} (hid : t.get? id = some e) :
    (t.vacate id).SlotsOk := by
  have hlt : id.index < t.slots.size := index_lt_of_get? hid
  have hnot : id ∉ t.free := fun hm => by
    have hn := ((h.mem_iff id).mp hm).2
    rw [hid] at hn
    exact absurd hn (by simp)
  refine ⟨List.nodup_cons.mpr ⟨hnot, h.nodup⟩, ?_⟩
  intro other
  rw [get?_vacate]
  show other ∈ id :: t.free ↔ other.index < (t.slots.setIfInBounds id.index none).size ∧ _
  rw [List.mem_cons, Array.size_setIfInBounds, h.mem_iff other]
  by_cases ho : other = id
  · subst ho
    simp [hlt]
  · simp [ho]

end SlotsOk

/-! ## Counting entries -/

def handles (t : Table) : List EntryId := (List.range t.slots.size).map EntryId.mk

def liveHandles (t : Table) : List EntryId := t.handles.filter t.contains

theorem mem_handles {t : Table} {id : EntryId} : id ∈ t.handles ↔ id.index < t.slots.size := by
  simp only [handles, List.mem_map, List.mem_range]
  exact ⟨fun ⟨i, hi, he⟩ => he ▸ hi, fun hi => ⟨id.index, hi, rfl⟩⟩

theorem handles_nodup (t : Table) : t.handles.Nodup :=
  List.nodup_range.map fun _ _ h => congrArg EntryId.index h

theorem contains_iff {t : Table} {id : EntryId} :
    t.contains id = true ↔ ∃ e, t.get? id = some e := Option.isSome_iff_exists

theorem mem_liveHandles {t : Table} {id : EntryId} : id ∈ t.liveHandles ↔ t.contains id = true := by
  rw [liveHandles, List.mem_filter, mem_handles]
  refine ⟨And.right, fun h => ⟨?_, h⟩⟩
  obtain ⟨e, he⟩ := contains_iff.mp h
  exact index_lt_of_get? he

theorem length_le_slots {t : Table} {ids : List EntryId} (hn : ids.Nodup)
    (hlive : ∀ id ∈ ids, t.contains id = true) : ids.length ≤ t.slots.size := by
  have hsub : ids ⊆ t.handles := fun id hid =>
    (List.mem_filter.mp (mem_liveHandles.mpr (hlive id hid))).1
  have hle := List.Nodup.length_le_of_subset hn hsub
  simpa [handles] using hle

theorem SlotsOk.free_perm {t : Table} (h : t.SlotsOk) :
    t.free.Perm (t.handles.filter fun id => !t.contains id) := by
  apply (List.perm_ext_iff_of_nodup h.nodup (t.handles_nodup.filter _)).mpr
  intro id
  rw [h.mem_iff id, List.mem_filter, mem_handles]
  simp [contains]

/-- The count never goes below zero, and it counts the live entries. -/
theorem SlotsOk.free_length_add {t : Table} (h : t.SlotsOk) :
    t.free.length + t.liveHandles.length = t.slots.size := by
  have hsplit := List.length_eq_length_filter_add (l := t.handles) t.contains
  have hlen : t.handles.length = t.slots.size := by simp [handles]
  rw [h.free_perm.length_eq, liveHandles]
  omega

theorem SlotsOk.size_eq {t : Table} (h : t.SlotsOk) : t.size = t.liveHandles.length := by
  have := h.free_length_add
  unfold size
  omega

/-! ## The slots to come -/

/-- The handles that so many new entries will get, in order. -/
def nextSlots (t : Table) (n : Nat) : List EntryId :=
  t.free.take n ++ (List.range (n - t.free.length)).map fun i => ⟨t.slots.size + i⟩

/-- So many entries have come in, as far as the free list and the number of slots tell. -/
structure Takes (t : Table) (n : Nat) (t' : Table) : Prop where
  free : t'.free = t.free.drop n
  size : t'.slots.size = t.slots.size + (n - t.free.length)

variable {t t' t'' : Table} {m n : Nat}

theorem length_nextSlots (t : Table) (n : Nat) : (t.nextSlots n).length = n := by
  simp only [nextSlots, List.length_append, List.length_take, List.length_map, List.length_range]
  omega

theorem SlotsOk.get?_nextSlots (h : t.SlotsOk) {id : EntryId} (hid : id ∈ t.nextSlots n) :
    t.get? id = none := by
  rcases List.mem_append.mp hid with hfree | hnew
  · exact ((h.mem_iff id).mp (List.mem_of_mem_take hfree)).2
  · obtain ⟨i, _, rfl⟩ := List.mem_map.mp hnew
    simp [get?]

theorem SlotsOk.nextSlots_nodup (h : t.SlotsOk) (n : Nat) : (t.nextSlots n).Nodup := by
  refine List.nodup_append'.mpr ⟨h.nodup.sublist (List.take_sublist _ _), ?_, ?_⟩
  · apply List.nodup_range.map
    intro i j hij
    have := congrArg EntryId.index hij
    simpa using this
  · intro id hfree hnew
    obtain ⟨i, _, rfl⟩ := List.mem_map.mp hnew
    have hlt : t.slots.size + i < t.slots.size := h.lt_of_mem_free (List.mem_of_mem_take hfree)
    omega

theorem Takes.update (t : Table) (id : EntryId) (f : Entry → Entry) : t.Takes 0 (t.update id f) :=
  ⟨by simp [free_update], by simp [size_slots_update]⟩

theorem Takes.alloc (t : Table) (e : Entry) : t.Takes 1 (t.alloc e).2 := by
  unfold Table.alloc
  cases hf : t.free with
  | nil => exact ⟨by simp [hf], by simp [hf]⟩
  | cons id rest => exact ⟨by simp [hf], by simp [hf, set]⟩

theorem Takes.trans (h : t.Takes m t') (h' : t'.Takes n t'') : t.Takes (m + n) t'' := by
  refine ⟨by rw [h'.free, h.free, List.drop_drop], ?_⟩
  rw [h'.size, h.size, h.free, List.length_drop]
  omega

/-- The first handles are given out, the others remain to come. -/
theorem Takes.nextSlots_add (h : t.Takes m t') (n : Nat) :
    t.nextSlots (m + n) = t.nextSlots m ++ t'.nextSlots n := by
  unfold nextSlots
  rw [h.free, h.size, List.length_drop]
  rcases Nat.le_total m t.free.length with hle | hge
  · -- the free list lasts for the first ones
    have hz : m - t.free.length = 0 := by omega
    have hn : m + n - t.free.length = n - (t.free.length - m) := by omega
    rw [hz, hn, List.take_add]
    simp
  · -- all free slots are given out, and the table grows
    have hz : t.free.drop m = [] := List.drop_eq_nil_of_le hge
    have hn : m + n - t.free.length = (m - t.free.length) + (n - (t.free.length - m)) := by omega
    rw [hn, List.range_add, List.map_append, List.map_map, hz, List.take_of_length_le hge,
      List.take_of_length_le (by omega : t.free.length ≤ m + n), List.append_assoc]
    simp [Function.comp_def, Nat.add_assoc]

/-- What sends two rows of handles to the slots to come sends the first row to the first of them,
and the second to those that come once the first are taken. -/
theorem map_nextSlots_append {f : EntryId → EntryId} {as bs : List EntryId}
    (h : (as ++ bs).map f = t.nextSlots (as ++ bs).length) :
    as.map f = t.nextSlots as.length ∧
      ∀ {t' : Table}, t.Takes as.length t' → bs.map f = t'.nextSlots bs.length := by
  rw [List.map_append, List.length_append] at h
  have split : ∀ {t' : Table}, t.Takes as.length t' →
      as.map f = t.nextSlots as.length ∧ bs.map f = t'.nextSlots bs.length := fun ht => by
    rw [ht.nextSlots_add] at h
    exact List.append_inj h (by rw [List.length_map, length_nextSlots])
  -- the first half needs some table in which the slots are taken, and any will do
  let taken : Table :=
    ⟨t.slots ++ Array.replicate (as.length - t.free.length) none, t.free.drop as.length⟩
  have htaken : t.Takes as.length taken := ⟨rfl, by simp [taken]⟩
  exact ⟨(split htaken).1, fun ht => (split ht).2⟩

theorem nextSlots_one (t : Table) (e : Entry) : t.nextSlots 1 = [(t.alloc e).1] := by
  unfold nextSlots alloc
  cases hf : t.free with
  | nil => simp
  | cons id rest => simp

theorem Takes.size_add (h : t.Takes n t') (ht : t.SlotsOk) : t'.size = t.size + n := by
  have := ht.free_length_add
  unfold Table.size
  rw [h.size, h.free, List.length_drop]
  omega

end Table
end Settings

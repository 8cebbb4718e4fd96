import Settings.Proofs.Table.Slots
import Settings.Table.Tree

/-!
# Owners

`Level t id n` says that `n` owners lie above an entry, the last of them without an owner. That
every live entry has a level is what "no entry lies inside itself" comes to in a table with finitely
many slots, and it is the form in which the invariant keeps it: a level is a number, so a circle is
refuted by arithmetic (`Level.not_under_owned`), and the walks of the library, which stop at the
number of slots, are long enough (`Level.lt_slots`).

`Under t top id` says that `top` is met on the way up from `id`, which may be `top` itself.
-/

set_option autoImplicit false

namespace Settings
namespace Table

/-- The number of owners above an entry. -/
inductive Level (t : Table) : EntryId → Nat → Prop
  | top {id : EntryId} {e : Entry} (live : t.get? id = some e) (detached : e.owner = none) :
      Level t id 0
  | owned {id owner : EntryId} {e : Entry} {n : Nat} (live : t.get? id = some e)
      (owned : e.owner = some owner) (above : Level t owner n) : Level t id (n + 1)

/-- The entry is the given one, or lies somewhere in the tree under it. -/
inductive Under (t : Table) (top : EntryId) : EntryId → Prop
  | self : Under t top top
  | owned {id owner : EntryId} {e : Entry} (live : t.get? id = some e)
      (owned : e.owner = some owner) (above : Under t top owner) : Under t top id

variable {t t' : Table}

/-! ## Levels -/

theorem Level.eq_zero {id : EntryId} {e : Entry} {n : Nat} (h : t.Level id n)
    (live : t.get? id = some e) (detached : e.owner = none) : n = 0 := by
  cases h with
  | top => rfl
  | owned live' owned' _ =>
    obtain rfl := Option.mem_unique live live'
    rw [detached] at owned'
    exact absurd owned' (by simp)

theorem Level.above {id owner : EntryId} {e : Entry} {n : Nat} (h : t.Level id n)
    (live : t.get? id = some e) (owned : e.owner = some owner) :
    ∃ m, n = m + 1 ∧ t.Level owner m := by
  cases h with
  | top live' detached' =>
    obtain rfl := Option.mem_unique live live'
    rw [owned] at detached'
    exact absurd detached' (by simp)
  | owned live' owned' above' =>
    obtain rfl := Option.mem_unique live live'
    obtain rfl := Option.mem_unique owned owned'
    exact ⟨_, rfl, above'⟩

theorem Level.unique {id : EntryId} {m n : Nat} (hm : t.Level id m) (hn : t.Level id n) :
    m = n := by
  induction hm generalizing n with
  | top live detached => exact (hn.eq_zero live detached).symm
  | owned live owned _ ih =>
    obtain ⟨k, rfl, above⟩ := hn.above live owned
    rw [ih above]

theorem Level.live {id : EntryId} {n : Nat} (h : t.Level id n) : ∃ e, t.get? id = some e := by
  cases h with
  | top live _ => exact ⟨_, live⟩
  | owned live _ _ => exact ⟨_, live⟩

/-- Levels stay where owners stay, as far as the way up goes. -/
theorem Level.congr {P : EntryId → Prop} {id : EntryId} {n : Nat} (h : t.Level id n) (hid : P id)
    (hP : ∀ x e, P x → t.get? x = some e → (∃ e', t'.get? x = some e' ∧ e'.owner = e.owner) ∧
      ∀ owner, e.owner = some owner → P owner) : t'.Level id n := by
  induction h with
  | top live detached =>
    obtain ⟨⟨e', live', howner⟩, _⟩ := hP _ _ hid live
    exact .top live' (howner.trans detached)
  | owned live owned _ ih =>
    obtain ⟨⟨e', live', howner⟩, hup⟩ := hP _ _ hid live
    exact .owned live' (howner.trans owned) (ih (hup _ owned))

/-- The entries met on the way up are different, and there is one on each level. -/
theorem Level.ancestors {id : EntryId} {n : Nat} (h : t.Level id n) :
    ∃ ids : List EntryId, ids.length = n + 1 ∧ ids.Nodup ∧ ∀ x ∈ ids, ∃ k ≤ n, t.Level x k := by
  induction h with
  | top live detached => exact ⟨[_], rfl, List.nodup_singleton _, fun x hx =>
      ⟨0, Nat.le_refl 0, List.mem_singleton.mp hx ▸ .top live detached⟩⟩
  | @owned id owner e n live owned above ih =>
    obtain ⟨ids, hlen, hn, hlevel⟩ := ih
    refine ⟨id :: ids, by simp [hlen], List.nodup_cons.mpr ⟨?_, hn⟩, ?_⟩
    · intro hmem
      obtain ⟨k, hk, hl⟩ := hlevel id hmem
      have := hl.unique (.owned live owned above)
      omega
    · intro x hx
      rcases List.mem_cons.mp hx with rfl | hx
      · exact ⟨n + 1, Nat.le_refl _, .owned live owned above⟩
      · obtain ⟨k, hk, hl⟩ := hlevel x hx
        exact ⟨k, by omega, hl⟩

theorem Level.lt_slots {id : EntryId} {n : Nat} (h : t.Level id n) : n < t.slots.size := by
  obtain ⟨ids, hlen, hn, hlevel⟩ := h.ancestors
  have hle := length_le_slots hn fun x hx => by
    obtain ⟨k, _, hl⟩ := hlevel x hx
    exact contains_iff.mpr hl.live
  omega

/-! ## Lying under an entry -/

theorem Under.trans {a b c : EntryId} (hab : t.Under a b) (hbc : t.Under b c) : t.Under a c := by
  induction hbc with
  | self => exact hab
  | owned live owned _ ih => exact .owned live owned ih

/-- What lies under an entry is the entry or has an owner that lies under it. -/
theorem Under.above {a id owner : EntryId} {e : Entry} (h : t.Under a id)
    (live : t.get? id = some e) (owned : e.owner = some owner) : a = id ∨ t.Under a owner := by
  cases h with
  | self => exact Or.inl rfl
  | owned live' owned' above' =>
    obtain rfl := Option.mem_unique live live'
    rw [owned, Option.some.injEq] at owned'
    exact Or.inr (owned' ▸ above')

theorem Under.eq_of_detached {a id : EntryId} {e : Entry} (h : t.Under a id)
    (live : t.get? id = some e) (detached : e.owner = none) : a = id := by
  cases h with
  | self => rfl
  | owned live' owned' _ =>
    obtain rfl := Option.mem_unique live live'
    rw [detached] at owned'
    exact absurd owned' (by simp)

theorem Under.level_le {a b : EntryId} (h : t.Under a b) {n : Nat} (hb : t.Level b n) :
    ∃ m, t.Level a m ∧ m ≤ n ∧ (m = n → a = b) := by
  induction h generalizing n with
  | self => exact ⟨n, hb, Nat.le_refl n, fun _ => rfl⟩
  | owned live owned _ ih =>
    obtain ⟨k, rfl, above⟩ := hb.above live owned
    obtain ⟨m, hm, hle, _⟩ := ih above
    exact ⟨m, hm, by omega, fun he => by omega⟩

theorem Level.not_under_owned {id owner : EntryId} {e : Entry} {n : Nat} (h : t.Level id n)
    (live : t.get? id = some e) (owned : e.owner = some owner) : ¬ t.Under id owner := by
  intro hu
  obtain ⟨m, rfl, above⟩ := h.above live owned
  obtain ⟨k, hk, hle, _⟩ := hu.level_le above
  have := hk.unique h
  omega

/-- Of two entries above a third, one lies under the other. -/
theorem Under.linear {a b c : EntryId} (ha : t.Under a c) (hb : t.Under b c) :
    t.Under a b ∨ t.Under b a := by
  induction ha with
  | self => exact Or.inr hb
  | owned live owned above ih =>
    rcases hb.above live owned with rfl | hb
    · exact Or.inl (.owned live owned above)
    · exact ih hb

end Table
end Settings

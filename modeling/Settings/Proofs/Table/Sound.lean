import Settings.Proofs.Table.Owners

/-!
# The invariant of a table

A table keeps one fact in several places: that an entry is in a scope is told by the entry's owner,
by one of the two lists of the scope and by its name index, and that a slot is empty by the slot and
by the free list. `Sound` says that all of them agree.

It is stated through `Table.get?` alone, the free list apart. So that it is kept needs to be shown
only for the ways in which what is found under handles can change:

* `Sound.of_frames`: the values and headers of entries change, their place in the tree does not.
* `Sound.of_leaf`: an entry without owner and children comes in.
* `Sound.of_placed`: an entry without an owner gets one.
* `Sound.of_renamed`: an entry gets another name, in its scope too.
* `Sound.of_removed`: an entry leaves its scope and goes, with everything under it.

Copies come in as whole trees and have a module of their own.
-/

set_option autoImplicit false

namespace Settings

/-- What an entry says of its place in the tree. -/
def Entry.frame (e : Entry) : String × Option EntryId × Bool × Option ScopeBody :=
  (e.name, e.owner, e.temporary, e.scope?)

namespace Table

/-- A scope's lists and index agree with what its children say of themselves. -/
structure ScopeOk (t : Table) (id : EntryId) (b : ScopeBody) : Prop where
  nodup : b.children.Nodup
  child : ∀ c ∈ b.children, ∃ e, t.get? c = some e ∧ e.name ≠ "" ∧ e.owner = some id
  find?_iff : ∀ name c, b.find? name = some c ↔
    c ∈ b.children ∧ ∃ e, t.get? c = some e ∧ e.name = name

def Lists (t : Table) (scope id : EntryId) : Prop :=
  ∃ e b, t.get? scope = some e ∧ e.scope? = some b ∧ id ∈ b.children

structure Sound (t : Table) : Prop where
  slots : t.SlotsOk
  root : ∃ e b, t.get? root = some e ∧ e.scope? = some b ∧ e.owner = none
  scope : ∀ id e b, t.get? id = some e → e.scope? = some b → t.ScopeOk id b
  owned : ∀ id e owner, t.get? id = some e → e.owner = some owner → t.Lists owner id
  level : ∀ id e, t.get? id = some e → ∃ n, t.Level id n
  temporary : ∀ id e, t.get? id = some e → e.temporary = true → e.owner = none ∧ e.scope? = none

variable {t t' : Table}

theorem scope?_eq_some {e : Entry} {b : ScopeBody} (h : e.scope? = some b) :
    e.storage = .scope b := by
  unfold Entry.scope? at h
  split at h
  · rename_i hs
    rw [hs, Option.some.inj h]
  · exact absurd h (by simp)

/-- A scope stays in order if its children keep their names and owners. -/
theorem ScopeOk.congr {id : EntryId} {b : ScopeBody} (h : t.ScopeOk id b)
    (hkeep : ∀ c ∈ b.children, ∀ e, t.get? c = some e →
      ∃ e', t'.get? c = some e' ∧ e'.name = e.name ∧ e'.owner = e.owner) : t'.ScopeOk id b where
  nodup := h.nodup
  child := fun c hc => by
    obtain ⟨e, live, hname, howner⟩ := h.child c hc
    obtain ⟨e', live', hname', howner'⟩ := hkeep c hc e live
    exact ⟨e', live', hname' ▸ hname, howner'.trans howner⟩
  find?_iff := fun name c => by
    rw [h.find?_iff]
    apply and_congr_right
    intro hc
    obtain ⟨e, live, _, _⟩ := h.child c hc
    obtain ⟨e', live', hname', _⟩ := hkeep c hc e live
    simp [live, live', hname']

namespace Sound

theorem name_ne_empty (h : t.Sound) {id owner : EntryId} {e : Entry} (live : t.get? id = some e)
    (owned : e.owner = some owner) : e.name ≠ "" := by
  obtain ⟨p, b, hp, hb, hid⟩ := h.owned id e owner live owned
  obtain ⟨e', live', hname, _⟩ := (h.scope _ _ _ hp hb).child id hid
  obtain rfl := Option.mem_unique live live'
  exact hname

/-- The owner of an entry is a scope that finds it by its name. -/
theorem owner_finds (h : t.Sound) {id owner : EntryId} {e : Entry} (live : t.get? id = some e)
    (owned : e.owner = some owner) :
    ∃ p b, t.get? owner = some p ∧ p.scope? = some b ∧ b.find? e.name = some id := by
  obtain ⟨p, b, hp, hb, hid⟩ := h.owned id e owner live owned
  exact ⟨p, b, hp, hb, ((h.scope owner p b hp hb).find?_iff e.name id).mpr ⟨hid, e, live, rfl⟩⟩

theorem not_temporary (h : t.Sound) {id owner : EntryId} {e : Entry} (live : t.get? id = some e)
    (owned : e.owner = some owner) : e.temporary = false := by
  cases ht : e.temporary with
  | false => rfl
  | true =>
    rw [(h.temporary id e live ht).1] at owned
    exact absurd owned (by simp)

theorem detached_not_mem (h : t.Sound) {id scope : EntryId} {e p : Entry} {b : ScopeBody}
    (live : t.get? id = some e) (detached : e.owner = none) (hp : t.get? scope = some p)
    (hb : p.scope? = some b) : id ∉ b.children := by
  intro hid
  obtain ⟨e', live', _, howner⟩ := (h.scope _ _ _ hp hb).child id hid
  obtain rfl := Option.mem_unique live live'
  rw [detached] at howner
  exact absurd howner (by simp)

/-! ## Values and headers -/

theorem of_frames (h : t.Sound) (hslots : t'.SlotsOk)
    (hf : ∀ id, (t'.get? id).map Entry.frame = (t.get? id).map Entry.frame) : t'.Sound := by
  have key : ∀ {u v : Table}, (∀ id, (v.get? id).map Entry.frame = (u.get? id).map Entry.frame) →
      ∀ id e, u.get? id = some e → ∃ e', v.get? id = some e' ∧ e'.frame = e.frame := by
    intro u v huv id e he
    have := huv id
    rw [he, Option.map_some, Option.map_eq_some_iff] at this
    exact this
  have fwd := key hf
  have bwd := key fun id => (hf id).symm
  -- the four parts of a frame, read off an equation between two of them
  have parts : ∀ {a b : Entry}, a.frame = b.frame →
      a.name = b.name ∧ a.owner = b.owner ∧ a.temporary = b.temporary ∧ a.scope? = b.scope? := by
    intro a b hab
    simpa [Entry.frame] using hab
  constructor
  case slots => exact hslots
  case root =>
    obtain ⟨e, b, live, hb, hdet⟩ := h.root
    obtain ⟨e', live', hfr⟩ := fwd _ _ live
    obtain ⟨_, howner, _, hscope⟩ := parts hfr
    exact ⟨e', b, live', hscope.trans hb, howner.trans hdet⟩
  case scope =>
    intro id e' b live' hb
    obtain ⟨e, live, hfr⟩ := bwd _ _ live'
    apply (h.scope id e b live ((parts hfr).2.2.2.trans hb)).congr
    intro c _ ec hc
    obtain ⟨ec', hc', hfc⟩ := fwd _ _ hc
    exact ⟨ec', hc', (parts hfc).1, (parts hfc).2.1⟩
  case owned =>
    intro id e' owner live' howner
    obtain ⟨e, live, hfr⟩ := bwd _ _ live'
    obtain ⟨p, b, hp, hb, hid⟩ := h.owned id e owner live ((parts hfr).2.1.trans howner)
    obtain ⟨p', hp', hfp⟩ := fwd _ _ hp
    exact ⟨p', b, hp', (parts hfp).2.2.2.trans hb, hid⟩
  case level =>
    intro id e' live'
    obtain ⟨e, live, _⟩ := bwd _ _ live'
    obtain ⟨n, hn⟩ := h.level id e live
    refine ⟨n, hn.congr (P := fun _ => True) trivial fun x ex _ hx => ⟨?_, fun _ _ => trivial⟩⟩
    obtain ⟨ex', hx', hfx⟩ := fwd _ _ hx
    exact ⟨ex', hx', (parts hfx).2.1⟩
  case temporary =>
    intro id e' live' htemp
    obtain ⟨e, live, hfr⟩ := bwd _ _ live'
    obtain ⟨_, howner, ht, hscope⟩ := parts hfr
    obtain ⟨hdet, hs⟩ := h.temporary id e live (ht.trans htemp)
    exact ⟨howner ▸ hdet, hscope ▸ hs⟩

end Sound

end Table
end Settings

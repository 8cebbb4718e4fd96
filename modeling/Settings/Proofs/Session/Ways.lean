import Settings.Proofs.Session.Paths

/-!
# Ways

What lies under an entry is reached from it by a row of names, and the path of an entry is the row
that leads to it from the top of its chain. `Way t top id names` is such a row between any two
entries of a chain. Ways can be put together (`Way.trans`), and an edit that changes a path in the
middle changes one part of it: the ways above and below stay as they are, since a way depends on
nothing but the owners and names of the entries on it (`Way.carried`).
-/

set_option autoImplicit false

namespace Settings
namespace Table

/-- The names that lead down from an entry to one that lies under it. -/
inductive Way (t : Table) (top : EntryId) : EntryId → List String → Prop
  | self : Way t top top []
  | owned {id owner : EntryId} {e : Entry} {names : List String} (live : t.get? id = some e)
      (owned : e.owner = some owner) (above : Way t top owner names) :
      Way t top id (names ++ [e.name])

/-- The names that make up the path of an entry. -/
def namesOf (t : Table) (id : EntryId) : Except Fault (List String) := (t.chain id).map namesTo

/-- The entry is there still, with the owner and the name that it had. -/
def KeepsPlace (t t' : Table) (id : EntryId) : Prop :=
  ∀ e, t.get? id = some e → ∃ e', t'.get? id = some e' ∧ e'.owner = e.owner ∧ e'.name = e.name

variable {t t' : Table} {top mid id : EntryId} {names names' : List String}

theorem pathOf_eq_namesOf (t : Table) (id : EntryId) :
    t.pathOf id = (t.namesOf id).map pathOfNames := by
  unfold pathOf namesOf
  cases t.chain id <;> rfl

/-! ## Between two entries -/

theorem Under.exists_way (h : t.Under top id) : ∃ names, t.Way top id names := by
  induction h with
  | self => exact ⟨[], .self⟩
  | owned live owned _ ih =>
    obtain ⟨names, hw⟩ := ih
    exact ⟨_, .owned live owned hw⟩

namespace Way

theorem under (h : t.Way top id names) : t.Under top id := by
  induction h with
  | self => exact .self
  | owned live owned _ ih => exact .owned live owned ih

theorem trans (h : t.Way top mid names) (h' : t.Way mid id names') :
    t.Way top id (names ++ names') := by
  induction h' with
  | self =>
    rw [List.append_nil]
    exact h
  | owned live owned _ ih =>
    rw [← List.append_assoc]
    exact .owned live owned ih

/-- Only the way from an entry to itself is empty, since no entry lies under itself otherwise. -/
theorem eq_nil_iff (h : t.Sound) (hw : t.Way top id names) : names = [] ↔ id = top := by
  cases hw with
  | self => simp
  | @owned _ owner e names live owned above =>
    have hne : id ≠ top := by
      rintro rfl
      obtain ⟨n, hn⟩ := h.level id e live
      exact hn.not_under_owned live owned above.under
    simp [hne]

theorem carried (h : t.Sound) (hw : t.Way top id names)
    (keep : ∀ x, t.Under top x → t.Under x id → x ≠ top → t.KeepsPlace t' x) :
    t'.Way top id names := by
  induction hw with
  | self => exact .self
  | @owned id owner e names live owned above ih =>
    have hne : id ≠ top := fun heq =>
      absurd ((Way.owned live owned above).eq_nil_iff h |>.mpr heq) (by simp)
    obtain ⟨e', live', howner, hname⟩ := keep id (.owned live owned above.under) .self hne e live
    rw [← hname]
    refine .owned live' (howner.trans owned) (ih ?_)
    intro x hx hxo
    exact keep x hx (.owned live owned hxo)

/-- The way up from an entry goes on from what it lies under. -/
theorem links (hw : t.Way top id names) {links : List (EntryId × Entry)}
    (htop : t.Links top links) :
    ∃ links', t.Links id links' ∧ namesTo links' = namesTo links ++ names := by
  induction hw with
  | self => exact ⟨links, htop, by simp⟩
  | @owned id owner e names live owned _ ih =>
    obtain ⟨links', hlinks', hnames⟩ := ih
    refine ⟨_, .owned live owned hlinks', ?_⟩
    rw [hlinks'.namesTo_cons, hnames, List.append_assoc]

end Way

/-! ## From the top -/

theorem Links.chain (h : t.Sound) {links : List (EntryId × Entry)} (hl : t.Links id links) :
    t.chain id = .ok links := by
  obtain ⟨e, live⟩ := hl.exists_entry
  obtain ⟨links', hchain, hlinks'⟩ := h.exists_chain live
  rw [hchain, hl.unique hlinks']

/-- The names of an entry are the way to it from an entry without an owner. -/
theorem Way.namesOf (h : t.Sound) (hw : t.Way top id names) {e : Entry}
    (live : t.get? top = some e) (detached : e.owner = none) : t.namesOf id = .ok names := by
  obtain ⟨links, hlinks, hnames⟩ := hw.links (.top live detached)
  unfold Table.namesOf
  rw [hlinks.chain h]
  exact congrArg Except.ok hnames

theorem Way.pathOf (h : t.Sound) (hw : t.Way top id names) {e : Entry}
    (live : t.get? top = some e) (detached : e.owner = none) :
    t.pathOf id = .ok (pathOfNames names) := by
  rw [pathOf_eq_namesOf, hw.namesOf h live detached]
  rfl

theorem Sound.exists_way (h : t.Sound) {e : Entry} (live : t.get? id = some e) :
    ∃ top etop names, t.get? top = some etop ∧ etop.owner = none ∧ t.Way top id names := by
  obtain ⟨links, _, hlinks⟩ := h.exists_chain live
  obtain ⟨top, etop, hlast, htop⟩ := hlinks.exists_top
  have hmem : (top, etop) ∈ links := List.mem_of_getLast? hlast
  obtain ⟨names, hw⟩ := (hlinks.mem_iff.mp (List.mem_map_of_mem hmem)).exists_way
  have detached : etop.owner = none := by
    cases htop with
    | top _ detached => exact detached
    | owned _ _ above => cases above
  exact ⟨top, etop, names, hlinks.live _ hmem, detached, hw⟩

/-- The path of an entry stays if the entries above it keep their places, of which that of the top
is told by its owner alone. -/
theorem Sound.pathOf_of_keepsPlace (h : t.Sound) (h' : t'.Sound) {e : Entry}
    (live : t.get? id = some e)
    (keep : ∀ x ex, t.Under x id → t.get? x = some ex → ∃ ex', t'.get? x = some ex' ∧
      ex'.owner = ex.owner ∧ (ex.owner ≠ none → ex'.name = ex.name)) :
    t'.pathOf id = t.pathOf id := by
  obtain ⟨top, etop, names, ltop, detached, hw⟩ := h.exists_way live
  obtain ⟨etop', ltop', howner, _⟩ := keep top etop hw.under ltop
  have hw' : t'.Way top id names := by
    apply hw.carried h
    intro x hx hxid hne ex lx
    obtain ⟨ex', lx', hox, hname⟩ := keep x ex hxid lx
    refine ⟨ex', lx', hox, hname ?_⟩
    intro hdet
    exact hne (hx.eq_of_detached lx hdet).symm
  rw [hw.pathOf h ltop detached, hw'.pathOf h' ltop' (howner.trans detached)]

end Table
end Settings

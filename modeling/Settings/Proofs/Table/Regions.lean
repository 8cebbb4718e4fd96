import Settings.Proofs.Session.Paths

/-!
# Regions

A region is a set of live entries that is made of whole trees: with each entry its owner and all its
children are in the set. A walk that starts in a region, up to an owner or down to a child, stays
there, so what it finds depends on the region alone. For everything that is looked up it depends on
the frames of the entries only (`Region.pathOf`, `Region.lookup?`, `Region.lookupPath?`).

Whether a set is a region can be read off the set itself. So a set stays a region of every sound
table in which its entries are as they were (`Region.kept`).
-/

set_option autoImplicit false

namespace Settings
namespace Table

/-- The entries of the set are live, and the set holds the whole tree of each of them. -/
structure Region (t : Table) (P : EntryId → Prop) : Prop where
  live : ∀ id, P id → t.contains id = true
  owner_iff : ∀ id e owner, t.get? id = some e → e.owner = some owner → (P id ↔ P owner)

/-- The entry is live and not in the tree under the given one. -/
def Outside (t : Table) (top id : EntryId) : Prop := t.contains id = true ∧ ¬ t.Under top id

/-- The entries of the set differ in values and headers only. -/
def SameFramesOn (t : Table) (P : EntryId → Prop) (t' : Table) : Prop :=
  ∀ id, P id → (t'.get? id).map Entry.frame = (t.get? id).map Entry.frame

variable {t t' : Table} {P : EntryId → Prop} {id : EntryId}

theorem SameFramesOn.of_eq (h : ∀ id, P id → t'.get? id = t.get? id) : t.SameFramesOn P t' :=
  fun id hid => by rw [h id hid]

theorem SameFramesOn.live (h : t.SameFramesOn P t') (hid : P id) {e : Entry}
    (live : t.get? id = some e) : ∃ e', t'.get? id = some e' ∧ e'.frame = e.frame := by
  have hframe := h id hid
  rw [live] at hframe
  exact Option.map_eq_some_iff.mp hframe

namespace Region

/-! ## What belongs to a region -/

theorem exists_entry (hp : t.Region P) (hid : P id) : ∃ e, t.get? id = some e :=
  contains_iff.mp (hp.live id hid)

theorem under_iff (hp : t.Region P) {top : EntryId} (h : t.Under top id) : P id ↔ P top := by
  induction h with
  | self => exact Iff.rfl
  | owned live owned _ ih => exact (hp.owner_iff _ _ _ live owned).trans ih

theorem child (h : t.Sound) (hp : t.Region P) (hid : P id) {e : Entry} (live : t.get? id = some e)
    {c : EntryId} (hc : c ∈ e.children) : P c := by
  obtain ⟨ec, lc, _, howner⟩ := h.child live hc
  exact (hp.owner_iff c ec id lc howner).mpr hid

theorem of_find? (h : t.Sound) (hp : t.Region P) (hid : P id) {name : String} {c : EntryId}
    (hc : t.find? id name = .ok (some c)) : P c := by
  obtain ⟨ec, lc, howner, _⟩ := h.find?_some hc
  exact (hp.owner_iff c ec id lc howner).mpr hid

/-- The live entries outside of the tree of an entry without an owner are a region. -/
theorem outside (h : t.Sound) {top : EntryId} {e : Entry} (live : t.get? top = some e)
    (detached : e.owner = none) : t.Region (t.Outside top) := by
  constructor
  case live => exact fun _ hid => hid.1
  case owner_iff =>
    intro id e' owner live' howner
    obtain ⟨p, _, lp, _⟩ := h.owned id e' owner live' howner
    have hunder : t.Under top id ↔ t.Under top owner := by
      constructor
      · intro hu
        refine (hu.above live' howner).resolve_left ?_
        rintro rfl
        obtain rfl := Option.mem_unique live live'
        rw [detached] at howner
        exact absurd howner (by simp)
      · exact .owned live' howner
    unfold Outside
    rw [contains_iff, contains_iff, hunder]
    exact and_congr_left fun _ => ⟨fun _ => ⟨p, lp⟩, fun _ => ⟨e', live'⟩⟩

/-- All live entries are a region. -/
theorem all (h : t.Sound) : t.Region fun id => t.contains id = true := by
  constructor
  case live => exact fun _ hid => hid
  case owner_iff =>
    intro id e owner live howner
    obtain ⟨p, _, lp, _⟩ := h.owned id e owner live howner
    exact ⟨fun _ => contains_iff.mpr ⟨p, lp⟩, fun _ => contains_iff.mpr ⟨e, live⟩⟩

/-- A set stays a region where its entries stay as they are. -/
theorem kept (h : t.Sound) (hp : t.Region P) (h' : t'.Sound)
    (same : ∀ id, P id → t'.get? id = t.get? id) : t'.Region P := by
  constructor
  case live =>
    intro id hid
    rw [contains, same id hid]
    exact hp.live id hid
  case owner_iff =>
    intro id e owner live howner
    constructor
    · intro hid
      exact (hp.owner_iff id e owner ((same id hid).symm.trans live) howner).mp hid
    · intro ho
      -- the owner has listed the entry all along
      obtain ⟨p, b, lp, hb, hm⟩ := h'.owned id e owner live howner
      exact hp.child h ho ((same owner ho).symm.trans lp) (children_eq hb ▸ hm)

/-! ## Looking up -/

/-- On the way up the same entries are met, with the same frames. -/
theorem links (hp : t.Region P) (same : t.SameFramesOn P t') (hid : P id)
    {links : List (EntryId × Entry)} (hlinks : t.Links id links) :
    ∃ links', t'.Links id links' ∧
      links'.map (fun link => (link.1, link.2.frame)) =
        links.map fun link => (link.1, link.2.frame) := by
  apply hlinks.carried
  intro link hlink
  have hin : P link.1 :=
    (hp.under_iff (hlinks.mem_iff.mp (List.mem_map_of_mem hlink))).mp hid
  obtain ⟨e', live', hframe⟩ := same.live hin (hlinks.live link hlink)
  exact ⟨e', live', congrArg (fun f => f.2.1) hframe, hframe⟩

theorem chain (h : t.Sound) (h' : t'.Sound) (hp : t.Region P) (same : t.SameFramesOn P t')
    (hid : P id) : ∃ links links', t.chain id = .ok links ∧ t'.chain id = .ok links' ∧
      t.Links id links ∧ links'.map (fun link => (link.1, link.2.frame)) =
        links.map fun link => (link.1, link.2.frame) := by
  obtain ⟨e, live⟩ := hp.exists_entry hid
  obtain ⟨e', live', _⟩ := same.live hid live
  obtain ⟨links, hchain, hlinks⟩ := h.exists_chain live
  obtain ⟨links', hchain', hlinks'⟩ := h'.exists_chain live'
  obtain ⟨_, hcopy, hsame⟩ := hp.links same hid hlinks
  obtain rfl := hcopy.unique hlinks'
  exact ⟨links, _, hchain, hchain', hlinks, hsame⟩

end Region

theorem firstChild?_congr_frames (name : String) {links links' : List (EntryId × Entry)}
    (h : links'.map (fun link => (link.1, link.2.frame)) =
      links.map fun link => (link.1, link.2.frame)) :
    firstChild? name links' = firstChild? name links := by
  induction links generalizing links' with
  | nil =>
    obtain rfl : links' = [] := by simpa using h
    rfl
  | cons link links ih =>
    cases links' with
    | nil => simp at h
    | cons link' links' =>
      rw [List.map_cons, List.map_cons, List.cons.injEq] at h
      have hscope : link'.2.scope? = link.2.scope? := congrArg (fun x => x.2.2.2.2) h.1
      simp only [firstChild?, hscope, ih h.2]

namespace Region

theorem pathOf (h : t.Sound) (h' : t'.Sound) (hp : t.Region P) (same : t.SameFramesOn P t')
    (hid : P id) : t'.pathOf id = t.pathOf id := by
  obtain ⟨links, links', hchain, hchain', _, hsame⟩ := hp.chain h h' same hid
  unfold Table.pathOf
  rw [hchain, hchain', Except.map, Except.map, namesTo_congr (fun x => x.2.1) (fun _ => rfl) hsame]

theorem find? (hp : t.Region P) (same : t.SameFramesOn P t') (hid : P id) (name : String) :
    t'.find? id name = t.find? id name := by
  obtain ⟨e, live⟩ := hp.exists_entry hid
  obtain ⟨e', live', hframe⟩ := same.live hid live
  have hscope : e'.scope? = e.scope? := congrArg (fun f => f.2.2.2) hframe
  rw [find?_eq_ok live, find?_eq_ok live', hscope]

theorem descend? (h : t.Sound) (hp : t.Region P) (same : t.SameFramesOn P t') (hid : P id)
    (names : List String) : t'.descend? id names = t.descend? id names := by
  induction names generalizing id with
  | nil => rfl
  | cons name names ih =>
    unfold Table.descend?
    rw [hp.find? same hid]
    cases hfound : t.find? id name with
    | error x => rfl
    | ok found =>
      cases found with
      | none => rfl
      | some c => exact ih (hp.of_find? h hid hfound)

theorem lookup? (h : t.Sound) (h' : t'.Sound) (hp : t.Region P) (same : t.SameFramesOn P t')
    (hid : P id) (name : String) (enclosing : Bool) :
    t'.lookup? id name enclosing = t.lookup? id name enclosing := by
  unfold Table.lookup?
  obtain ⟨links, links', hchain, hchain', _, hsame⟩ := hp.chain h h' same hid
  rw [hchain, hchain', hp.find? same hid, Except.map, Except.map,
    firstChild?_congr_frames name hsame]

/-- What a name stands for at an entry of a region is in the region. -/
theorem of_lookup? (h : t.Sound) (hp : t.Region P) (hid : P id) {name : String} {c : EntryId}
    (hc : t.lookup? id name true = .ok (some c)) : P c := by
  unfold Table.lookup? at hc
  by_cases hname : name = ""
  · rw [if_pos hname] at hc
    obtain rfl : id = c := by simpa using hc
    exact hid
  · obtain ⟨e, live⟩ := hp.exists_entry hid
    obtain ⟨links, hchain, hlinks⟩ := h.exists_chain live
    rw [if_neg hname, if_pos rfl, hchain] at hc
    obtain ⟨link, hlink, hfound⟩ := find?_of_firstChild? hlinks.live (Except.ok.inj hc)
    have hin := (hp.under_iff (hlinks.mem_iff.mp (List.mem_map_of_mem hlink))).mp hid
    exact hp.of_find? h hin hfound

theorem lookupPath? (h : t.Sound) (h' : t'.Sound) (hp : t.Region P) (same : t.SameFramesOn P t')
    (hid : P id) (path : String) : t'.lookupPath? id path = t.lookupPath? id path := by
  unfold Table.lookupPath?
  cases pathNames path with
  | nil => rfl
  | cons first names =>
    simp only [hp.lookup? h h' same hid]
    cases hfound : t.lookup? id first true with
    | error x => rfl
    | ok found =>
      cases found with
      | none => rfl
      | some c => simp only [bind, Except.bind, hp.descend? h same (hp.of_lookup? h hid hfound)]

end Region

end Table
end Settings

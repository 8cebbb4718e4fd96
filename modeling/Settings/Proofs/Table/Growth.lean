import Settings.Proofs.Table.Temporaries
import Settings.Proofs.Table.Walks

/-!
# Growth

Registering entries one after the other makes a table grow: each new entry comes into an empty slot
and to the end of a list of its scope, and nothing else changes. `Grown t added t'` tells this of a
whole row of registrations. What an old or a new entry has come to is told by `Entry.withAdded`,
which pushes the children that it got in the order in which it got them.

Taking out an entry that everything else was added under leads back to where the table started
(`Grown.run_remove`). What lies under that entry is just what is new: the owner of an old entry is
old, and the owners of the others are new.
-/

set_option autoImplicit false

namespace Settings

/-! ## Children that are added -/

/-- The entry with a child more, if it is a scope. -/
def Entry.withChild (e : Entry) (name : String) (id : EntryId) (builtin : Bool) : Entry :=
  match e.scope? with
  | some b => { e with storage := .scope (b.push name id builtin) }
  | none => e

/-- An entry that was registered, as it stands apart from its children. -/
structure Added where
  id : EntryId
  owner : EntryId
  entry : Entry
  builtin : Bool

/-- What a registration of an entry adds. -/
def Added.inserted (id scope : EntryId) (e : Entry) (builtin : Bool) : Added :=
  ⟨id, scope, Table.placed e (some scope), builtin⟩

/-- The registration, with the header of its entry changed since. -/
def Added.edited (a : Added) (changes : List HeaderEdit) : Added :=
  { a with entry := changes.foldl Entry.edit a.entry }

/-- An entry after a registration, as far as it is the scope. -/
def Added.onto (id : EntryId) (e : Entry) (a : Added) : Entry :=
  if a.owner = id then e.withChild a.entry.name a.id a.builtin else e

/-- The entry of a handle with the children that were added to it. -/
def Entry.withAdded (e : Entry) (id : EntryId) (added : List Added) : Entry :=
  added.foldl (Added.onto id) e

/-- The handles that were added to a scope, among its builtins or not. -/
def Added.handles (scope : EntryId) (builtin : Bool) (added : List Added) : List EntryId :=
  (added.filter fun a => a.owner = scope ∧ a.builtin = builtin).map Added.id

namespace Entry

variable {e : Entry} {id : EntryId} {added : List Added}

theorem withChild_of_scope? {b : ScopeBody} (h : e.scope? = some b) (name : String) (c : EntryId)
    (builtin : Bool) :
    e.withChild name c builtin = { e with storage := .scope (b.push name c builtin) } := by
  unfold withChild
  rw [h]

theorem exists_withChild (e : Entry) (name : String) (c : EntryId) (builtin : Bool) :
    ∃ storage, e.withChild name c builtin = { e with storage := storage } := by
  unfold withChild
  cases e.scope? with
  | none => exact ⟨e.storage, rfl⟩
  | some b => exact ⟨_, rfl⟩

theorem withAdded_append (e : Entry) (id : EntryId) (added : List Added) (a : Added) :
    e.withAdded id (added ++ [a]) = a.onto id (e.withAdded id added) := by
  simp [withAdded]

theorem withAdded_of_scope?_eq_none (h : e.scope? = none) (id : EntryId) (added : List Added) :
    e.withAdded id added = e := by
  induction added with
  | nil => rfl
  | cons a added ih =>
    have hsame : a.onto id e = e := by simp [Added.onto, withChild, h]
    show (a.onto id e).withAdded id added = e
    rw [hsame, ih]

theorem withAdded_cons_of_ne {a : Added} (ha : a.owner ≠ id) (e : Entry) (added : List Added) :
    e.withAdded id (a :: added) = e.withAdded id added := by
  show (a.onto id e).withAdded id added = e.withAdded id added
  rw [Added.onto, if_neg ha]

/-- What is added elsewhere does not matter. -/
theorem withAdded_of_ne (h : ∀ a ∈ added, a.owner ≠ id) : e.withAdded id added = e := by
  induction added generalizing e with
  | nil => rfl
  | cons a added ih =>
    obtain ⟨ha, hadded⟩ := List.forall_mem_cons.mp h
    rw [withAdded_cons_of_ne ha, ih hadded]

/-- Only the storage of an entry takes part. -/
theorem exists_withAdded (e : Entry) (id : EntryId) (added : List Added) :
    ∃ storage, e.withAdded id added = { e with storage := storage } := by
  induction added generalizing e with
  | nil => exact ⟨e.storage, rfl⟩
  | cons a added ih =>
    obtain ⟨storage, hrest⟩ := ih (a.onto id e)
    have hcons : e.withAdded id (a :: added) = (a.onto id e).withAdded id added := rfl
    by_cases ha : a.owner = id
    · obtain ⟨first, hfirst⟩ := e.exists_withChild a.entry.name a.id a.builtin
      rw [hcons, hrest, Added.onto, if_pos ha, hfirst]
      exact ⟨storage, rfl⟩
    · rw [hcons, hrest, Added.onto, if_neg ha]
      exact ⟨storage, rfl⟩

theorem withAdded_owner (e : Entry) (id : EntryId) (added : List Added) :
    (e.withAdded id added).owner = e.owner := by
  obtain ⟨storage, h⟩ := e.exists_withAdded id added
  rw [h]

/-- A scope is one with more children, in the order in which they were added. -/
theorem withAdded_of_scope? {b : ScopeBody} (h : e.scope? = some b) (id : EntryId)
    (added : List Added) :
    ∃ b', (e.withAdded id added).scope? = some b' ∧
      b'.entries = b.entries ++ Added.handles id false added ∧
      b'.builtins = b.builtins ++ Added.handles id true added ∧
      b'.structureType = b.structureType := by
  induction added generalizing e b with
  | nil => exact ⟨b, h, by simp [Added.handles], by simp [Added.handles], rfl⟩
  | cons a added ih =>
    have hcons : e.withAdded id (a :: added) = (a.onto id e).withAdded id added := rfl
    rw [hcons]
    by_cases ha : a.owner = id
    · rw [Added.onto, if_pos ha, withChild_of_scope? h]
      obtain ⟨b', hb', hes, hbs, htype⟩ := ih (e := { e with
        storage := .scope (b.push a.entry.name a.id a.builtin) }) rfl
      refine ⟨b', hb', ?_, ?_, htype⟩
      · rw [hes]
        cases hbuiltin : a.builtin <;> simp [ScopeBody.push, Added.handles, ha, hbuiltin]
      · rw [hbs]
        cases hbuiltin : a.builtin <;> simp [ScopeBody.push, Added.handles, ha, hbuiltin]
    · rw [Added.onto, if_neg ha]
      obtain ⟨b', hb', hes, hbs, htype⟩ := ih h
      exact ⟨b', hb', by simp [hes, Added.handles, ha], by simp [hbs, Added.handles, ha], htype⟩

/-! ### Changes of the header -/

theorem edit_name (e : Entry) (change : HeaderEdit) : (e.edit change).name = e.name := by
  cases change <;> rfl

theorem edit_owner (e : Entry) (change : HeaderEdit) : (e.edit change).owner = e.owner := by
  cases change <;> rfl

theorem edit_withChild (e : Entry) (change : HeaderEdit) (name : String) (c : EntryId)
    (builtin : Bool) :
    (e.edit change).withChild name c builtin = (e.withChild name c builtin).edit change := by
  have hscope : (e.edit change).scope? = e.scope? := by cases change <;> rfl
  unfold withChild
  rw [hscope]
  cases e.scope? with
  | none => rfl
  | some b => cases change <;> rfl

theorem edit_withAdded (e : Entry) (change : HeaderEdit) (id : EntryId) (added : List Added) :
    (e.edit change).withAdded id added = (e.withAdded id added).edit change := by
  induction added generalizing e with
  | nil => rfl
  | cons a added ih =>
    show (a.onto id (e.edit change)).withAdded id added = ((a.onto id e).withAdded id added).edit _
    rw [← ih]
    by_cases ha : a.owner = id
    · rw [Added.onto, if_pos ha, Added.onto, if_pos ha, edit_withChild]
    · rw [Added.onto, if_neg ha, Added.onto, if_neg ha]

end Entry

namespace Table

variable {t t' t'' : Table} {added : List Added} {id scope : EntryId}

/-! ## Growing -/

/-- The table has the entries that it had and those that were added, each with the children that it
got, and no others. The added ones are in the slots that came next. -/
structure Grown (t : Table) (added : List Added) (t' : Table) : Prop where
  sound : t'.Sound
  handles : added.map Added.id = t.nextSlots added.length
  takes : t.Takes added.length t'
  owner : ∀ a ∈ added, a.entry.owner = some a.owner
  old : ∀ id e, t.get? id = some e → t'.get? id = some (e.withAdded id added)
  new : ∀ a ∈ added, t'.get? a.id = some (a.entry.withAdded a.id added)
  known : ∀ id, t'.contains id = true → t.contains id = true ∨ id ∈ added.map Added.id

theorem Sound.grown (h : t.Sound) : t.Grown [] t where
  sound := h
  handles := by simp [nextSlots]
  takes := ⟨rfl, by simp⟩
  owner := by simp
  old := fun _ _ live => live
  new := by simp
  known := fun _ hid => Or.inl hid

namespace Grown

theorem fresh (h : t.SlotsOk) (hg : t.Grown added t') (hid : id ∈ added.map Added.id) :
    t.get? id = none :=
  h.get?_nextSlots (hg.handles ▸ hid)

theorem nodup (h : t.SlotsOk) (hg : t.Grown added t') : (added.map Added.id).Nodup :=
  hg.handles ▸ h.nextSlots_nodup added.length

theorem live (hg : t.Grown added t') (hid : id ∈ added.map Added.id) : t'.contains id = true := by
  obtain ⟨a, ha, rfl⟩ := List.mem_map.mp hid
  exact contains_iff.mpr ⟨_, hg.new a ha⟩

theorem size (h : t.SlotsOk) (hg : t.Grown added t') : t'.size = t.size + added.length :=
  hg.takes.size_add h

end Grown

/-! ## One registration -/

theorem Inserted.get? (h : t.SlotsOk) {e : Entry} {builtin : Bool}
    (hi : t.Inserted scope e builtin id t') (other : EntryId) :
    t'.get? other = if other = id then some (placed e (some scope))
      else if other = scope then (t.get? scope).map fun p => p.withChild e.name id builtin
      else t.get? other := by
  obtain ⟨p, b, live, hb, _, _, rfl, rfl⟩ := hi
  have hne := h.ne_alloc (placed e (some scope)) live
  rw [get?_setBody]
  by_cases hid : other = (t.alloc (placed e (some scope))).1
  · rw [if_pos hid, if_neg fun hs : other = scope => hne (hs ▸ hid), h.get?_alloc, if_pos hid]
  · rw [if_neg hid]
    by_cases hs : other = scope
    · rw [if_pos hs, if_pos hs, h.get?_alloc_of_live _ live, live]
      simp [Entry.withChild_of_scope? hb]
    · rw [if_neg hs, if_neg hs, h.get?_alloc, if_neg hid]

theorem Inserted.contains (h : t.SlotsOk) {e : Entry} {builtin : Bool}
    (hi : t.Inserted scope e builtin id t') : t'.contains id = true :=
  contains_iff.mpr ⟨_, by rw [hi.get? h, if_pos rfl]⟩

theorem Inserted.takes {e : Entry} {builtin : Bool} (hi : t.Inserted scope e builtin id t') :
    t.nextSlots 1 = [id] ∧ t.Takes 1 t' := by
  obtain ⟨p, b, _, _, _, _, rfl, rfl⟩ := hi
  exact ⟨t.nextSlots_one _, (Takes.alloc t _).trans (Takes.update _ scope _)⟩

/-- The scopes of added entries are live. -/
theorem Grown.owner_live (hg : t.Grown added t') {a : Added} (ha : a ∈ added) :
    t'.contains a.owner = true := by
  obtain ⟨p, b, lp, _⟩ := hg.sound.owned a.id _ a.owner (hg.new a ha)
    ((Entry.withAdded_owner _ _ _).trans (hg.owner a ha))
  exact contains_iff.mpr ⟨p, lp⟩

theorem Grown.inserted (hg : t.Grown added t') {e : Entry} {builtin : Bool}
    (hbody : ∀ b, e.scope? = some b → ∃ s, b = .empty s)
    (hi : t'.Inserted scope e builtin id t'') :
    t.Grown (added ++ [.inserted id scope e builtin]) t'' := by
  have hget := hi.get? hg.sound.slots
  obtain ⟨hnext, htakes⟩ := hi.takes
  have howner : (Added.inserted id scope e builtin).owner = scope := rfl
  have hlen : (added ++ [Added.inserted id scope e builtin]).length = added.length + 1 := by simp
  have hne : ∀ other, t'.contains other = true → other ≠ id := by
    rintro other hother rfl
    have hfresh := hg.sound.slots.get?_nextSlots (hnext ▸ List.mem_singleton_self other)
    simp [contains, hfresh] at hother
  have hscope : t'.contains scope = true := by
    obtain ⟨p, _, lp, _⟩ := hi
    exact contains_iff.mpr ⟨p, lp⟩
  -- an entry that was there gets one more child if it is the scope
  have step : ∀ (other : EntryId) (p : Entry), t'.get? other = some (p.withAdded other added) →
      t''.get? other = some (p.withAdded other (added ++ [.inserted id scope e builtin])) := by
    intro other p hp
    rw [hget, if_neg (hne other (contains_iff.mpr ⟨_, hp⟩)), Entry.withAdded_append, Added.onto]
    by_cases hs : other = scope
    · subst hs
      rw [if_pos rfl, if_pos howner, hp]
      rfl
    · rw [if_neg hs, if_neg fun heq => hs (heq.symm.trans howner), hp]
  constructor
  case sound => exact hg.sound.inserted hbody hi
  case handles =>
    rw [hlen, hg.takes.nextSlots_add, hnext, ← hg.handles, List.map_append]
    rfl
  case takes =>
    rw [hlen]
    exact hg.takes.trans htakes
  case owner =>
    exact List.forall_mem_append.mpr ⟨hg.owner, List.forall_mem_singleton.mpr rfl⟩
  case old => exact fun other p hp => step other p (hg.old other p hp)
  case new =>
    refine List.forall_mem_append.mpr ⟨fun a ha => step a.id a.entry (hg.new a ha), ?_⟩
    refine List.forall_mem_singleton.mpr ?_
    -- no scope that was added to is the new entry
    have hnone : ∀ a ∈ added ++ [.inserted id scope e builtin], a.owner ≠ id :=
      List.forall_mem_append.mpr ⟨fun a ha => hne _ (hg.owner_live ha),
        List.forall_mem_singleton.mpr (hne scope hscope)⟩
    show t''.get? id = some ((placed e (some scope)).withAdded id _)
    rw [Entry.withAdded_of_ne hnone, hget, if_pos rfl]
  case known =>
    intro other hother
    by_cases hid : other = id
    · exact Or.inr (by simp [hid, Added.inserted])
    · have hold : t'.contains other = true := by
        by_cases hs : other = scope
        · exact hs ▸ hscope
        · rwa [contains, hget, if_neg hid, if_neg hs] at hother
      rcases hg.known other hold with hother | hother
      · exact Or.inl hother
      · exact Or.inr (by simp [hother])

/-! ## Changes of the header -/

theorem Grown.edited (h : t.SlotsOk) {a : Added} (hg : t.Grown (added ++ [a]) t')
    (change : HeaderEdit) : ∃ e, t'.get? a.id = some e ∧
      t.Grown (added ++ [a.edited [change]]) (t'.set a.id (e.edit change)) := by
  have ha : a ∈ added ++ [a] := by simp
  have live := hg.new a ha
  refine ⟨_, live, ?_⟩
  -- a change of its header does not make it another child
  have honto : ∀ (id : EntryId) (e : Entry), (a.edited [change]).onto id e = a.onto id e := by
    intro id e
    simp [Added.onto, Added.edited, Entry.edit_name]
  have hsame : ∀ (id : EntryId) (e : Entry),
      e.withAdded id (added ++ [a.edited [change]]) = e.withAdded id (added ++ [a]) := by
    intro id e
    rw [Entry.withAdded_append, honto, ← Entry.withAdded_append]
  have hget : ∀ other, other ≠ a.id → (t'.set a.id ((a.entry.withAdded a.id
      (added ++ [a])).edit change)).get? other = t'.get? other := by
    intro other hne
    rw [set_eq_update live, get?_update, if_neg hne]
  have hids : (added ++ [a.edited [change]]).map Added.id = (added ++ [a]).map Added.id := by
    simp [Added.edited]
  have hlen : (added ++ [a.edited [change]]).length = (added ++ [a]).length := by simp
  constructor
  case sound => exact hg.sound.set live (Entry.frame_edit _ change)
  case handles => rw [hids, hlen, hg.handles]
  case takes =>
    rw [hlen, set_eq_update live]
    exact hg.takes.trans (Takes.update t' a.id _)
  case owner =>
    refine List.forall_mem_append.mpr ⟨fun b hb => hg.owner b (by simp [hb]), ?_⟩
    exact List.forall_mem_singleton.mpr ((Entry.edit_owner _ _).trans (hg.owner a ha))
  case old =>
    intro other p hp
    have hne : other ≠ a.id := by
      rintro rfl
      rw [hg.fresh h (List.mem_map_of_mem ha)] at hp
      exact absurd hp (by simp)
    rw [hget other hne, hsame, hg.old other p hp]
  case new =>
    refine List.forall_mem_append.mpr ⟨?_, List.forall_mem_singleton.mpr ?_⟩
    · intro b hb
      have hne : b.id ≠ a.id := by
        have hnodup := hg.nodup h
        rw [List.map_append, List.nodup_append'] at hnodup
        intro heq
        exact hnodup.2.2 (List.mem_map_of_mem hb) (by simp [heq])
      rw [hget b.id hne, hsame, hg.new b (by simp [hb])]
    · show (t'.set a.id _).get? a.id = some ((a.entry.edit change).withAdded a.id _)
      rw [hsame, Entry.edit_withAdded, set_eq_update live, get?_update, if_pos rfl, live]
      rfl
  case known =>
    intro other hother
    rw [hids]
    by_cases hne : other = a.id
    · exact Or.inr (hne ▸ List.mem_map_of_mem ha)
    · exact hg.known other (by rwa [contains, hget other hne] at hother)

/-! ## Taking the first one out again -/

/-- A child that was put in last is taken out without a trace. -/
theorem erase_push {b : ScopeBody} {name : String} (builtin : Bool) (hid : id ∉ b.children)
    (hname : b.find? name = none) : (b.push name id builtin).erase id name = b := by
  obtain ⟨hes, hbs⟩ := not_or.mp fun h => hid (List.mem_append.mpr h)
  have hkeep : ∀ ids : List EntryId, id ∉ ids → ids.filter (fun c => !decide (c = id)) = ids := by
    intro ids hids
    refine List.filter_eq_self.mpr fun c hc => ?_
    simp [show c ≠ id from fun heq => hids (heq ▸ hc)]
  have hindex : (b.index.insert name id).erase name = b.index := by
    refine NameIndex.ext_find? fun other => ?_
    rw [NameIndex.find?_erase, NameIndex.find?_insert]
    by_cases ho : other = name
    · rw [if_pos ho, ho]
      exact hname.symm
    · rw [if_neg ho, if_neg ho]
  cases builtin <;>
    simp [ScopeBody.push, ScopeBody.erase, hindex, hkeep b.entries hes, hkeep b.builtins hbs]

theorem Sound.exists_removed (h : t.Sound) {e : Entry} (live : t.get? id = some e)
    (hroot : id ≠ Table.root) : ∃ t', (remove id).run t = (.ok (), t') ∧ t.Removed id t' := by
  obtain ⟨x, htree⟩ := h.exists_tree live
  obtain ⟨_, t', hrun, _⟩ := h.run_remove live htree hroot
  exact ⟨t', hrun, (remove_atomic h id).of_ok hrun⟩

theorem size_slots_foldl_vacate (t : Table) (ids : List EntryId) :
    (ids.foldl vacate t).slots.size = t.slots.size := by
  induction ids generalizing t with
  | nil => rfl
  | cons id ids ih =>
    rw [List.foldl_cons, ih]
    simp [vacate]

/-- Where an entry that a scope owns has been taken out. -/
theorem Removed.get? (h : t.Sound) (hr : t.Removed id t') {e p : Entry} {b : ScopeBody}
    (live : t.get? id = some e) (howner : e.owner = some scope) (lp : t.get? scope = some p)
    (hb : p.scope? = some b) :
    (∀ y, t.Under id y → t'.get? y = none) ∧
    t'.get? scope = some { p with storage := .scope (b.erase id e.name) } ∧
    (∀ y, ¬ t.Under id y → y ≠ scope → t'.get? y = t.get? y) ∧
    t'.slots.size = t.slots.size := by
  obtain ⟨e', x, u, live', _, htree, hu, rfl⟩ := hr
  obtain rfl := Option.mem_unique live live'
  have hx := (tree_eq_ok_iff.mp htree).1.1
  obtain rfl := (tree_eq_ok_iff.mp htree).2
  refine ⟨?_, ?_, ?_, ?_⟩
  · intro y hy
    rw [get?_foldl_vacate, if_pos ((hx.mem_ids h).mpr hy)]
  · rw [get?_foldl_vacate, if_neg fun hm => h.not_mem_ids live htree hm howner]
    exact hu.get?_scope howner lp hb
  · intro y hy hne
    rw [get?_foldl_vacate, if_neg fun hm => hy ((hx.mem_ids h).mp hm)]
    exact hu.get?_of_ne fun heq => hne (Option.some.inj (heq.symm.trans howner))
  · rw [size_slots_foldl_vacate, hu.size_slots]

variable {a : Added}

theorem Grown.new_of_under (h : t.Sound) (hg : t.Grown (a :: added) t') {x : EntryId}
    (hx : t'.Under a.id x) : t.get? x = none := by
  induction hx with
  | self => exact hg.fresh h.slots (by simp)
  | @owned id owner e live howner _ ih =>
    cases hold : t.get? id with
    | none => rfl
    | some e₀ =>
      -- the owner of an old entry is old
      obtain rfl := Option.mem_unique live (hg.old id e₀ hold)
      obtain ⟨p, _, lp, _⟩ := h.owned id e₀ owner hold
        ((Entry.withAdded_owner _ _ _).symm.trans howner)
      rw [ih] at lp
      exact absurd lp (by simp)

theorem Grown.under_of_new (hg : t.Grown (a :: added) t')
    (inside : ∀ x ∈ added, t.get? x.owner = none) {x : EntryId} (hx : t'.contains x = true)
    (hnew : t.get? x = none) :
    t'.Under a.id x := by
  have hadded : ∀ y, t'.contains y = true → t.get? y = none → ∃ b ∈ a :: added, b.id = y := by
    intro y hy hnone
    rcases hg.known y hy with hold | hmem
    · simp [contains, hnone] at hold
    · exact List.mem_map.mp hmem
  obtain ⟨e, live⟩ := contains_iff.mp hx
  obtain ⟨n, hn⟩ := hg.sound.level x e live
  clear live
  induction hn with
  | @top id e live detached =>
    obtain ⟨b, hb, rfl⟩ := hadded id hx hnew
    obtain rfl := Option.mem_unique live (hg.new b hb)
    rw [Entry.withAdded_owner, hg.owner b hb] at detached
    exact absurd detached (by simp)
  | @owned id owner e n live howner above ih =>
    obtain ⟨b, hb, rfl⟩ := hadded id hx hnew
    obtain rfl := Option.mem_unique live (hg.new b hb)
    rw [Entry.withAdded_owner, hg.owner b hb] at howner
    obtain rfl := Option.some.inj howner
    rcases List.mem_cons.mp hb with rfl | hb'
    · exact .self
    · exact .owned live ((Entry.withAdded_owner _ _ _).trans (hg.owner b hb))
        (ih (hg.owner_live hb) (inside b hb'))

/-- The entry that all others were added under is removed, and the table has the entries that it
had before. -/
theorem Grown.run_remove (h : t.Sound) (hg : t.Grown (a :: added) t')
    (inside : ∀ x ∈ added, t.get? x.owner = none) {p : Entry} {b : ScopeBody}
    (live : t.get? a.owner = some p) (hb : p.scope? = some b)
    (hfree : b.find? a.entry.name = none) :
    ∃ t'', (remove a.id).run t' = (.ok (), t'') ∧ t.Holding [] t'' := by
  have ha : a.id ∈ (a :: added).map Added.id := List.mem_cons_self
  have hroot : a.id ≠ root := by
    obtain ⟨er, _, lr, _⟩ := h.root
    intro heq
    rw [← heq, hg.fresh h.slots ha] at lr
    exact absurd lr (by simp)
  have lives := hg.new a List.mem_cons_self
  have howner : (a.entry.withAdded a.id (a :: added)).owner = some a.owner :=
    (Entry.withAdded_owner _ _ _).trans (hg.owner a List.mem_cons_self)
  -- nothing but the first entry was added to old scopes
  have hothers : ∀ y, t.contains y = true → ∀ e : Entry, e.withAdded y added = e := by
    intro y hy e
    refine Entry.withAdded_of_ne ?_
    rintro c hc rfl
    simp [contains, inside c hc] at hy
  have lp : t'.get? a.owner =
      some { p with storage := .scope (b.push a.entry.name a.id a.builtin) } := by
    rw [hg.old _ p live]
    show some ((a.onto a.owner p).withAdded a.owner added) = _
    rw [Added.onto, if_pos rfl, Entry.withChild_of_scope? hb,
      hothers _ (contains_iff.mpr ⟨p, live⟩)]
  have hname : (a.entry.withAdded a.id (a :: added)).name = a.entry.name := by
    obtain ⟨storage, heq⟩ := a.entry.exists_withAdded a.id (a :: added)
    rw [heq]
  have hnew : a.id ∉ b.children := by
    intro hc
    obtain ⟨ec, lc, _⟩ := (h.scope _ p b live hb).child a.id hc
    rw [hg.fresh h.slots ha] at lc
    exact absurd lc (by simp)
  obtain ⟨t'', hrun, hremoved⟩ := hg.sound.exists_removed lives hroot
  obtain ⟨hunder, hscope, hrest, hslots⟩ := hremoved.get? hg.sound lives howner lp rfl
  refine ⟨t'', hrun, hg.sound.removed hremoved, List.nodup_nil, by simp, ?_, ?_⟩
  · intro y _
    by_cases hy : t'.Under a.id y
    · rw [hunder y hy, hg.new_of_under h hy]
    · by_cases ho : y = a.owner
      · rw [ho, hscope, hname, erase_push a.builtin hnew hfree, live, ← scope?_eq_some hb]
      · rw [hrest y hy ho]
        cases hold : t.get? y with
        | none =>
          cases hnone : t'.get? y with
          | none => rfl
          | some e => exact absurd (hg.under_of_new inside (contains_iff.mpr ⟨e, hnone⟩) hold) hy
        | some e =>
          rw [hg.old y e hold]
          show some ((a.onto y e).withAdded y added) = some e
          rw [Added.onto, if_neg fun heq => ho heq.symm, hothers y (contains_iff.mpr ⟨e, hold⟩)]
  · rw [hslots, hg.takes.size]
    exact Nat.le_add_right _ _

end Table

end Settings

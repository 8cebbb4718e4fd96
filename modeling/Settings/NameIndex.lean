import Settings.Handle

/-!
# Name indexes

A scope finds its children by name. The index that it does this with is a finite map from names to
handles, kept as a row of pairs in the order of names, so that two indexes in which the same names
find the same handles are equal.

`find?_insert` and `find?_erase` say all there is to know about the two edits, and `ext_find?` that
nothing but what is found tells two indexes apart.
-/

set_option autoImplicit false

namespace Settings

structure NameIndex where
  pairs : List (String × EntryId)
  sorted : pairs.Pairwise fun p q => p.1 < q.1

namespace NameIndex

def empty : NameIndex := ⟨[], .nil⟩

def find? (x : NameIndex) (name : String) : Option EntryId := x.pairs.lookup name

/-- Puts a pair into its place. A pair with the same name gives way. -/
def insertPair (name : String) (id : EntryId) : List (String × EntryId) → List (String × EntryId)
  | [] => [(name, id)]
  | p :: ps =>
      if name < p.1 then (name, id) :: p :: ps
      else if name = p.1 then (name, id) :: ps
      else p :: insertPair name id ps

theorem mem_insertPair {name : String} {id : EntryId} {p : String × EntryId} :
    ∀ {ps : List (String × EntryId)}, p ∈ insertPair name id ps → p = (name, id) ∨ p ∈ ps
  | [], h => Or.inl (List.mem_singleton.mp h)
  | q :: qs, h => by
    unfold insertPair at h
    split at h
    · exact List.mem_cons.mp h
    · split at h
      · rcases List.mem_cons.mp h with hp | hp
        · exact Or.inl hp
        · exact Or.inr (List.mem_cons_of_mem _ hp)
      · rcases List.mem_cons.mp h with hp | hp
        · exact Or.inr (hp ▸ List.mem_cons_self)
        · rcases mem_insertPair hp with hp | hp
          · exact Or.inl hp
          · exact Or.inr (List.mem_cons_of_mem _ hp)

theorem sorted_insertPair (name : String) (id : EntryId) :
    ∀ {ps : List (String × EntryId)}, ps.Pairwise (fun p q => p.1 < q.1) →
      (insertPair name id ps).Pairwise fun p q => p.1 < q.1
  | [], _ => List.pairwise_singleton _ _
  | p :: ps, h => by
    obtain ⟨hp, hps⟩ := List.pairwise_cons.mp h
    unfold insertPair
    split
    · rename_i hlt
      refine List.pairwise_cons.mpr ⟨?_, h⟩
      intro q hq
      rcases List.mem_cons.mp hq with rfl | hq
      · exact hlt
      · exact String.lt_trans hlt (hp q hq)
    · rename_i hge
      split
      · rename_i he
        exact List.pairwise_cons.mpr ⟨fun q hq => he ▸ hp q hq, hps⟩
      · rename_i hne
        refine List.pairwise_cons.mpr ⟨?_, sorted_insertPair name id hps⟩
        intro q hq
        rcases mem_insertPair hq with rfl | hq
        · exact Decidable.byContradiction fun hlt =>
            hne (String.le_antisymm (String.not_lt.mp hlt) (String.not_lt.mp hge))
        · exact hp q hq

/-- The index with a name leading to a handle, whatever it led to before. -/
def insert (x : NameIndex) (name : String) (id : EntryId) : NameIndex :=
  ⟨insertPair name id x.pairs, sorted_insertPair name id x.sorted⟩

def erase (x : NameIndex) (name : String) : NameIndex :=
  ⟨x.pairs.filter fun p => p.1 ≠ name, x.sorted.filter _⟩

/-! ## What is found after an edit -/

theorem lookup_pair (p : String × EntryId) (ps : List (String × EntryId)) (name : String) :
    (p :: ps).lookup name = if name = p.1 then some p.2 else ps.lookup name := by
  obtain ⟨n, id⟩ := p
  by_cases h : name = n
  · simp [h]
  · have hb : (name == n) = false := beq_eq_false_iff_ne.mpr h
    simp [List.lookup_cons, h, hb]

theorem find?_empty (name : String) : empty.find? name = none := rfl

theorem find?_insert (x : NameIndex) (name other : String) (id : EntryId) :
    (x.insert name id).find? other = if other = name then some id else x.find? other := by
  show (insertPair name id x.pairs).lookup other
    = if other = name then some id else x.pairs.lookup other
  induction x.pairs with
  | nil => exact lookup_pair (name, id) [] other
  | cons p ps ih =>
    unfold insertPair
    split
    · rw [lookup_pair]
    · split
      · rename_i he
        rw [lookup_pair, lookup_pair, ← he]
        split <;> rfl
      · rename_i hne
        rw [lookup_pair, lookup_pair, ih]
        by_cases ho : other = name
        · rw [if_pos ho, if_neg (ho ▸ hne), if_pos ho]
        · rw [if_neg ho, if_neg ho]

theorem find?_erase (x : NameIndex) (name other : String) :
    (x.erase name).find? other = if other = name then none else x.find? other := by
  show (x.pairs.filter fun p => p.1 ≠ name).lookup other
    = if other = name then none else x.pairs.lookup other
  induction x.pairs with
  | nil => simp
  | cons p ps ih =>
    by_cases hp : p.1 = name
    · rw [List.filter_cons_of_neg (by simpa using hp), ih, lookup_pair, hp]
      split <;> rfl
    · rw [List.filter_cons_of_pos (by simpa using hp), lookup_pair, lookup_pair, ih]
      by_cases ho : other = p.1
      · rw [if_pos ho, if_neg (ho ▸ hp), if_pos ho]
      · rw [if_neg ho, if_neg ho]

/-! ## Equality -/

theorem find?_eq_some_iff {x : NameIndex} {name : String} {id : EntryId} :
    x.find? name = some id ↔ (name, id) ∈ x.pairs := by
  obtain ⟨pairs, sorted⟩ := x
  show pairs.lookup name = some id ↔ (name, id) ∈ pairs
  induction pairs with
  | nil => simp
  | cons p ps ih =>
    obtain ⟨hp, hps⟩ := List.pairwise_cons.mp sorted
    rw [lookup_pair, List.mem_cons]
    by_cases h : name = p.1
    · -- the names behind are greater, so the pair is the first one or none
      have hnot : (name, id) ∉ ps := fun hm => String.lt_irrefl _ (h ▸ hp _ hm)
      simp [h, Prod.ext_iff, eq_comm, h ▸ hnot]
    · rw [if_neg h, ih hps]
      simp [Prod.ext_iff, h]

theorem ext_find? {x y : NameIndex} (h : ∀ name, x.find? name = y.find? name) : x = y := by
  have nodup : ∀ z : NameIndex, z.pairs.Nodup := by
    intro z
    refine List.Pairwise.imp ?_ z.sorted
    rintro p _ hlt rfl
    exact String.lt_irrefl p.1 hlt
  have perm : x.pairs.Perm y.pairs :=
    (List.perm_ext_iff_of_nodup (nodup x) (nodup y)).mpr fun p => by
      rw [← find?_eq_some_iff, ← find?_eq_some_iff, h]
  have pairs : x.pairs = y.pairs :=
    perm.eq_of_pairwise
      (fun _ _ _ _ hab hba => absurd (String.lt_trans hab hba) (String.lt_irrefl _))
      x.sorted y.sorted
  cases x
  cases y
  simpa using pairs

end NameIndex

end Settings

import Settings.Proofs.Listing.Recording
import Settings.Proofs.Session.Removal

/-!
# Moments

Between two moments of a run at most one slot is taken or emptied (`Tick`), and a row of moments
`Leads` from one table to another. No slot that is free is passed over: a slot comes in only where
none is free, and then all of them are in use. So the number of slots grows with the number of
entries and at no other time, and the last table of a row has as many slots as the first, or as many
as there were entries at some moment (`Leads.peak`). Each handle that is new in the last table was
that of a live entry at some moment (`Leads.seen`).

An edit of many steps goes through the tables that it makes on its way. Freeing a tree and copying
one do so slot by slot, and `freeMoments` and `cloneMoments` follow them, step for step.
-/

set_option autoImplicit false

namespace Settings

/-- Giving a value in the end does nothing to the table. -/
theorem Edit.table_run_bind_pure {ε α β : Type} (m : Edit ε α) (f : α → β) (t : Table) :
    ((m >>= fun a => pure (f a)).run t).2 = (m.run t).2 := by
  rw [run_bind]
  rcases m.run t with ⟨outcome, u⟩
  cases outcome <;> rfl

namespace Table

/-- At most one slot has been taken or emptied. -/
inductive Tick (t t' : Table) : Prop
  | still (same : t.SameSlots t')
  | taken (takes : t.Takes 1 t') (live : t.free = [] → t'.contains ⟨t.slots.size⟩ = true)
  | emptied {id : EntryId} (free : t'.free = id :: t.free) (size : t'.slots.size = t.slots.size)

/-- The tables, the first and the last one among them, with a tick from each to the next. -/
inductive Leads : Table → List Table → Table → Prop
  | stay (t : Table) : Leads t [t] t
  | tick {t u t' : Table} {moments : List Table} (first : t.Tick u) (rest : Leads u moments t') :
      Leads t (t :: moments) t'

variable {t t' u v : Table} {moments moments' : List Table} {id : EntryId} {e : Entry}

/-! ## Ticks -/

theorem SameSlots.update (t : Table) (id : EntryId) (f : Entry → Entry) :
    t.SameSlots (t.update id f) := ⟨free_update t id f, size_slots_update t id f⟩

theorem SameSlots.trans (h : t.SameSlots u) (h' : u.SameSlots v) : t.SameSlots v :=
  ⟨h'.1.trans h.1, h'.2.trans h.2⟩

theorem Tick.refl (t : Table) : t.Tick t := .still ⟨rfl, rfl⟩

theorem Tick.alloc (t : Table) (e : Entry) : t.Tick (t.alloc e).2 := by
  refine .taken (.alloc t e) fun hfree => ?_
  simp [Table.alloc, hfree, contains, get?]

theorem Tick.vacate (t : Table) (id : EntryId) : t.Tick (t.vacate id) :=
  .emptied rfl (by simp [Table.vacate])

/-- What happens to entries in their slots does not count. -/
theorem Tick.update (h : t.Tick u) (id : EntryId) (f : Entry → Entry) : t.Tick (u.update id f) := by
  have same := SameSlots.update u id f
  cases h with
  | still same' => exact .still (same'.trans same)
  | taken takes live =>
    refine .taken (takes.trans (.update u id f)) fun hfree => ?_
    obtain ⟨e, hlive⟩ := contains_iff.mp (live hfree)
    rw [contains, get?_update]
    split
    · rename_i heq
      simp [← heq, hlive]
    · exact live hfree
  | emptied free size => exact .emptied (same.1.trans free) (same.2.trans size)

theorem Inserted.ticks {scope : EntryId} {builtin : Bool}
    (h : t.Inserted scope e builtin id t') : t.Tick t' := by
  obtain ⟨p, b, _, _, _, _, _, rfl⟩ := h
  exact (Tick.alloc t _).update scope _

/-- A new slot comes in only where none is free, and is in use then, like all others. -/
theorem Tick.grows (h : t.Tick t') : t.slots.size ≤ t'.slots.size ∧
    (t'.slots.size ≠ t.slots.size → t'.slots.size = t.slots.size + 1 ∧
      t'.size = t'.slots.size ∧ t'.contains ⟨t.slots.size⟩ = true) := by
  cases h with
  | still same => exact ⟨same.2.ge, fun hne => absurd same.2 hne⟩
  | taken takes live =>
    have hsize := takes.size
    refine ⟨by omega, fun hne => ?_⟩
    -- the table has grown, so its free list was used up
    have hfree : t.free = [] := List.length_eq_zero_iff.mp (by omega)
    have hfree' : t'.free = [] := by rw [takes.free, hfree, List.drop_nil]
    rw [hfree, List.length_nil] at hsize
    exact ⟨hsize, by simp [size, hfree'], live hfree⟩
  | emptied free size => exact ⟨size.ge, fun hne => absurd size hne⟩

/-! ## Rows of moments -/

namespace Leads

theorem of_tick (h : t.Tick t') : Leads t [t, t'] t' := .tick h (.stay t')

theorem append (h : Leads t moments u) (next : u.Tick v) (h' : Leads v moments' t') :
    Leads t (moments ++ moments') t' := by
  induction h with
  | stay t => exact .tick next h'
  | tick first _ ih => exact .tick first (ih next)

theorem first_mem (h : Leads t moments t') : t ∈ moments := by
  cases h <;> exact List.mem_cons_self

theorem last_mem (h : Leads t moments t') : t' ∈ moments := by
  induction h with
  | stay t => exact List.mem_cons_self
  | tick _ _ ih => exact List.mem_cons_of_mem _ ih

theorem slots_le (h : Leads t moments t') : t.slots.size ≤ t'.slots.size := by
  induction h with
  | stay t => exact Nat.le_refl _
  | tick first _ ih => exact first.grows.1.trans ih

/-- At no moment are there more slots than in the end. -/
theorem slots_le_last (h : Leads t moments t') {m : Table} (hm : m ∈ moments) :
    m.slots.size ≤ t'.slots.size := by
  induction h with
  | stay t => rw [List.mem_singleton.mp hm]
  | tick first rest ih =>
    rcases List.mem_cons.mp hm with rfl | hm
    · exact (Leads.tick first rest).slots_le
    · exact ih hm

/-- If there are more slots in the end than at first, then all of them were in use at a time. -/
theorem peak (h : Leads t moments t') :
    t'.slots.size = t.slots.size ∨ ∃ m ∈ moments, m.size = t'.slots.size := by
  induction h with
  | stay t => exact Or.inl rfl
  | @tick t u t' moments first rest ih =>
    rcases ih with hlast | ⟨m, hm, hsize⟩
    · by_cases hgrown : u.slots.size = t.slots.size
      · exact Or.inl (hlast.trans hgrown)
      · obtain ⟨_, hfull, _⟩ := first.grows.2 hgrown
        exact Or.inr ⟨u, List.mem_cons_of_mem _ rest.first_mem, hfull.trans hlast.symm⟩
    · exact Or.inr ⟨m, List.mem_cons_of_mem _ hm, hsize⟩

/-- A slot that was not there at first had a live entry at a time. -/
theorem seen (h : Leads t moments t') (hid : id.index < t'.slots.size)
    (hnew : t.slots.size ≤ id.index) : ∃ m ∈ moments, m.contains id = true := by
  induction h with
  | stay t => omega
  | @tick t u t' moments first rest ih =>
    by_cases hu : u.slots.size ≤ id.index
    · obtain ⟨m, hm, hlive⟩ := ih hid hu
      exact ⟨m, List.mem_cons_of_mem _ hm, hlive⟩
    · -- it is the slot that came in with the first tick
      have hgrown : u.slots.size ≠ t.slots.size := by omega
      obtain ⟨hsize, _, hlive⟩ := first.grows.2 hgrown
      have heq : id = ⟨t.slots.size⟩ := EntryId.eq_of_index (show id.index = t.slots.size by omega)
      exact ⟨u, List.mem_cons_of_mem _ rest.first_mem, heq ▸ hlive⟩

end Leads

/-! ## The moments of an edit -/

variable {ε : Type}

/-- The tables that a row of edits goes through, as far as it is done. What one of them goes through
is told by `within`. -/
def rowMoments (edit : EntryId → Edit ε Unit) (within : EntryId → Table → List Table) :
    List EntryId → Table → List Table
  | [], t => [t]
  | id :: ids, t =>
      within id t ++ match (edit id).run t with
        | (.ok (), t') => rowMoments edit within ids t'
        | (.error _, t') => [t']

/-- The tables that freeing an entry and what is under it goes through: one for each slot. -/
def freeMoments (ε : Type) : (depth : Nat) → EntryId → Table → List Table
  | 0, _, t => [t]
  | depth + 1, id, t =>
      match t.get? id with
      | none => [t]
      | some e =>
          t :: rowMoments (freeWithin depth : EntryId → Edit ε Unit) (freeMoments ε depth)
            e.children (t.vacate id)

/-- The tables that taking an entry out goes through. -/
def removeMoments (id : EntryId) (t : Table) : List Table :=
  match t.get? id with
  | none => [t]
  | some e =>
      let u := ((unlist e.owner id e.name).run t).2
      t :: freeMoments TreeError (u.slots.size + 1) id u

/-- Copies a child, and lists the copy once it is complete. -/
def copyChild (depth : Nat) (copy : EntryId) (builtin : Bool) (child : EntryId) : Edit ε Unit := do
  pushChild copy (← cloneWithin depth (some copy) child) builtin

/-- The tables that copying an entry and what is under it goes through: one for each slot that is
taken, and one for each child that is listed. -/
def cloneMoments (ε : Type) : (depth : Nat) → (owner : Option EntryId) → EntryId → Table →
    List Table
  | 0, _, _, t => [t]
  | depth + 1, owner, id, t =>
      match t.get? id with
      | none => [t]
      | some e =>
          let copy := (t.alloc { e.bare with owner := owner }).1
          let u := (t.alloc { e.bare with owner := owner }).2
          let row (builtin : Bool) : List EntryId → Table → List Table :=
            rowMoments (copyChild depth copy builtin : EntryId → Edit ε Unit)
              (cloneMoments ε depth (some copy))
          match e.scope? with
          | none => [t, u]
          | some b =>
              t :: row false b.entries u ++
                match (b.entries.forM (copyChild depth copy false) : Edit ε Unit).run u with
                | (.ok (), v) => row true b.builtins v
                | (.error _, _) => []

theorem leads_rowMoments {edit : EntryId → Edit ε Unit} {within : EntryId → Table → List Table}
    (hedit : ∀ id t, ∃ u, Leads t (within id t) u ∧ u.Tick ((edit id).run t).2)
    (ids : List EntryId) (t : Table) :
    Leads t (rowMoments edit within ids t) ((ids.forM edit).run t).2 := by
  induction ids generalizing t with
  | nil => exact .stay t
  | cons id ids ih =>
    obtain ⟨u, hwithin, hnext⟩ := hedit id t
    rw [Edit.forM_cons, rowMoments]
    rcases hrun : (edit id).run t with ⟨outcome, v⟩
    rw [hrun] at hnext
    cases outcome with
    | ok _ =>
      rw [Edit.bind_ok _ hrun]
      exact hwithin.append hnext (ih v)
    | error x =>
      rw [Edit.bind_error _ hrun]
      exact hwithin.append hnext (.stay v)

theorem leads_freeMoments (depth : Nat) (id : EntryId) (t : Table) :
    Leads t (freeMoments ε depth id t) ((freeWithin depth id : Edit ε Unit).run t).2 := by
  induction depth generalizing id t with
  | zero => exact .stay t
  | succ depth ih =>
    unfold freeMoments
    cases live : t.get? id with
    | none =>
      have hrun : (freeWithin (depth + 1) id : Edit ε Unit).run t = (.ok (), t) := by
        unfold freeWithin
        refine (Edit.look_bind_ok _ t rfl).trans ?_
        rw [live]
        rfl
      rw [hrun]
      exact .stay t
    | some e =>
      rw [run_freeWithin_succ live]
      exact .tick (.vacate t id)
        (leads_rowMoments (fun id t => ⟨_, ih id t, .refl _⟩) e.children _)

/-- Where an entry has been taken out, the moments lead there. -/
theorem leads_removeMoments (hrun : (remove id).run t = (.ok (), t')) :
    Leads t (removeMoments id t) t' := by
  by_cases hroot : id = root
  · rw [remove, Edit.refuseIf_bind_pos t hroot] at hrun
    exact absurd (congrArg Prod.fst hrun) (by simp)
  rw [remove, Edit.refuseIf_bind_neg t hroot] at hrun
  unfold removeMoments
  cases live : t.get? id with
  | none =>
    rw [Edit.look_bind_error _ t (liveEntry_eq_error live)] at hrun
    exact absurd (congrArg Prod.fst hrun) (by simp)
  | some e =>
    rw [Edit.look_bind_ok _ t (liveEntry_eq_ok.mpr live)] at hrun
    rcases unlist_atomic t id e with ⟨x, hx⟩ | ⟨_, u, hu, hunlisted⟩
    · rw [Edit.bind_error _ hx] at hrun
      exact absurd (congrArg Prod.fst hrun) (by simp)
    · rw [Edit.bind_ok _ hu] at hrun
      have hfree : (freeWithin (u.slots.size + 1) id : Edit TreeError Unit).run u = (.ok (), t') :=
        (Edit.look_bind_ok _ u rfl).symm.trans hrun
      have hmoments := leads_freeMoments (ε := TreeError) (u.slots.size + 1) id u
      rw [hfree] at hmoments
      simp only [hu]
      exact .tick (.still ⟨Unlisted.free hunlisted, Unlisted.size_slots hunlisted⟩) hmoments

theorem sameSlots_pushChild (scope child : EntryId) (builtin : Bool) (t : Table) :
    t.SameSlots ((pushChild scope child builtin : Edit ε Unit).run t).2 := by
  unfold pushChild
  cases hc : (t.liveEntry child : Attempt ε Entry) with
  | error x =>
    rw [Edit.look_bind_error _ t hc]
    exact ⟨rfl, rfl⟩
  | ok c =>
    rw [Edit.look_bind_ok _ t hc]
    cases hs : (t.liveEntry scope : Attempt ε Entry) with
    | error x =>
      rw [Edit.look_bind_error _ t hs]
      exact ⟨rfl, rfl⟩
    | ok p =>
      rw [Edit.look_bind_ok _ t hs]
      cases p.scope? with
      | none => exact ⟨rfl, rfl⟩
      | some b => exact .update t scope _

theorem tick_copyChild (depth : Nat) (copy : EntryId) (builtin : Bool) (child : EntryId)
    (t : Table) : ((cloneWithin depth (some copy) child : Edit ε EntryId).run t).2.Tick
      ((copyChild depth copy builtin child : Edit ε Unit).run t).2 := by
  unfold copyChild
  rcases hclone : (cloneWithin depth (some copy) child : Edit ε EntryId).run t with ⟨outcome, u⟩
  cases outcome with
  | ok id =>
    rw [Edit.bind_ok _ hclone]
    exact .still (sameSlots_pushChild copy id builtin u)
  | error x =>
    rw [Edit.bind_error _ hclone]
    exact .refl u

/-- The entry itself is copied first, then its registered children, and then the builtin ones. -/
theorem run_cloneWithin_succ (live : t.get? id = some e) (depth : Nat) (owner : Option EntryId) :
    (cloneWithin (depth + 1) owner id : Edit ε EntryId).run t =
      (match e.scope? with
        | none => pure (t.alloc { e.bare with owner := owner }).1
        | some b => do
            b.entries.forM (copyChild depth (t.alloc { e.bare with owner := owner }).1 false)
            b.builtins.forM (copyChild depth (t.alloc { e.bare with owner := owner }).1 true)
            return (t.alloc { e.bare with owner := owner }).1 :
        Edit ε EntryId).run (t.alloc { e.bare with owner := owner }).2 := by
  rw [cloneWithin]
  exact (Edit.look_bind_ok _ t (liveEntry_eq_ok.mpr live)).trans (Edit.alloc_bind t _ _)

theorem leads_cloneMoments (depth : Nat) (owner : Option EntryId) (id : EntryId) (t : Table) :
    Leads t (cloneMoments ε depth owner id t)
      ((cloneWithin depth owner id : Edit ε EntryId).run t).2 := by
  induction depth generalizing owner id t with
  | zero => exact .stay t
  | succ depth ih =>
    have hrow (copy : EntryId) (builtin : Bool) (ids : List EntryId) (u : Table) :
        Leads u (rowMoments (copyChild depth copy builtin : EntryId → Edit ε Unit)
          (cloneMoments ε depth (some copy)) ids u)
          ((ids.forM (copyChild depth copy builtin) : Edit ε Unit).run u).2 :=
      leads_rowMoments
        (fun c t => ⟨_, ih (some copy) c t, tick_copyChild depth copy builtin c t⟩) ids u
    cases live : t.get? id with
    | none =>
      rw [cloneWithin, Edit.look_bind_error _ t (liveEntry_eq_error live)]
      simp only [cloneMoments, live]
      exact .stay t
    | some e =>
      rw [run_cloneWithin_succ live]
      simp only [cloneMoments, live]
      have halloc := Tick.alloc t { e.bare with owner := owner }
      generalize t.alloc { e.bare with owner := owner } = copied at halloc ⊢
      cases hb : e.scope? with
      | none => exact .of_tick halloc
      | some b =>
        have hentries := hrow copied.1 false b.entries copied.2
        rcases hrun : (b.entries.forM (copyChild depth copied.1 false) : Edit ε Unit).run
          copied.2 with ⟨outcome, v⟩
        rw [hrun] at hentries
        cases outcome with
        | error x =>
          -- the builtin children are not come to
          rw [Edit.bind_error _ hrun]
          simp only [hrun, List.append_nil]
          exact .tick halloc hentries
        | ok _ =>
          rw [Edit.bind_ok _ hrun]
          have hbuiltins := hrow copied.1 true b.builtins v
          rw [Edit.table_run_bind_pure]
          simp only [hrun]
          exact .tick halloc (hentries.append (.refl v) hbuiltins)

end Table
end Settings

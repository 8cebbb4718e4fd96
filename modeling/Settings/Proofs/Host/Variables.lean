import Settings.Proofs.Host.Texts
import Settings.Stock.Accessors

/-!
# Host variables that keep their types

The host fixes the type of a variable once, and every write is of that type. `Store.SameTypes` says
of two states of the variables that this is so. What was read from a variable in one state can then
be put back in any other, and putting it back disturbs no variable that has its value back already,
even if it is the same one.

The setter of an accessor may do to the host variables whatever it likes, except that it keeps their
types as well (`Accessor.KeepsTypes`).
-/

set_option autoImplicit false

namespace Settings

namespace Store

variable {s s' s'' : Store} {t u : HostType} {id other : VariableId}

theorem value?_write (s : Store) (t : HostType) (id other : VariableId) (x : t.Carrier) :
    (s.write t id x).value? other =
      if other = id then (s.value? id).map fun v => if v.type = t then ⟨t, x⟩ else v
      else s.value? other := by
  unfold value? write
  by_cases ho : other = id
  · subst ho
    rw [if_pos rfl, Array.getElem?_modify, if_pos rfl]
    cases s.vars[other.index]? with
    | none => rfl
    | some v =>
      simp only [Option.map_some]
      split <;> rfl
  · have hi : id.index ≠ other.index := fun hi => ho (VariableId.eq_of_index hi.symm)
    rw [if_neg ho, Array.getElem?_modify, if_neg hi]

/-- What is read depends on the value alone. -/
theorem read_congr (h : s.value? id = s'.value? id) (t : HostType) :
    s.read t id = s'.read t id := by
  unfold value? at h
  unfold read
  cases hv : s.vars[id.index]? with
  | none => cases hv' : s'.vars[id.index]? <;> simp_all
  | some v =>
    cases hv' : s'.vars[id.index]? with
    | none => simp_all
    | some v' =>
      obtain ⟨value, log⟩ := v
      obtain ⟨value', log'⟩ := v'
      obtain rfl : value = value' := by simpa [hv, hv'] using h
      rfl

theorem read_of_type_ne (h : (s.value? id).map HostValue.type ≠ some t) :
    s.read t id = t.blank := by
  unfold value? at h
  unfold read
  cases hv : s.vars[id.index]? with
  | none => rfl
  | some v =>
    have hne : v.value.type ≠ t := by simpa [hv] using h
    simp [hne]

/-! ## Types -/

/-- There are the same variables, of the same types. -/
def SameTypes (s s' : Store) : Prop :=
  ∀ id, (s'.value? id).map HostValue.type = (s.value? id).map HostValue.type

theorem SameTypes.refl (s : Store) : s.SameTypes s := fun _ => rfl

theorem SameTypes.trans (h : s.SameTypes s') (h' : s'.SameTypes s'') : s.SameTypes s'' :=
  fun id => (h' id).trans (h id)

theorem sameTypes_write (s : Store) (t : HostType) (id : VariableId) (x : t.Carrier) :
    s.SameTypes (s.write t id x) := by
  intro other
  rw [value?_write]
  by_cases ho : other = id
  · rw [if_pos ho, ho]
    cases s.value? id with
    | none => rfl
    | some v =>
      simp only [Option.map_some]
      split
      · rename_i ht
        rw [ht]
      · rfl
  · rw [if_neg ho]

/-! ## Putting values back -/

/-- Writing what is read changes nothing, also where no variable of the type is there. -/
theorem write_read (s : Store) (t : HostType) (id : VariableId) :
    s.write t id (s.read t id) = s := by
  refine congrArg Store.mk (Array.ext_getElem? fun i => ?_)
  rw [Array.getElem?_modify]
  by_cases hi : id.index = i
  · subst hi
    cases hv : s.vars[id.index]? with
    | none => simp
    | some v =>
      obtain ⟨⟨u, x⟩, log⟩ := v
      by_cases hu : u = t
      · subst hu
        simp [read, hv]
      · simp [hu]
  · rw [if_neg hi]

/-- A variable that gets its value back has it. -/
theorem read_putBack (h : s.SameTypes s') (t : HostType) (id : VariableId) :
    (s'.write t id (s.read t id)).read t id = s.read t id := by
  by_cases ht : (s'.value? id).map HostValue.type = some t
  · exact read_write_same s' t id _ ht
  · -- neither state has such a variable of the type
    have hs : (s.value? id).map HostValue.type ≠ some t := by rwa [← h id]
    rw [read_of_type_ne hs, read_of_type_ne]
    rwa [sameTypes_write s' t id _ id]

/-- A variable that has its value back keeps it when another one, or the same, is put back. -/
theorem read_putBack_of_back (h : s.SameTypes s') (t : HostType) (id : VariableId)
    (back : s'.read u other = s.read u other) :
    (s'.write t id (s.read t id)).read u other = s.read u other := by
  by_cases ho : other = id
  · subst ho
    by_cases hu : u = t
    · subst hu
      exact read_putBack h u other
    · by_cases ht : (s'.value? other).map HostValue.type = some t
      · -- the variable is of the other type
        have hne : (s'.value? other).map HostValue.type ≠ some u := by
          rw [ht]
          simpa using fun heq : t = u => hu heq.symm
        rw [← back, read_of_type_ne hne, read_of_type_ne]
        rwa [sameTypes_write s' t other _ other]
      · -- there is nothing to write to
        have hsame : (s'.write t other (s.read t other)).value? other = s'.value? other := by
          rw [value?_write, if_pos rfl]
          cases hv : s'.value? other with
          | none => rfl
          | some v =>
            have hne : v.type ≠ t := by simpa [hv] using ht
            simp [hne]
        rw [read_congr hsame, back]
  · rw [read_write_other s' t u id other _ ho, back]

end Store

/-- The setter leaves the types of the host variables as they are. -/
def Accessor.KeepsTypes (a : Accessor) : Prop :=
  ∀ (x : a.type.Carrier) (s : Store), s.SameTypes (a.set x s)

theorem Accessor.keepsTypes_percent (v : VariableId) : (Accessor.percent v).KeepsTypes :=
  fun _ s => s.sameTypes_write .double v _

theorem Target.sameTypes_write {target : Target}
    (h : ∀ a, target = .accessor a → a.KeepsTypes) (v : target.type.Carrier) (s : Store) :
    s.SameTypes (target.write v s) := by
  cases target with
  | var t id => exact s.sameTypes_write t id v
  | accessor a => exact h a rfl v s

end Settings

import Settings.Proofs.Host.Variables
import Settings.Entry

/-!
# The host variables that a link uses

A link to a variable uses that variable. What a getter and a setter use is not written anywhere, so
it is stated: `Target.Within V` says that reading depends on no variable outside of `V`, and that
writing changes none. Two links within sets that have no variable in common do not see each other.
-/

set_option autoImplicit false

namespace Settings

namespace Store

/-- The variables of the set are the same, with what was recorded for them. -/
def SameOn (V : VariableId → Prop) (s s' : Store) : Prop :=
  ∀ v, V v → s'.vars[v.index]? = s.vars[v.index]?

variable {V : VariableId → Prop} {s s' s'' : Store}

theorem SameOn.refl (V : VariableId → Prop) (s : Store) : SameOn V s s := fun _ _ => rfl

theorem SameOn.symm (h : SameOn V s s') : SameOn V s' s := fun v hv => (h v hv).symm

theorem SameOn.trans (h : SameOn V s s') (h' : SameOn V s' s'') : SameOn V s s'' :=
  fun v hv => (h' v hv).trans (h v hv)

theorem SameOn.read (h : SameOn V s s') {v : VariableId} (hv : V v) (t : HostType) :
    s'.read t v = s.read t v := by
  apply read_congr
  unfold value?
  rw [h v hv]

theorem vars_write (s : Store) (t : HostType) (id v : VariableId) (x : t.Carrier) :
    (s.write t id x).vars[v.index]? = if v = id then (s.vars[v.index]?).map fun w =>
        if w.value.type = t then { w with value := ⟨t, x⟩ } else w
      else s.vars[v.index]? := by
  unfold write
  rw [Array.getElem?_modify]
  by_cases hv : v = id
  · rw [if_pos hv, hv, if_pos rfl]
  · rw [if_neg hv, if_neg fun hi => hv (VariableId.eq_of_index hi.symm)]

theorem sameOn_write (s : Store) (t : HostType) {id : VariableId} (x : t.Carrier) (hid : ¬ V id) :
    SameOn V s (s.write t id x) := by
  intro v hv
  rw [vars_write, if_neg]
  rintro rfl
  exact hid hv

end Store

/-- Reading depends on the variables of the set only, and writing changes no others. -/
structure Target.Within (V : VariableId → Prop) (target : Target) : Prop where
  read : ∀ s s', Store.SameOn V s s' → target.read s' = target.read s
  others : ∀ x s, Store.SameOn (fun v => ¬ V v) s (target.write x s)

theorem Target.within_var {V : VariableId → Prop} (t : HostType) {id : VariableId} (hid : V id) :
    (Target.var t id).Within V where
  read := fun _ _ h => h.read hid t
  others := fun x s => s.sameOn_write t x (not_not_intro hid)

theorem Target.Within.mono {V W : VariableId → Prop} {target : Target} (h : target.Within V)
    (hsub : ∀ v, V v → W v) : target.Within W where
  read := fun s s' hs => h.read s s' fun v hv => hs v (hsub v hv)
  others := fun x s v hv => h.others x s v fun hin => hv (hsub v hin)

/-- A link, if the storage is one, leads to a variable of the list. -/
def Storage.linksTo (vs : List VariableId) : Storage → Bool
  | .linked (.var _ v) => v ∈ vs
  | .linked (.accessor _) => false
  | .number _ | .text _ | .function _ | .scope _ => true

theorem Storage.within_of_linksTo {vs : List VariableId} {storage : Storage}
    (h : storage.linksTo vs = true) {target : Target} (hlink : storage = .linked target) :
    target.Within fun v => v ∈ vs := by
  subst hlink
  cases target with
  | var t v => exact Target.within_var t (of_decide_eq_true h)
  | accessor a => exact absurd h (by simp [linksTo])

namespace Entry

variable {e : Entry} {s s' : Store}

/-- What is read of an entry is the same if what is read through its link is. -/
theorem readText_congr (h : ∀ target, e.storage = .linked target → target.read s' = target.read s) :
    e.readText s' = e.readText s := by
  unfold readText
  cases hs : e.storage with
  | linked target =>
    simp only
    unfold Target.toText
    rw [h target hs]
  | number x => rfl
  | text text => rfl
  | function f => rfl
  | scope b => rfl

theorem serialized_congr
    (h : ∀ target, e.storage = .linked target → target.read s' = target.read s) :
    e.serialized s' = e.serialized s := by
  unfold serialized
  rw [readText_congr h]

end Entry

end Settings

import Settings.Proofs.Host.Footprints
import Settings.Proofs.Table.Shapes

/-!
# Local work on host variables

What is local to a set of host variables reads and writes variables of the set only, and what it
writes there depends on nothing else. `Target.Within` says the first of a link; `Target.Local` adds
the second, without which a write could carry a value over from elsewhere. The same is said of a
write to an entry (`Entry.LocalStep`), whose value may be its own or that of a host variable, and of
a host function on values (`LocalFunction`).

In two states of the host that agree on the set, local work has the same outcome and leads to states
that agree on the set again. Outside of the set it changes nothing.
-/

set_option autoImplicit false

namespace Settings

namespace Store

/-- What is found out depends on the variables of the set only. -/
def DependsOn {α : Type} (V : VariableId → Prop) (f : Store → α) : Prop :=
  ∀ s s', SameOn V s s' → f s' = f s

variable {V W : VariableId → Prop} {s s' : Store}

theorem SameOn.mono (h : SameOn W s s') (hsub : ∀ v, V v → W v) : SameOn V s s' :=
  fun v hv => h v (hsub v hv)

theorem SameOn.write (h : SameOn V s s') (t : HostType) (id : VariableId) (x : t.Carrier) :
    SameOn V (s.write t id x) (s'.write t id x) := by
  intro v hv
  rw [vars_write, vars_write, h v hv]

end Store

/-! ## Links -/

/-- The link reads and writes variables of the set only, and what it leaves in them depends on
nothing else. -/
structure Target.Local (V : VariableId → Prop) (target : Target) : Prop extends
    target.Within V where
  own : ∀ x s s', Store.SameOn V s s' → Store.SameOn V (target.write x s) (target.write x s')

theorem Target.local_var {V : VariableId → Prop} (t : HostType) {id : VariableId} (hid : V id) :
    (Target.var t id).Local V where
  toWithin := within_var t hid
  own := fun x _ _ h => h.write t id x

/-! ## Writes to an entry -/

namespace Entry

variable {ρ σ : Type} {V : VariableId → Prop} {e source : Entry}

/-- A write to the entry that keeps its shape and is local to the set otherwise: the reply, the
value of the entry's own and what is left in the variables of the set depend on these alone. -/
structure LocalStep (V : VariableId → Prop) (e : Entry) (g : Store → ρ × Entry × Store) :
    Prop where
  shape : ∀ s, (g s).2.1.shape = e.shape
  reply : Store.DependsOn V fun s => (g s).1
  entry : Store.DependsOn V fun s => (g s).2.1
  own : ∀ s s', Store.SameOn V s s' → Store.SameOn V (g s).2.2 (g s').2.2
  others : ∀ s, Store.SameOn (fun v => ¬ V v) s (g s).2.2

/-- Nothing but the entry's own value is changed. -/
theorem LocalStep.ownValue (r : ρ) (e' : Entry) (h : e'.shape = e.shape) :
    e.LocalStep V fun s => (r, e', s) where
  shape := fun _ => h
  reply := fun _ _ _ => rfl
  entry := fun _ _ _ => rfl
  own := fun _ _ hs => hs
  others := fun s => .refl _ s

theorem LocalStep.through (r : ρ) {target : Target} (h : target.Local V)
    (x : target.type.Carrier) : e.LocalStep V fun s => (r, e, target.write x s) where
  shape := fun _ => rfl
  reply := fun _ _ _ => rfl
  entry := fun _ _ _ => rfl
  own := h.own x
  others := h.others x

/-- What is done may depend on the variables of the set. -/
theorem LocalStep.reading {α : Type} {f : Store → α} (hf : Store.DependsOn V f)
    {g : α → Store → ρ × Entry × Store} (hg : ∀ a, e.LocalStep V (g a)) :
    e.LocalStep V fun s => g (f s) s where
  shape := fun s => (hg (f s)).shape s
  reply := by
    intro s s' hs
    show (g (f s') s').1 = (g (f s) s).1
    rw [hf s s' hs]
    exact (hg (f s)).reply s s' hs
  entry := by
    intro s s' hs
    show (g (f s') s').2.1 = (g (f s) s).2.1
    rw [hf s s' hs]
    exact (hg (f s)).entry s s' hs
  own := by
    intro s s' hs
    rw [hf s s' hs]
    exact (hg (f s)).own s s' hs
  others := fun s => (hg (f s)).others s

theorem LocalStep.map {g : Store → ρ × Entry × Store} (h : e.LocalStep V g) (k : ρ → σ) :
    e.LocalStep V fun s => (k (g s).1, (g s).2) where
  shape := h.shape
  reply := fun s s' hs => congrArg k (h.reply s s' hs)
  entry := h.entry
  own := h.own
  others := h.others

/-- A link of the entry is local to the set, if it has one. -/
def LinkedWithin (V : VariableId → Prop) (e : Entry) : Prop :=
  ∀ target, e.storage = .linked target → target.Local V

theorem localStep_writeNumber (h : e.LinkedWithin V) (x : Double) :
    e.LocalStep V (e.writeNumber x) := by
  unfold writeNumber
  cases hs : e.storage with
  | linked target => exact .through (Except.ok ()) (h target hs) (target.type.ofNumber x)
  | number y => exact .ownValue (Except.ok ()) _ (by simp [Entry.shape, Storage.shape, hs])
  | text t => exact .ownValue (Except.ok ()) _ (by simp [Entry.shape, Storage.shape, hs])
  | function f => exact .ownValue _ e rfl
  | scope b => exact .ownValue _ e rfl

theorem localStep_writeText (h : e.LinkedWithin V) (text : String) :
    e.LocalStep V (e.writeText text) := by
  unfold writeText
  cases hs : e.storage with
  | linked target =>
    simp only [Target.setText]
    cases target.type.ofText text with
    | ok v => exact .through (Except.ok ()) (h target hs) v
    | error x => exact .ownValue (Except.error x) e rfl
  | number y =>
    simp only
    cases parseNumber text with
    | ok x => exact .ownValue (Except.ok ()) _ (by simp [Entry.shape, Storage.shape, hs])
    | error x => exact .ownValue (Except.error x) e rfl
  | text t => exact .ownValue (Except.ok ()) _ (by simp [Entry.shape, Storage.shape, hs])
  | function f => exact .ownValue _ e rfl
  | scope b => exact .ownValue _ e rfl

theorem localStep_assign (h : e.LinkedWithin V) (value : Scalar) :
    e.LocalStep V (e.assign value) := by
  unfold assign
  cases e.isNumeric? with
  | none => exact .ownValue false e rfl
  | some numeric =>
    cases numeric with
    | true =>
      simp only
      cases value.toNumber with
      | ok x => exact (localStep_writeNumber h x).map Except.toBool
      | error x => exact .ownValue false e rfl
    | false => exact (localStep_writeText h value.toText).map Except.toBool

theorem dependsOn_snapshot (h : source.LinkedWithin V) : Store.DependsOn V source.snapshot := by
  intro s s' hs
  unfold snapshot
  cases hstorage : source.storage with
  | linked target =>
    simp only [Target.toText, Target.toNumber, (h target hstorage).read s s' hs]
  | number x => rfl
  | text t => rfl
  | function f => rfl
  | scope b => rfl

theorem localStep_copyFrom (hsource : source.LinkedWithin V) (h : e.LinkedWithin V) :
    e.LocalStep V (source.copyFrom e) := by
  have hcopy : source.copyFrom e = fun s =>
      (source.snapshot s).elim (false, e, s) fun value => e.assign value s := by
    funext s
    unfold copyFrom
    cases source.snapshot s <;> rfl
  rw [hcopy]
  refine .reading (dependsOn_snapshot hsource)
    (g := fun value s => value.elim (false, e, s) fun value => e.assign value s) ?_
  intro value
  cases value with
  | none => exact .ownValue false e rfl
  | some value => exact localStep_assign h value

theorem LinkedWithin.readText (h : e.LinkedWithin V) : Store.DependsOn V e.readText :=
  fun s s' hs => readText_congr fun target hlink => (h target hlink).read s s' hs

theorem LinkedWithin.serialized (h : e.LinkedWithin V) : Store.DependsOn V e.serialized :=
  fun s s' hs => serialized_congr fun target hlink => (h target hlink).read s s' hs

theorem LinkedWithin.recordDefault (h : e.LinkedWithin V) : Store.DependsOn V e.recordDefault := by
  intro s s' hs
  unfold Entry.recordDefault
  rw [h.readText s s' hs]

end Entry

/-! ## Host functions on values -/

/-- One and the same handle in place of any handle. -/
def Param.blank : (p : Param) → p.Carrier → p.Carrier
  | .value _, v => v
  | .entry, _ => (⟨0⟩ : EntryId)

def Args.blank : (ps : List Param) → Args ps → Args ps
  | [], () => ()
  | p :: ps, (v, vs) => (p.blank v, blank ps vs)

/-- The host function works on variables of the set only, and does not tell the handles that it is
given. -/
structure LocalFunction {ρ : Type} (V : VariableId → Prop) {ps : List Param}
    (f : Args ps → StateM Store ρ) : Prop where
  reply : ∀ vs, Store.DependsOn V fun s => (f vs s).1
  own : ∀ vs s s', Store.SameOn V s s' → Store.SameOn V (f vs s).2 (f vs s').2
  others : ∀ vs s, Store.SameOn (fun v => ¬ V v) s (f vs s).2
  blind : ∀ vs, f vs = f (Args.blank ps vs)

/-! ## Fields of an object -/

namespace Object

variable (o : Object) (field : Nat) (t : HostType)

theorem dependsOn_read : Store.DependsOn (· ∈ o.fields) (o.read field t) := by
  intro s s' hs
  unfold read
  cases hv : o.fields[field]? with
  | none => rfl
  | some v => exact hs.read (List.mem_of_getElem? hv) t

theorem sameOn_write {s s' : Store} (h : Store.SameOn (· ∈ o.fields) s s') (x : t.Carrier) :
    Store.SameOn (· ∈ o.fields) (o.write field t x s) (o.write field t x s') := by
  unfold write
  cases o.fields[field]? with
  | none => exact h
  | some v => exact h.write t v x

theorem others_write (x : t.Carrier) (s : Store) :
    Store.SameOn (fun v => ¬ v ∈ o.fields) s (o.write field t x s) := by
  unfold write
  cases hv : o.fields[field]? with
  | none => exact .refl _ s
  | some v => exact s.sameOn_write t x (not_not_intro (List.mem_of_getElem? hv))

/-- A function that puts a new value in a field, by its arguments and the value before, is local to
the fields. -/
theorem localFunction_update {ρ : Type} {ps : List Param}
    (reply : Args ps → t.Carrier → ρ) (next : Args ps → t.Carrier → t.Carrier)
    (blind : ∀ vs, reply vs = reply (Args.blank ps vs) ∧ next vs = next (Args.blank ps vs)) :
    LocalFunction (· ∈ o.fields) fun vs s =>
      (reply vs (o.read field t s), o.write field t (next vs (o.read field t s)) s) where
  reply := fun vs s s' hs => congrArg (reply vs) (o.dependsOn_read field t s s' hs)
  own := by
    intro vs s s' hs
    show Store.SameOn _ _ (o.write field t (next vs (o.read field t s')) s')
    rw [o.dependsOn_read field t s s' hs]
    exact o.sameOn_write field t hs _
  others := fun vs s => o.others_write field t _ s
  blind := by
    intro vs
    funext s
    rw [(blind vs).1, (blind vs).2]

end Object

end Settings

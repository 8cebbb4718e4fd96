import Settings.Host.Type

/-!
# Host variables

The variables of the host live outside the table of settings: an entry linked to one holds only the
variable's number, so that two entries, or an entry and the host itself, share one value.

Besides its value a variable keeps a log, the texts of the values written to it through accessors
that record what they are given.

An `Accessor` stands in for a variable where the setting is derived from other state: reading
computes it from the store, and writing passes the new value to a setter. `Target` is either.
-/

set_option autoImplicit false

namespace Settings

structure Variable where
  value : HostValue
  log : List String

/-- All host variables. Variables are never taken away. -/
structure Store where
  vars : Array Variable

namespace Store

def empty : Store := ⟨#[]⟩

def add (s : Store) (value : HostValue) : VariableId × Store :=
  (⟨s.vars.size⟩, ⟨s.vars.push ⟨value, []⟩⟩)

def addAll (s : Store) : List HostValue → List VariableId × Store
  | [] => ([], s)
  | v :: vs =>
      let (id, s) := s.add v
      let (ids, s) := s.addAll vs
      (id :: ids, s)

def value? (s : Store) (id : VariableId) : Option HostValue :=
  (s.vars[id.index]?).map Variable.value

/-- The value of a variable of a known type; the blank value where there is no such variable. -/
def read (s : Store) (t : HostType) (id : VariableId) : t.Carrier :=
  match s.vars[id.index]? with
  | some v => if h : v.value.type = t then h ▸ v.value.value else t.blank
  | none => t.blank

/-- Sets a variable of the type. A variable of another type stays as it is, so that the type of a
variable never changes. -/
def write (s : Store) (t : HostType) (id : VariableId) (value : t.Carrier) : Store :=
  ⟨s.vars.modify id.index fun v =>
    if v.value.type = t then { v with value := ⟨t, value⟩ } else v⟩

/-- What was recorded for a variable, oldest first. -/
def log (s : Store) (id : VariableId) : List String :=
  (s.vars[id.index]?).elim [] Variable.log

def record (s : Store) (id : VariableId) (text : String) : Store :=
  ⟨s.vars.modify id.index fun v => { v with log := v.log ++ [text] }⟩

theorem read_write_same (s : Store) (t : HostType) (id : VariableId) (x : t.Carrier)
    (h : (s.value? id).map HostValue.type = some t) : (s.write t id x).read t id = x := by
  unfold value? at h
  cases hv : s.vars[id.index]? with
  | none =>
    rw [hv] at h
    exact absurd h (by simp)
  | some v =>
    rw [hv] at h
    have ht : v.value.type = t := by simpa using h
    simp [read, write, Array.getElem?_modify, hv, ht]

theorem read_write_other (s : Store) (t u : HostType) (id other : VariableId) (x : t.Carrier)
    (h : other ≠ id) : (s.write t id x).read u other = s.read u other := by
  have hi : id.index ≠ other.index := fun hi => h (VariableId.eq_of_index hi.symm)
  simp [read, write, Array.getElem?_modify, hi]

end Store

/-- A getter and a setter in place of a variable of the type. -/
structure Accessor where
  type : HostType
  get : Store → type.Carrier
  set : type.Carrier → Store → Store

/-- What a linked entry reads and writes. -/
inductive Target where
  | var (type : HostType) (id : VariableId)
  | accessor (accessor : Accessor)

namespace Target

def type : Target → HostType
  | var t _ => t
  | accessor a => a.type

def read : (target : Target) → Store → target.type.Carrier
  | var t id, s => s.read t id
  | accessor a, s => a.get s

def write : (target : Target) → target.type.Carrier → Store → Store
  | var t id, v, s => s.write t id v
  | accessor a, v, s => a.set v s

def kind (target : Target) : ValueKind := target.type.kind

def toNumber (target : Target) (s : Store) : Except EntryError Double :=
  target.type.toNumber (target.read s)

def toText (target : Target) (s : Store) : String :=
  target.type.toText (target.read s)

def setNumber (target : Target) (x : Double) (s : Store) : Store :=
  target.write (target.type.ofNumber x) s

/-- Writes the value that a text spells; text that spells none is refused. -/
def setText (target : Target) (text : String) (s : Store) : Except EntryError Unit × Store :=
  match target.type.ofText text with
  | .ok v => (.ok (), target.write v s)
  | .error e => (.error e, s)

end Target

end Settings

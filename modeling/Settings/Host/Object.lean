import Settings.Host.Store

/-!
# Host objects

An object of the host is an identity, a type and a row of host variables that hold its state. The
variables are the object's own when it is made; linking settings to them is how an object exposes
its state to scripts.
-/

set_option autoImplicit false

namespace Settings

/-- The identity of a host type. Two types are the same when their names are. -/
structure TypeTag where
  name : String
  deriving DecidableEq

structure Object where
  id : ObjectId
  tag : TypeTag
  fields : List VariableId
  deriving DecidableEq

namespace Object

/-- The value of a field, blank where the object has no such field. -/
def read (o : Object) (field : Nat) (t : HostType) (s : Store) : t.Carrier :=
  match o.fields[field]? with
  | some v => s.read t v
  | none => t.blank

/-- Sets a field, if the object has it. -/
def write (o : Object) (field : Nat) (t : HostType) (value : t.Carrier) (s : Store) : Store :=
  match o.fields[field]? with
  | some v => s.write t v value
  | none => s

end Object

end Settings

import Settings.Binding.Member

/-!
# The catalogue of object types

A host lists the types of object that scripts may configure: how a new object looks, which settings
it registers in the scope it is given, and which members it has. An instance is an object with a
scope of its own that holds those settings and, as builtins, those members.

Making an instance is all or nothing: if a setting or a member cannot be registered, the new scope
is removed again with what it holds.
-/

set_option autoImplicit false

namespace Settings

/-! ## Settings of an object -/

/-- Where a setting goes: into the scope of the object, or into what an earlier step registered. -/
inductive Place where
  | top
  | within (step : Nat)

inductive Registration where
  | content (content : Content)
  | function (function : Function) (builtin : Bool)

/-- One registration of a set-up, with the changes then made to the header of the entry. -/
structure SetupStep where
  place : Place
  name : String
  description : String
  registration : Registration
  changes : List HeaderEdit

/-- A type of object: the variables of a new object and the settings it registers. -/
structure ObjectType where
  tag : TypeTag
  initial : List HostValue
  setup : Object → List SetupStep

/-! ## The catalogue -/

/-- A registered type. Its members carry descriptions for the authors of scripts. -/
structure TypeInfo where
  name : String
  description : String
  type : ObjectType
  members : List (Member × String)

structure Catalogue where
  types : List TypeInfo

namespace Catalogue

def empty : Catalogue := ⟨[]⟩

def find? (c : Catalogue) (name : String) : Option TypeInfo :=
  c.types.find? fun info => info.name = name

def contains (c : Catalogue) (name : String) : Bool := (c.find? name).isSome

/-- The names of the types in order of their characters. -/
def names (c : Catalogue) : List String := (c.types.map TypeInfo.name).mergeSort (· ≤ ·)

def register (c : Catalogue) (name description : String) (type : ObjectType) :
    Except BindError Catalogue :=
  if c.contains name then .error (.duplicateType name)
  else .ok ⟨c.types ++ [⟨name, description, type, []⟩]⟩

def addMember (c : Catalogue) (type name : String) (m : Method) (description : String) :
    Except BindError Catalogue := do
  match c.find? type with
  | none => throw (.unknownType type)
  | some info =>
      if info.members.any fun x => x.1.name = name then throw (.duplicateMember type name)
      let member ← Member.bind info.type.tag name m
      let extended := { info with members := info.members ++ [(member, description)] }
      return ⟨c.types.map fun x => if x.name = type then extended else x⟩

end Catalogue

/-! ## Objects and instances -/

/-- An object with the scope of its settings. -/
structure Instance where
  object : Object
  scope : EntryId

namespace Session

/-- A new object of a type, with variables of its own. -/
def newObject {ε : Type} (type : ObjectType) : Action ε Object :=
  .ofFunction fun s =>
    let (fields, store) := s.store.addAll type.initial
    (.ok ⟨⟨s.objectCount⟩, type.tag, fields⟩,
      { s with store := store, objectCount := s.objectCount + 1 })

def editAll {ε : Type} (id : EntryId) : List HeaderEdit → Action ε Unit
  | [] => return ()
  | change :: changes => do
      ask (.edit id change)
      editAll id changes

def registerStep (scope : EntryId) (step : SetupStep) : Action TreeError EntryId := do
  let id ← match step.registration with
    | .content content => register scope step.name step.description content
    | .function f builtin => define scope step.name f step.description builtin
  editAll id step.changes
  return id

/-- Takes the steps of a set-up in order, up to the first that fails. The handles of the steps
taken so far are at hand for those that follow. -/
def setUp (scope : EntryId) (done : List EntryId) : List SetupStep → Action TreeError Unit
  | [] => return ()
  | step :: steps => do
      let owner := match step.place with
        | .top => scope
        | .within n => done.getD n scope
      let id ← registerStep owner step
      setUp scope (done ++ [id]) steps

/-- Registers members of an object as builtins of a scope. -/
def defineMembers (scope : EntryId) (o : Object) : List (Member × String) → Action TreeError Unit
  | [] => return ()
  | (m, description) :: members => do
      discard (define scope m.name (m.onObject o) description true)
      defineMembers scope o members

/-- Makes an instance of a type under a scope. If that fails, nothing of it is left in the
table. -/
def instantiate (c : Catalogue) (type : String) (parent : EntryId) (name description : String) :
    Action BindError Instance := do
  match c.find? type with
  | none => .fail (.unknownType type)
  | some info =>
      let object ← newObject info.type
      let scope ← (register parent name description (.scope info.name)).mapError .tree
      let populate : Action TreeError Unit := do
        setUp scope [] (info.type.setup object)
        defineMembers scope object info.members
      match ← populate.settle with
      | .ok () => return ⟨object, scope⟩
      | .error e =>
          discard (ask (.remove scope))
          .fail (.tree e)

/-- Makes an object of a type without a place in the table. -/
def make (c : Catalogue) (type : String) : Action BindError Object := do
  match c.find? type with
  | none => .fail (.unknownType type)
  | some info => newObject info.type

end Session

end Settings

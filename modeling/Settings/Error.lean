import Settings.Handle
import Settings.Host.Integer
import Settings.Kind

/-!
# Errors and faults

Everything that can be refused is refused for a stated cause, and the wording of each cause is
given once, here. There are five families, by who has to act on them:

* `EntryError`: a value cannot be read or written in the form asked for.
* `TreeError`: a registration or an edit of the scope tree would break one of its rules.
* `CallError`: a call made by a script fails.
* `BindError`: a host sets up its types and members wrongly.
* `ScriptError`: a path, an assignment or a call in script text fails.

A `Fault` is not an error but a broken promise of the host: a handle used after its entry was
freed, or a member run on an object of another type. A fault abandons what is being done, at
whatever depth, and is not reported to the error channel. `Failure` is one or the other.
-/

set_option autoImplicit false

namespace Settings

inductive Expected where
  | number
  | integer (type : IntType)
  | bool
  | string
  | entry
  deriving DecidableEq

def Expected.name : Expected → String
  | .number => "number"
  | .integer t => t.name
  | .bool => "bool"
  | .string => "string"
  | .entry => "entry"

inductive Access where
  | numericRead
  | stringRead
  | numericWrite
  | stringWrite
  deriving DecidableEq

def Access.name : Access → String
  | .numericRead => "numeric read"
  | .stringRead => "string read"
  | .numericWrite => "numeric write"
  | .stringWrite => "string write"

/-! ## Values -/

inductive EntryError where
  /-- Scopes and functions have no value. -/
  | unsupported (name : String) (kind : ValueKind) (access : Access)
  /-- The text does not spell such a value. -/
  | unreadable (text : String) (expected : Expected)
  /-- The number has no whole part in the type's range. -/
  | outOfRange (text : String) (type : IntType)
  deriving DecidableEq

def EntryError.message : EntryError → String
  | .unsupported name kind access =>
      "entry '" ++ name ++ "' (" ++ kind.name ++ ") does not support " ++ access.name
  | .unreadable text expected => "cannot read '" ++ text ++ "' as " ++ expected.name
  | .outOfRange text type => text ++ " is out of range for " ++ type.name

/-! ## The scope tree -/

inductive TreeError where
  | duplicateName (name scope : String)
  | notAScope (name : String)
  | notTemporary (name : String)
  | alreadyAttached (name : String)
  /-- The destination lies inside what is to be placed there. -/
  | wouldCycle (name : String)
  | rootScope
  /-- Only temporaries are without a name. -/
  | emptyName
  deriving DecidableEq

def TreeError.message : TreeError → String
  | .duplicateName name scope => "'" ++ name ++ "' is already defined in scope '" ++ scope ++ "'"
  | .notAScope name => "entry '" ++ name ++ "' is not a scope"
  | .notTemporary name => "entry '" ++ name ++ "' is not a temporary"
  | .alreadyAttached name => "entry '" ++ name ++ "' already belongs to a scope"
  | .wouldCycle name => "cannot place scope '" ++ name ++ "' inside itself"
  | .rootScope => "the root scope cannot be moved or removed"
  | .emptyName => "registered entries need a name"

/-! ## Calls -/

inductive CallError where
  | arityMismatch (name : String) (expected received : Nat)
  /-- The argument at a position, counted from one, cannot be converted. -/
  | argumentType (name : String) (position : Nat) (expected : Expected) (source : EntryError)
  | notCallable (name : String)
  /-- The member's object is the receiver of a call that is still running. -/
  | reentrant (name : String)
  deriving DecidableEq

def CallError.message : CallError → String
  | .arityMismatch name expected received =>
      "call to '" ++ name ++ "' has wrong number of arguments: expected " ++ natText expected
        ++ ", received " ++ natText received
  | .argumentType name position expected source =>
      "call to '" ++ name ++ "': argument " ++ natText position ++ " is not a valid "
        ++ expected.name ++ ": " ++ source.message
  | .notCallable name => "'" ++ name ++ "' is not a function"
  | .reentrant name => "call to '" ++ name ++ "' re-entered an object that is already in use"

def CallError.functionName : CallError → String
  | .arityMismatch name _ _ => name
  | .argumentType name _ _ _ => name
  | .notCallable name => name
  | .reentrant name => name

/-! ## Setting up -/

inductive BindError where
  /-- The member is written for objects of the type `found`. -/
  | receiverMismatch (function expected found : String)
  | unknownType (name : String)
  | duplicateType (name : String)
  | duplicateMember (type function : String)
  | tree (source : TreeError)
  deriving DecidableEq

def BindError.message : BindError → String
  | .receiverMismatch function expected found =>
      "member function '" ++ function ++ "' takes a " ++ found ++ " receiver but was bound to "
        ++ expected
  | .unknownType name => "unknown type '" ++ name ++ "'"
  | .duplicateType name => "type '" ++ name ++ "' is already registered"
  | .duplicateMember type function =>
      "type '" ++ type ++ "' already has a member function '" ++ function ++ "'"
  | .tree source => source.message

/-! ## Scripts -/

inductive ScriptError where
  | unknownEntry (path : String)
  | notAFunction (path : String)
  | notAssignable (path : String)
  | malformedAssignment (text : String)
  | call (source : CallError)
  | entry (source : EntryError)
  deriving DecidableEq

def ScriptError.message : ScriptError → String
  | .unknownEntry path => "no entry named '" ++ path ++ "'"
  | .notAFunction path => "'" ++ path ++ "' is not a function"
  | .notAssignable path => "'" ++ path ++ "' holds no value and cannot be assigned"
  | .malformedAssignment text => "expected \x60path=value\x60, found '" ++ text ++ "'"
  | .call source => source.message
  | .entry source => source.message

/-! ## Faults -/

inductive Fault where
  /-- A handle was used after its entry was freed. -/
  | staleHandle (id : EntryId)
  /-- A member was run on an object of another type. -/
  | wrongReceiver (function : String)
  /-- The children or owners of an entry lead back to it. No edit makes such a tree. -/
  | cyclicTree
  /-- Calls are nested deeper than the limit. -/
  | callDepth
  deriving DecidableEq

def Fault.message : Fault → String
  | .staleHandle id => "internal error: stale entry handle " ++ id.inspect
  | .wrongReceiver function =>
      "internal error: member function '" ++ function ++ "' called on wrong object type"
  | .cyclicTree => "internal error: cyclic scope tree"
  | .callDepth => "internal error: calls nested too deeply"

/-- Why something was not done: a fault, or an error of the family at hand. -/
inductive Failure (ε : Type) where
  | fault (fault : Fault)
  | error (error : ε)
  deriving DecidableEq

def Failure.mapError {ε δ : Type} (g : ε → δ) : Failure ε → Failure δ
  | .fault x => .fault x
  | .error e => .error (g e)

end Settings

import Settings.Host.Object
import Settings.Scalar

/-!
# Bound functions

A function of the host is called with the handles of its arguments and answers with the handle of
its result. What it does in between is a `Body`: it asks the table for things, one `Request` at a
time, calls other functions, looks at host variables and changes them, and ends with a result or an
error. A body is data, a tree that branches on the replies, so what any function at all may do to
a table is settled by what each request may do.

Most functions need none of that. `Function.fixed` makes one from an ordinary function on values:
its parameter types say how each argument is converted, and its result becomes a fresh temporary
unless it is a handle itself. A wrong number of arguments, then the first argument from the left
that cannot be converted, end the call before the function runs.

* `Param`, `Args`, `Returned`: what such a function takes and gives.
* `Request`, `Request.Reply`: everything a body can ask of a table.
* `Body`, `Function`: programs over requests, and callables made of them.
-/

set_option autoImplicit false

namespace Settings

/-! ## Parameters and results -/

/-- A parameter: a value of a host type, or the argument's handle as it is. -/
inductive Param where
  | value (type : HostType)
  | entry
  deriving DecidableEq

namespace Param

def Carrier : Param → Type
  | value t => t.Carrier
  | entry => EntryId

def expected : Param → Expected
  | value t => t.expected
  | entry => .entry

end Param

def Args : List Param → Type
  | [] => Unit
  | p :: ps => p.Carrier × Args ps

/-- The result of a host function before it has a handle. -/
inductive Returned where
  | scalar (value : Scalar)
  | entry (id : EntryId)
  deriving DecidableEq

namespace Returned

def number (x : Double) : Returned := .scalar (.number x)

/-- Integers come back as the nearest number. -/
def int {t : IntType} (v : t.Value) : Returned := number v.toNumber

def bool (b : Bool) : Returned := number (if b then Binary.ofInt 1 else Binary.zero)

def text (s : String) : Returned := .scalar (.text s)

/-- A function without a result answers with an empty text. -/
def unit : Returned := text ""

end Returned

/-! ## Requests -/

/-- What is registered under a new name, functions aside. -/
inductive Content where
  | scope (structureType : String)
  | number
  | text
  /-- A link, and the value that is written through it once the entry is in place. -/
  | linked (target : Target) (default : target.type.Carrier)

/-- A change of what is recorded about an entry beside its value. -/
inductive HeaderEdit where
  | description (text : String)
  | defaultText (text : String)
  | kind (kind : ValueKind)
  | min (bound : Double)
  | max (bound : Double)
  | integerOnly (flag : Bool)

inductive Request where
  | size
  | contains (id : EntryId)
  | find (scope : EntryId) (name : String)
  | lookup (start : EntryId) (name : String) (enclosing : Bool)
  | lookupPath (start : EntryId) (path : String)
  | readNumber (id : EntryId)
  | readText (id : EntryId)
  | snapshot (id : EntryId)
  | convert (param : Param) (id : EntryId)
  | writeNumber (id : EntryId) (value : Double)
  | writeText (id : EntryId) (text : String)
  | assign (id : EntryId) (value : Scalar)
  | copy (target source : EntryId)
  | edit (id : EntryId) (change : HeaderEdit)
  | updateDefault (id : EntryId)
  | makeTemp (value : Scalar)
  | release (id : EntryId)
  | releaseIfTemporary (id : EntryId)
  | clone (id : EntryId)
  | attach (scope id : EntryId)
  | rename (id : EntryId) (name : String)
  | remove (id : EntryId)
  | register (scope : EntryId) (name description : String) (content : Content)

def Request.Reply : Request → Type
  | size => Nat
  | contains _ => Bool
  | find .. => Option EntryId
  | lookup .. => Option EntryId
  | lookupPath .. => Option EntryId
  | readNumber _ => Except EntryError Double
  | readText _ => Except EntryError String
  | snapshot _ => Option Scalar
  | convert p _ => Except EntryError p.Carrier
  | writeNumber .. => Except EntryError Unit
  | writeText .. => Except EntryError Unit
  | assign .. => Bool
  | copy .. => Bool
  | edit .. => Unit
  | updateDefault _ => Unit
  | makeTemp _ => EntryId
  | release _ => Except TreeError Unit
  | releaseIfTemporary _ => Bool
  | clone _ => EntryId
  | attach .. => Except TreeError Unit
  | rename .. => Except TreeError Unit
  | remove _ => Except TreeError Unit
  | register .. => Except TreeError EntryId

/-! ## Functions -/

inductive Arity where
  | fixed (count : Nat)
  | variadic
  deriving DecidableEq

def Arity.text : Arity → String
  | fixed n => natText n
  | variadic => "any"

/-- The object that a member runs on, and the type that the member, under its name, is written
for. -/
structure Receiver where
  object : Object
  member : String
  tag : TypeTag

mutual

inductive Body where
  | done (outcome : Except CallError EntryId)
  | ask (request : Request) (next : request.Reply → Body)
  | invoke (function : EntryId) (args : List EntryId) (next : Except CallError EntryId → Body)
  /-- Registers another function, among the builtins if so marked. -/
  | define (scope : EntryId) (name : String) (function : Function) (description : String)
      (builtin : Bool) (next : Except TreeError EntryId → Body)
  | inspect (next : Store → Body)
  | update (change : Store → Store) (next : Body)

/-- A callable. A member has a receiver, which is in use while the body runs. -/
inductive Function where
  | mk (arity : Arity) (receiver : Option Receiver) (call : List EntryId → Body)

end

namespace Function

def arity : Function → Arity
  | mk a _ _ => a

def receiver : Function → Option Receiver
  | mk _ r _ => r

def call : Function → List EntryId → Body
  | mk _ _ c => c

def variadic (call : List EntryId → Body) : Function := mk .variadic none call

end Function

namespace Body

/-- Ends a call: an error as it is, a scalar as a fresh temporary, a handle as it is. -/
def finish : Except CallError Returned → Body
  | .error e => done (.error e)
  | .ok (.scalar v) => ask (.makeTemp v) fun id => done (.ok id)
  | .ok (.entry id) => done (.ok id)

/-- Runs a function on the store and ends the call with its result. -/
def host (f : StateM Store (Except CallError Returned)) : Body :=
  inspect fun s => update (fun _ => (f.run s).2) (finish (f.run s).1)

/-- Converts arguments from left to right, the first of them at `position`, and goes on with their
values. Handles and parameters are of one number; when they are not, the shorter list decides. -/
def convertArgs (name : String) : (params : List Param) → (position : Nat) → List EntryId →
    (Args params → Body) → Body
  | [], _, _, next => next ()
  | p :: ps, position, id :: ids, next =>
      ask (.convert p id) fun
        | .error e => done (.error (.argumentType name position p.expected e))
        | .ok v => convertArgs name ps (position + 1) ids fun vs => next (v, vs)
  | _ :: ps, position, [], _ =>
      done (.error (.arityMismatch name (position + ps.length) (position - 1)))

def typed (name : String) (params : List Param)
    (f : Args params → StateM Store (Except CallError Returned)) (args : List EntryId) : Body :=
  if args.length = params.length then convertArgs name params 1 args fun vs => host (f vs)
  else done (.error (.arityMismatch name params.length args.length))

end Body

/-- Binds a function with typed parameters under a name, which its errors give. -/
def Function.fixed (name : String) (params : List Param)
    (f : Args params → StateM Store (Except CallError Returned)) : Function :=
  .mk (.fixed params.length) none (Body.typed name params f)

end Settings

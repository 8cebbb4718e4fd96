import Settings.Session.Invoke

/-!
# Members

A method is written for the objects of one host type. Binding it as a member of a type, under a
name, checks once that the type is the one it is written for. A member bound to an object is a
function like any other, and can be registered.
-/

set_option autoImplicit false

namespace Settings

/-- A host function with a receiver. The name that it is called by is given when it is bound. -/
structure Method where
  receiver : TypeTag
  arity : Arity
  call : (name : String) → Object → List EntryId → Body

namespace Method

def fixed (receiver : TypeTag) (params : List Param)
    (f : Object → Args params → StateM Store (Except CallError Returned)) : Method where
  receiver := receiver
  arity := .fixed params.length
  call := fun name o => Body.typed name params (f o)

def variadic (receiver : TypeTag) (f : Object → List EntryId → Body) : Method where
  receiver := receiver
  arity := .variadic
  call := fun _ => f

end Method

/-- A method bound to a name and a type, but not yet to an object. -/
structure Member where
  name : String
  tag : TypeTag
  arity : Arity
  call : Object → List EntryId → Body

namespace Member

/-- Binds a method as a member of a type. -/
def bind (tag : TypeTag) (name : String) (m : Method) : Except BindError Member :=
  if m.receiver = tag then .ok ⟨name, tag, m.arity, m.call name⟩
  else .error (.receiverMismatch name tag.name m.receiver.name)

def receiverOn (m : Member) (o : Object) : Receiver := ⟨o, m.name, m.tag⟩

def onObject (m : Member) (o : Object) : Function := .mk m.arity (some (m.receiverOn o)) (m.call o)

end Member

/-- Calls a member on an object without an entry in between, so that a failure is answered but not
told to the channel. -/
def Session.callMember (m : Member) (o : Object) (args : List EntryId) : Action CallError EntryId :=
  .ofFunction (Session.apply (Session.invokeWithin Session.callDepthLimit) (m.onObject o) args)

end Settings

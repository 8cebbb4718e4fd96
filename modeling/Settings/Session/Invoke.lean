import Settings.Session.Basic

/-!
# Calls

Calling an entry runs the body of its function. The steps of a body that are not calls are done at
once; a call in a body is the same operation again, one level deeper. How deep calls may be nested
is limited, because a function can call itself, directly or through others, without end.

A member has a receiver, and the receiver is in use from the start of the call to its end, however
the call ends. A member whose receiver is already in use is refused before its body runs.

Every call that ends with an error, at whatever depth, hands one message to the channel, after the
messages of the calls inside it. A fault is not an error of a call: it ends all of them, and no
message tells of it.
-/

set_option autoImplicit false

namespace Settings

namespace Session

/-- The outcome of a call together with the session it leaves. -/
abbrev CallOutcome : Type := Attempt CallError EntryId × Session

/-- Runs a body; `call` says how the calls in it are made. -/
def runBody (call : EntryId → List EntryId → Session → CallOutcome) : Body → Session → CallOutcome
  | .done outcome, s => (.ofError outcome, s)
  | .ask r next, s =>
      match r.answer s.table s.store with
      | .ok (reply, t, st) => runBody call (next reply) { s with table := t, store := st }
      | .error x => (.error (.fault x), s)
  | .invoke f args next, s =>
      match call f args s with
      | (.ok id, s) => runBody call (next (.ok id)) s
      | (.error (.error e), s) => runBody call (next (.error e)) s
      | (.error (.fault x), s) => (.error (.fault x), s)
  | .define scope name f description builtin next, s =>
      let (outcome, t) := (Table.define scope name f description builtin).run s.table
      match outcome with
      | .ok id => runBody call (next (.ok id)) { s with table := t }
      | .error (.error e) => runBody call (next (.error e)) { s with table := t }
      | .error (.fault x) => (.error (.fault x), { s with table := t })
  | .inspect next, s => runBody call (next s.store) s
  | .update change next, s => runBody call next { s with store := change s.store }

/-- Runs a call with its receiver, if it has one, in use. -/
def withReceiver (receiver : Option Receiver) (body : Session → CallOutcome) (s : Session) :
    CallOutcome :=
  match receiver with
  | none => body s
  | some r =>
      if r.object.id ∈ s.inUse then (.error (.error (.reentrant r.member)), s)
      else if r.object.tag ≠ r.tag then (.error (.fault (.wrongReceiver r.member)), s)
      else
        let (outcome, after) := body { s with inUse := r.object.id :: s.inUse }
        (outcome, { after with inUse := after.inUse.erase r.object.id })

def apply (call : EntryId → List EntryId → Session → CallOutcome) (f : Function)
    (args : List EntryId) (s : Session) : CallOutcome :=
  withReceiver f.receiver (runBody call (f.call args)) s

/-- Tells the channel of an outcome that is an error. -/
def reported : CallOutcome → CallOutcome
  | (.error (.error e), s) => (.error (.error e), s.report e)
  | outcome => outcome

/-- Calls an entry, with calls nested at most `depth` deep. -/
def invokeWithin : (depth : Nat) → EntryId → List EntryId → Session → CallOutcome
  | 0, _, _, s => (.error (.fault .callDepth), s)
  | depth + 1, id, args, s =>
      match s.table.entry id with
      | .error x => (.error (.fault x), s)
      | .ok e =>
          reported (match e.function? with
            | some f => apply (invokeWithin depth) f args s
            | none => (.error (.error (.notCallable e.name)), s))

def callDepthLimit : Nat := 10000

/-- Calls an entry with the handles of its arguments. The result is a fresh temporary, which the
caller is to release, or an entry that the function passed on. -/
def invoke (id : EntryId) (args : List EntryId) : Action CallError EntryId :=
  .ofFunction (invokeWithin callDepthLimit id args)

end Session

end Settings

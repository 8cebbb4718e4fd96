import Settings.Channel
import Settings.Table.Values

/-!
# Sessions

A session is everything that scripts and hosts work on together: the table of entries, the host
variables, the channel for failed calls, and which host objects are in use as receivers of running
members.

An `Action` is a step of a session. It ends with a value, an error of its family or a fault, and
always leaves a session behind; after an error or a fault, that is the session at the moment it
struck. `Session.ask` answers a `Request`, which is the one way in which functions and hosts alike
work on the table.
-/

set_option autoImplicit false

namespace Settings

structure Session where
  table : Table
  store : Store
  channel : Channel
  /-- The receivers of the members that are running. -/
  inUse : List ObjectId
  /-- How many objects there have been. -/
  objectCount : Nat

/-- A session with a table and nothing else; failed calls are shown on standard error. -/
def Session.ofTable (t : Table) : Session := ⟨t, .empty, .standardError [], [], 0⟩

/-- A step of a session that may fail with errors of a family. -/
abbrev Action (ε α : Type) : Type := ExceptT (Failure ε) (StateM Session) α

namespace Action

variable {ε δ α : Type}

def run (a : Action ε α) (s : Session) : Attempt ε α × Session := StateT.run (ExceptT.run a) s

/-- A step given by what it does to a session. -/
def ofFunction (f : Session → Attempt ε α × Session) : Action ε α := ExceptT.mk f

/-- A step that only looks. -/
def reading (f : Session → Attempt ε α) : Action ε α := ofFunction fun s => (f s, s)

def fail (e : ε) : Action ε α := ofFunction fun s => (.error (.error e), s)

/-- The same step with its errors seen as those of another family. -/
def mapError (g : ε → δ) (a : Action ε α) : Action δ α :=
  ofFunction fun s => ((a.run s).1.mapError g, (a.run s).2)

/-- The same step with an error as part of its value; a fault is still a fault. -/
def settle (a : Action ε α) : Action δ (Except ε α) :=
  ofFunction fun s => (.ofFault (a.run s).1.settle, (a.run s).2)

/-- A reply that may be an error, as the outcome of a step. -/
def orFail (r : Except ε α) : Action ε α := ofFunction fun s => (.ofError r, s)

end Action

/-! ## Requests -/

/-- Answers a request on a table and the host variables. -/
def Request.answer (t : Table) (s : Store) :
    (r : Request) → Except Fault (r.Reply × Table × Store)
  | .size => .ok (t.size, t, s)
  | .contains id => .ok (t.contains id, t, s)
  | .find scope name => (t.find? scope name).map (·, t, s)
  | .lookup start name enclosing => (t.lookup? start name enclosing).map (·, t, s)
  | .lookupPath start path => (t.lookupPath? start path).map (·, t, s)
  | .readNumber id => (t.readNumber s id).settle.map (·, t, s)
  | .readText id => (t.readText s id).settle.map (·, t, s)
  | .snapshot id => (t.snapshot? s id).map (·, t, s)
  | .convert p id => (t.convert s p id).settle.map (·, t, s)
  | .writeNumber id x => replied (t.writeNumber s id x)
  | .writeText id text => replied (t.writeText s id text)
  | .assign id value => t.assign s id value
  | .copy target source => t.copy s target source
  | .edit id change => done ((Table.edit id change).run t)
  | .updateDefault id => done ((Table.updateDefault s id).run t)
  | .makeTemp value => done ((Table.makeTemp value).run t)
  | .release id => edited ((Table.release id).run t)
  | .releaseIfTemporary id => done ((Table.releaseIfTemporary id).run t)
  | .clone id => done ((Table.clone id).run t)
  | .attach scope id => edited ((Table.attach scope id).run t)
  | .rename id name => edited ((Table.rename id name).run t)
  | .remove id => edited ((Table.remove id).run t)
  | .register scope name description content =>
      replied (t.register s scope name description content)
where
  /-- The answer to an edit that knows no error. -/
  done {α : Type} (r : Attempt Empty α × Table) : Except Fault (α × Table × Store) :=
    match r.1 with
    | .ok a => .ok (a, r.2, s)
    | .error (.fault x) => .error x
  /-- The answer to an edit of the tree: an error is part of the reply, and the table is as the edit
  has left it. -/
  edited {α : Type} (r : Attempt TreeError α × Table) :
      Except Fault (Except TreeError α × Table × Store) :=
    r.1.settle.map (·, r.2, s)
  /-- The answer to a step that works on the host variables too. -/
  replied {ε α : Type} (r : Attempt ε α × Table × Store) :
      Except Fault (Except ε α × Table × Store) :=
    r.1.settle.map (·, r.2)

namespace Session

def ask {ε : Type} (r : Request) : Action ε r.Reply :=
  .ofFunction fun s =>
    match r.answer s.table s.store with
    | .ok (reply, t, st) => (.ok reply, { s with table := t, store := st })
    | .error x => (.error (.fault x), s)

def define (scope : EntryId) (name : String) (f : Function) (description : String)
    (builtin : Bool) : Action TreeError EntryId :=
  .ofFunction fun s =>
    let (outcome, t) := (Table.define scope name f description builtin).run s.table
    (outcome, { s with table := t })

def register (scope : EntryId) (name description : String) (content : Content) :
    Action TreeError EntryId := do
  .orFail (← ask (.register scope name description content))

def newVariable {ε : Type} (value : HostValue) : Action ε VariableId :=
  .ofFunction fun s =>
    let (id, store) := s.store.add value
    (.ok id, { s with store := store })

def report (s : Session) (e : CallError) : Session :=
  { s with channel := s.channel.report e.message }

end Session

end Settings

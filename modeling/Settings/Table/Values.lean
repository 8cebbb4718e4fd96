import Settings.Table.Edit

/-!
# Values, defaults and validation

Reading and writing the values of entries by handle, and the two tasks that go through all values
under a scope: recording them as defaults, and reporting those that break the constraints recorded
for them. Both leave out builtin children and what is under them.
-/

set_option autoImplicit false

namespace Settings

namespace Table

/-! ## One entry -/

def readNumber (t : Table) (s : Store) (id : EntryId) : Attempt EntryError Double := do
  Attempt.ofError ((← t.liveEntry id).readNumber s)

def readText (t : Table) (s : Store) (id : EntryId) : Attempt EntryError String := do
  Attempt.ofError ((← t.liveEntry id).readText s)

def snapshot? (t : Table) (s : Store) (id : EntryId) : Except Fault (Option Scalar) := do
  return (← t.entry id).snapshot s

def serialized (t : Table) (s : Store) (id : EntryId) : Attempt EntryError String := do
  Attempt.ofError ((← t.liveEntry id).serialized s)

/-- The value of an argument for a parameter. A handle is taken as it is, live or not. -/
def convert (t : Table) (s : Store) : (p : Param) → EntryId → Attempt EntryError p.Carrier
  | .value type, id => do
      let e ← t.liveEntry id
      Attempt.ofError (type.ofArgument (e.readText s) (e.readNumber s))
  | .entry, id => .ok id

/-- Works on the entry of a live handle and on the host variables. -/
def onEntry {ε α : Type} (t : Table) (s : Store) (id : EntryId)
    (f : Entry → Store → Except ε α × Entry × Store) : Attempt ε α × Table × Store :=
  match t.get? id with
  | some e =>
      let (outcome, e, s) := f e s
      (.ofError outcome, t.set id e, s)
  | none => (.error (.fault (.staleHandle id)), t, s)

def writeNumber (t : Table) (s : Store) (id : EntryId) (x : Double) :
    Attempt EntryError Unit × Table × Store :=
  t.onEntry s id (Entry.writeNumber x)

def writeText (t : Table) (s : Store) (id : EntryId) (text : String) :
    Attempt EntryError Unit × Table × Store :=
  t.onEntry s id (Entry.writeText text)

/-- Works on the entry of a live handle and tells whether it did. -/
def tryOn (t : Table) (s : Store) (id : EntryId) (f : Entry → Store → Bool × Entry × Store) :
    Except Fault (Bool × Table × Store) := do
  let (done, e, s) := f (← t.entry id) s
  return (done, t.set id e, s)

/-- Writes a scalar if the entry can take it, and tells whether it could. -/
def assign (t : Table) (s : Store) (id : EntryId) (value : Scalar) :
    Except Fault (Bool × Table × Store) :=
  t.tryOn s id (Entry.assign value)

/-- Copies the value of `source` to `target`, and tells whether it could. A source without a value
is noticed before the target is looked at. -/
def copy (t : Table) (s : Store) (target source : EntryId) :
    Except Fault (Bool × Table × Store) := do
  match ← t.snapshot? s source with
  | some value => t.assign s target value
  | none => return (false, t, s)

/-- Copies the value between two entries that are both promised to be live, and tells whether it
could. -/
def copyLive (t : Table) (s : Store) (target source : EntryId) :
    Except Fault (Bool × Table × Store) := do
  t.tryOn s target (Entry.copyFrom (← t.entry source))

def edit {ε : Type} (id : EntryId) (change : HeaderEdit) : Edit ε Unit := do
  let e ← .look (·.liveEntry id)
  .change (·.set id (e.edit change))

/-! ## All entries under a scope -/

/-- Records current values as defaults, down to a depth. -/
def updateWithin {ε : Type} (s : Store) : (depth : Nat) → EntryId → Edit ε Unit
  | 0, _ => throw (.fault .cyclicTree)
  | depth + 1, id => do
      let e ← .look (·.liveEntry id)
      match e.scope? with
      | some b => b.entries.forM (updateWithin s depth)
      | none => .change (·.set id (e.recordDefault s))

/-- Records the current value as the default, for every value-carrying entry reached from `id`
through registered children. -/
def updateDefault {ε : Type} (s : Store) (id : EntryId) : Edit ε Unit := do
  updateWithin s (← .look fun t => .ok (t.slots.size + 1)) id

/-- Whether the entry is of a numeric kind, can be read as a number and holds one that it does not
accept. -/
def violates (s : Store) (e : Entry) : Bool :=
  e.kind.isNumeric && (match e.readNumber s with
    | .ok x => !e.accepts x
    | .error _ => false)

/-- The entries under a scope whose numbers break their constraints, in the order of listing. An
entry that is no scope has nothing under it. -/
def validate (t : Table) (s : Store) (id : EntryId) : Except Fault (List EntryId) :=
  (t.tree id).map fun x =>
    ((Tree.settingsAll x.entries).filter fun setting => violates s setting.2).map Prod.fst

end Table

end Settings

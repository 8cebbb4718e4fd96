import Settings.Table.Lookup

/-!
# Registering and moving entries

The rules that the edits keep are those of the scope tree: children of one scope have different
names, none of them empty, and every entry but a top has one owner that lists it. What breaks a rule
is refused. Where an edit could be refused for several reasons, the first in the order of its checks
is given.

Freeing and copying work through a tree in place, an entry before its children. No tree of a table
of `n` slots is deeper than `n`, so both are bounded by the number of slots like the walks that only
look.
-/

set_option autoImplicit false

namespace Settings

namespace Table

/-- The entry of a live handle, in an edit. -/
def liveEntry {ε : Type} (t : Table) (id : EntryId) : Attempt ε Entry := .ofFault (t.entry id)

def scopeBody (t : Table) (id : EntryId) : Attempt TreeError ScopeBody := do
  let e ← t.liveEntry id
  match e.scope? with
  | some b => return b
  | none => throw (.error (.notAScope e.name))

/-- The children of a scope, refused if there is one under the name. -/
def requireFree (t : Table) (scope : EntryId) (name : String) : Attempt TreeError ScopeBody := do
  let b ← t.scopeBody scope
  if (b.find? name).isSome then throw (.error (.duplicateName name (← t.liveEntry scope).name))
  return b

def setBody (t : Table) (id : EntryId) (b : ScopeBody) : Table :=
  t.update id fun e => { e with storage := .scope b }

/-- Appends a child to a scope, under the name of the child's entry. -/
def pushChild {ε : Type} (scope child : EntryId) (builtin : Bool) : Edit ε Unit := do
  let c ← .look (·.liveEntry child)
  let e ← .look (·.liveEntry scope)
  match e.scope? with
  | some b => .change (·.setBody scope (b.push c.name child builtin))
  | none => return ()

/-! ## Registration -/

def insert (scope : EntryId) (e : Entry) (builtin : Bool) : Edit TreeError EntryId := do
  .refuseIf (e.name = "") .emptyName
  discard (.look (·.requireFree scope e.name))
  let id ← .alloc { e with owner := some scope, temporary := false }
  let b ← .look (·.scopeBody scope)
  .change (·.setBody scope (b.push e.name id builtin))
  return id

/-- The storage and the recorded default that an entry starts with. -/
def storageOf : Content → Storage × String
  | .scope structureType => (.scope (.empty structureType), "")
  | .number => (.number Binary.zero, "")
  | .text => (.text "", "")
  | .linked target default => (.linked target, target.type.toText default)

/-- The entry that is registered for a content. -/
def entryOf (name description : String) (content : Content) : Entry :=
  { Entry.new name description (storageOf content).1 with defaultText := (storageOf content).2 }

/-- The host variables once the default of a link has been written through it. -/
def storeWith (content : Content) (s : Store) : Store :=
  match content with
  | .linked target default => target.write default s
  | .scope _ | .number | .text => s

/-- Registers a scope, a value of the table's own or a link. The default of a link is recorded as
the default of the entry, and is written through the link once the entry is in place. -/
def register (t : Table) (s : Store) (scope : EntryId) (name description : String)
    (content : Content) : Attempt TreeError EntryId × Table × Store :=
  match (insert scope (entryOf name description content) false).run t with
  | (.ok id, t) => (.ok id, t, storeWith content s)
  | (.error x, t) => (.error x, t, s)

def define (scope : EntryId) (name : String) (f : Function) (description : String)
    (builtin : Bool) : Edit TreeError EntryId :=
  insert scope (.new name description (.function f)) builtin

/-! ## Temporaries -/

def makeTemp {ε : Type} (value : Scalar) : Edit ε EntryId := .alloc (.temp value)

/-- Frees an entry and what is under it, down to a depth. A slot that is empty already is left. -/
def freeWithin {ε : Type} : (depth : Nat) → EntryId → Edit ε Unit
  | 0, _ => throw (.fault .cyclicTree)
  | depth + 1, id => do
      match ← .look fun t => .ok (t.get? id) with
      | none => return ()
      | some e =>
          .change (·.vacate id)
          e.children.forM (freeWithin depth)

def freeTree {ε : Type} (id : EntryId) : Edit ε Unit := do
  freeWithin (← .look fun t => .ok (t.slots.size + 1)) id

def release (id : EntryId) : Edit TreeError Unit := do
  let e ← .look (·.liveEntry id)
  .refuseIf (e.temporary = false) (.notTemporary e.name)
  freeTree id

/-- Frees an entry if it is a temporary, and tells whether it was. -/
def releaseIfTemporary {ε : Type} (id : EntryId) : Edit ε Bool := do
  return (← (release id).settle).isOk

/-! ## Copies -/

/-- Copies an entry and what is under it, down to a depth. The copy is put into the table before the
copies of the children, and lists each of them once it is complete. -/
def cloneWithin {ε : Type} : (depth : Nat) → (owner : Option EntryId) → EntryId → Edit ε EntryId
  | 0, _, _ => throw (.fault .cyclicTree)
  | depth + 1, owner, id => do
      let e ← .look (·.liveEntry id)
      let copy ← .alloc { e.bare with owner := owner }
      match e.scope? with
      | none => return copy
      | some b =>
          b.entries.forM fun c => do
            pushChild copy (← cloneWithin depth (some copy) c) false
          b.builtins.forM fun c => do
            pushChild copy (← cloneWithin depth (some copy) c) true
          return copy

/-- Makes a copy of an entry with everything under it, without an owner. -/
def clone {ε : Type} (id : EntryId) : Edit ε EntryId := do
  cloneWithin (← .look fun t => .ok (t.slots.size + 1)) none id

/-! ## Moving, renaming, removing -/

/-- Registers an entry without an owner, a copy or a temporary, in a scope. -/
def attach (scope id : EntryId) : Edit TreeError Unit := do
  .refuseIf (id = root) .rootScope
  let e ← .look (·.liveEntry id)
  .refuseIf (e.owner.isSome) (.alreadyAttached e.name)
  .refuseIf (e.name = "") .emptyName
  let links ← .look fun t => .ofFault (t.chain scope)
  .refuseIf (id ∈ links.map Prod.fst) (.wouldCycle e.name)
  discard (.look (·.requireFree scope e.name))
  .change (·.update id fun e => { e with owner := some scope, temporary := false })
  pushChild scope id false

/-- Has the scope of an entry find it under another name, if it has a scope. -/
def relabel (owner : Option EntryId) (id : EntryId) (old name : String) : Edit TreeError Unit :=
  match owner with
  | none => return ()
  | some scope => do
      let b ← .look (·.requireFree scope name)
      .change (·.setBody scope (b.relabel id old name))

/-- Gives an entry another name, which its scope then finds it by. -/
def rename (id : EntryId) (name : String) : Edit TreeError Unit := do
  .refuseIf (name = "") .emptyName
  let e ← .look (·.liveEntry id)
  if e.name = name then return ()
  else
    relabel e.owner id e.name name
    .change (·.update id fun e => { e with name := name })

/-- Takes an entry off the lists of its scope, if it has one. -/
def unlist (owner : Option EntryId) (id : EntryId) (name : String) : Edit TreeError Unit :=
  match owner with
  | none => return ()
  | some scope => do
      let b ← .look (·.scopeBody scope)
      .change (·.setBody scope (b.erase id name))

/-- Takes an entry out of its scope and frees it with everything under it. -/
def remove (id : EntryId) : Edit TreeError Unit := do
  .refuseIf (id = root) .rootScope
  let e ← .look (·.liveEntry id)
  unlist e.owner id e.name
  freeTree id

end Table

end Settings

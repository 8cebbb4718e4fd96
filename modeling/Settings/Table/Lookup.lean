import Settings.Table.Tree
import Settings.Text.Path

/-!
# Lookup

A name is looked up lexically: in a scope, then in the scope that owns it, and so on to the top.
Scopes beside the way are never searched. A dotted path looks its first name up in this way and
every other name as a direct child of the scope before it.

The empty name, and the empty path, name the place where the lookup starts.
-/

set_option autoImplicit false

namespace Settings

namespace Table

/-- The direct child of a scope with a name. -/
def find? (t : Table) (scope : EntryId) (name : String) : Except Fault (Option EntryId) := do
  return (← t.entry scope).scope?.bind fun b => b.find? name

/-- The child with a name of the first entry that has one. An entry that is not a scope ends the
search. -/
def firstChild? (name : String) : List (EntryId × Entry) → Option EntryId
  | [] => none
  | (_, e) :: owners =>
      match e.scope? with
      | none => none
      | some b => (b.find? name).or (firstChild? name owners)

/-- What a name stands for at an entry; the scopes around it count only if `enclosing` says so. -/
def lookup? (t : Table) (start : EntryId) (name : String) (enclosing : Bool) :
    Except Fault (Option EntryId) :=
  if name = "" then .ok (some start)
  else if enclosing then (t.chain start).map (firstChild? name)
  else t.find? start name

/-- Follows names downwards, each a direct child of the one before. -/
def descend? (t : Table) (start : EntryId) : List String → Except Fault (Option EntryId)
  | [] => .ok (some start)
  | name :: names => do
      match ← t.find? start name with
      | none => return none
      | some child => t.descend? child names

/-- What a dotted path stands for at an entry. -/
def lookupPath? (t : Table) (start : EntryId) (path : String) : Except Fault (Option EntryId) :=
  if path = "" then .ok (some start)
  else match pathNames path with
    | [] => .ok none
    | first :: names => do
        match ← t.lookup? start first true with
        | none => return none
        | some found => t.descend? found names

/-- The names from below the top of an entry's chain down to the entry. -/
def namesTo (links : List (EntryId × Entry)) : List String :=
  (links.dropLast.map fun link => link.2.name).reverse

/-- The dotted path of an entry; empty for one without an owner. -/
def pathOf (t : Table) (id : EntryId) : Except Fault String :=
  (t.chain id).map fun links => pathOfNames (namesTo links)

/-- The registered children of a scope; none for another entry. -/
def entries (t : Table) (id : EntryId) : Except Fault (List EntryId) :=
  (t.entry id).map fun e => (e.scope?.map ScopeBody.entries).getD []

/-- The builtin children of a scope; none for another entry. -/
def builtins (t : Table) (id : EntryId) : Except Fault (List EntryId) :=
  (t.entry id).map fun e => (e.scope?.map ScopeBody.builtins).getD []

def structureType? (t : Table) (id : EntryId) : Except Fault (Option String) :=
  (t.entry id).map Entry.structureType?

/-- How many arguments a function takes; none for another entry. -/
def arity? (t : Table) (id : EntryId) : Except Fault (Option Arity) :=
  (t.entry id).map fun e => e.function?.map Function.arity

end Table

end Settings

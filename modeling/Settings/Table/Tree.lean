import Settings.Table.Basic

/-!
# Trees and owner chains

Whatever only looks at a table walks through it in one of two ways: down, from an entry to all that
is registered under it, or up, from an entry to its owner and the owner's owner. Both walks are
taken once, here, and give a value without handles to follow: the `Tree` under an entry and the
chain of its owners. What is to be found out on the walk is then a function of that value. Edits
that change the table as they walk through it take the way themselves.

A table of `n` slots has no tree deeper and no chain longer than `n`, so both walks are bounded by
the number of slots. A walk that comes to the bound has met an entry twice; no sequence of edits
leads to a table where that happens.
-/

set_option autoImplicit false

namespace Settings

/-- An entry with all that is under it. -/
inductive Tree where
  | node (id : EntryId) (entry : Entry) (entries builtins : List Tree)

namespace Tree

def id : Tree → EntryId
  | node i _ _ _ => i

def entry : Tree → Entry
  | node _ e _ _ => e

def entries : Tree → List Tree
  | node _ _ es _ => es

def builtins : Tree → List Tree
  | node _ _ _ bs => bs

mutual

/-- All handles in the tree: an entry before its children, registered children before builtin
ones. -/
def ids : Tree → List EntryId
  | node i _ es bs => i :: (idsAll es ++ idsAll bs)

def idsAll : List Tree → List EntryId
  | [] => []
  | x :: xs => ids x ++ idsAll xs

end

mutual

/-- The entries that carry values, those reached through a builtin left out: what is listed, saved
and validated, in that order. -/
def settings : Tree → List (EntryId × Entry)
  | node i e es _ => (if e.isScalar then [(i, e)] else []) ++ settingsAll es

def settingsAll : List Tree → List (EntryId × Entry)
  | [] => []
  | x :: xs => settings x ++ settingsAll xs

end

end Tree

namespace Table

/-- The tree under an entry, down to a depth. -/
def treeWithin (t : Table) : Nat → EntryId → Except Fault Tree
  | 0, _ => .error .cyclicTree
  | depth + 1, id => do
      let e ← t.entry id
      match e.scope? with
      | none => return .node id e [] []
      | some b =>
          let es ← b.entries.mapM (t.treeWithin depth)
          let bs ← b.builtins.mapM (t.treeWithin depth)
          return .node id e es bs

def tree (t : Table) (id : EntryId) : Except Fault Tree := t.treeWithin (t.slots.size + 1) id

/-- The chain of owners from an entry upwards, at most so many of them. -/
def chainWithin (t : Table) : Nat → EntryId → Except Fault (List (EntryId × Entry))
  | 0, _ => .error .cyclicTree
  | bound + 1, id => do
      let e ← t.entry id
      match e.owner with
      | none => return [(id, e)]
      | some owner => return (id, e) :: (← t.chainWithin bound owner)

/-- The entry, its owner, and so on up to an entry without an owner. -/
def chain (t : Table) (id : EntryId) : Except Fault (List (EntryId × Entry)) :=
  t.chainWithin (t.slots.size + 1) id

end Table

end Settings

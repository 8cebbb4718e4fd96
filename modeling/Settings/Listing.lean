import Settings.Table.Values
import Settings.Text.Sink

/-!
# Configuration text

A scope is saved as a listing of what is registered in it:

    pop = {                                 // Population settings
      size = 100;                           // Number of organisms
      label = founders;
    }

Two steps lie between a table and that text. The `Outline` of an entry is all that the listing
depends on: names, values, descriptions and nesting, without functions, without builtins and
without any trace of handles. The listing of an outline is a row of pieces, in the order in which
they are written, so that it can also be said what a sink holds that ran out of room.

A description becomes a comment that starts at a common column. The column of a piece of code is
counted in bytes. Behind a value that is too long its comment follows after one space; behind the
opening of a scope, which ends in a space already, it follows at once.
-/

set_option autoImplicit false

namespace Settings

/-- What the listing of an entry shows. -/
inductive Outline where
  | value (name text description : String)
  | group (name description : String) (children : List Outline)

mutual

/-- The outline of a tree: for a value its saved text, and nothing for a function, even one that
has a default recorded. -/
def Tree.outline (s : Store) : Tree → List Outline
  | .node _ e es _ =>
      if e.isFunction then []
      else if e.isScope then [.group e.name e.description (Tree.outlineAll s es)]
      else match e.serialized s with
        | .ok text => [.value e.name text e.description]
        | .error _ => []

def Tree.outlineAll (s : Store) : List Tree → List Outline
  | [] => []
  | x :: xs => Tree.outline s x ++ Tree.outlineAll s xs

end

namespace Listing

/-- The column that comments start at unless another is chosen. -/
def defaultColumn : Nat := 40

/-- A description as a comment that starts at a column, behind code of some width. -/
def comment (width column : Nat) (description : String) : List String :=
  if description = "" then []
  else [String.ofList (List.replicate (column - width) ' '), "// ", description]

mutual

/-- The listing of an outline, each line after an indent, comments at a column. -/
def pieces (indent : String) (column : Nat) : Outline → List String
  | .value name text description =>
      let width := indent.utf8ByteSize + name.utf8ByteSize + text.utf8ByteSize + 4
      [indent, name, " = ", text, ";"] ++ comment width (max column (width + 1)) description
        ++ ["\n"]
  | .group name description children =>
      let width := indent.utf8ByteSize + name.utf8ByteSize + 5
      [indent, name, " = \x7b "] ++ comment width column description ++ ["\n"]
        ++ piecesAll (indent ++ "  ") column children ++ [indent, "\x7d\n"]

def piecesAll (indent : String) (column : Nat) : List Outline → List String
  | [] => []
  | x :: xs => pieces indent column x ++ piecesAll indent column xs

end

end Listing

namespace Table

/-- The listing of an entry and of everything under it. -/
def listing (t : Table) (s : Store) (id : EntryId) (indent : String) (column : Nat) :
    Except Fault (List String) :=
  (t.tree id).map fun x => Listing.piecesAll indent column (x.outline s)

def listingOfContents (t : Table) (s : Store) (id : EntryId) (indent : String) (column : Nat) :
    Except Fault (List String) :=
  (t.tree id).map fun x => Listing.piecesAll indent column (Tree.outlineAll s x.entries)

/-- The contents of a scope as text, in the usual layout. -/
def configText (t : Table) (s : Store) (id : EntryId) : Except Fault String :=
  (t.listingOfContents s id "" Listing.defaultColumn).map String.join

end Table

end Settings

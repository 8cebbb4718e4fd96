import Settings.Binding.Member
import Settings.Text.Quoted

/-!
# Inspecting

The structure of an entry, a host variable or a member as one line of text, for those who debug a
host. The line names every field in the order in which this library speaks of them, with texts in
quotes, numbers with at least one place, and the parts that cannot be shown as two dots.
-/

set_option autoImplicit false

namespace Settings

namespace Inspect

/-- A name with fields in braces. -/
def record (name : String) (fields : List (String × String)) (complete : Bool) : String :=
  let shown := fields.map (fun field => field.1 ++ ": " ++ field.2) ++
    (if complete then [] else [".."])
  name ++ " \x7b " ++ ", ".intercalate shown ++ " \x7d"

/-- A name with one value in parentheses. -/
def wrapped (name value : String) : String := name ++ "(" ++ value ++ ")"

def option {α : Type} (inner : α → String) : Option α → String
  | none => "None"
  | some a => wrapped "Some" (inner a)

def bool (b : Bool) : String := HostType.boolText b

def list (items : List String) : String := "[" ++ ", ".intercalate items ++ "]"

def kind : ValueKind → String
  | .none => "None"
  | .scope => "Scope"
  | .bool => "Bool"
  | .int => "Int"
  | .unsigned => "Unsigned"
  | .double => "Double"
  | .string => "String"
  | .filename => "Filename"
  | .path => "Path"
  | .url => "Url"
  | .alphabetic => "Alphabetic"
  | .alphanumeric => "Alphanumeric"
  | .numeric => "Numeric"

def arity : Arity → String
  | .fixed n => wrapped "Fixed" (natText n)
  | .variadic => "Variadic"

def value : (t : HostType) → t.Carrier → String
  | .int t, v => (HostType.int t).toText v
  | .single, x => Binary.inspect (x : Single)
  | .double, x => Binary.inspect (x : Double)
  | .bool, b => bool b
  | .text, s => quoted s

def scope (b : ScopeBody) : String :=
  let ids (children : List EntryId) := list (children.map EntryId.inspect)
  let index := b.index.pairs.map fun p => quoted p.1 ++ ": " ++ p.2.inspect
  record "ScopeData"
    [("entries", ids b.entries), ("builtins", ids b.builtins),
      ("index", "\x7b" ++ ", ".intercalate index ++ "\x7d"),
      ("structure_type", quoted b.structureType)] true

def storage (s : Store) : Storage → String
  | .linked target => wrapped "Linked" (quoted (target.toText s))
  | .number x => wrapped "Double" x.inspect
  | .text t => wrapped "Str" (quoted t)
  | .function f => record "FunctionEntry" [("arity", arity f.arity)] false
  | .scope b => scope b

end Inspect

def Entry.inspect (e : Entry) (s : Store) : String :=
  Inspect.record "Entry"
    [("name", quoted e.name), ("description", quoted e.description),
      ("default_text", quoted e.defaultText), ("scope", Inspect.option EntryId.inspect e.owner),
      ("temporary", Inspect.bool e.temporary), ("kind", Inspect.kind e.kind),
      ("min", Inspect.option Binary.inspect e.min), ("max", Inspect.option Binary.inspect e.max),
      ("integer_only", Inspect.bool e.integerOnly), ("value", Inspect.storage s e.storage)] true

def HostValue.inspect (v : HostValue) : String :=
  Inspect.wrapped "Linked" (Inspect.value v.type v.value)

def Member.inspect (m : Member) : String :=
  Inspect.record "MemberFunction"
    [("name", quoted m.name), ("receiver", quoted m.tag.name), ("arity", Inspect.arity m.arity)]
    false

end Settings

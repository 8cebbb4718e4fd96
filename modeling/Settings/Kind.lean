/-!
# Value kinds

A kind says how the value of an entry is to be treated when it is validated or documented. It never
decides how the value is stored: a string entry may be marked as a filename, and an entry of any
storage may be given any kind.
-/

set_option autoImplicit false

namespace Settings

inductive ValueKind where
  | none
  | scope
  | bool
  | int
  | unsigned
  | double
  | string
  | filename
  | path
  | url
  | alphabetic
  | alphanumeric
  | numeric
  deriving DecidableEq

namespace ValueKind

def all : List ValueKind :=
  [none, scope, bool, int, unsigned, double, string, filename, path, url, alphabetic,
    alphanumeric, numeric]

/-- The kinds whose values are numbers. -/
def isNumeric : ValueKind → Bool
  | bool | int | unsigned | double => true
  | _ => false

/-- The string kind and its refinements. -/
def isString : ValueKind → Bool
  | string | filename | path | url | alphabetic | alphanumeric | numeric => true
  | _ => false

def name : ValueKind → String
  | none => "none"
  | scope => "scope"
  | bool => "bool"
  | int => "int"
  | unsigned => "unsigned"
  | double => "double"
  | string => "string"
  | filename => "filename"
  | path => "path"
  | url => "url"
  | alphabetic => "alphabetic"
  | alphanumeric => "alphanumeric"
  | numeric => "numeric"

def ofName? (s : String) : Option ValueKind := all.find? fun k => k.name == s

end ValueKind

end Settings

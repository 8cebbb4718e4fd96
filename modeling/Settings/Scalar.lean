import Settings.Host.Type

/-!
# Scalars

The value of an entry on its way to another one: a number or a text. Where the receiver needs the
other form, a number becomes its text, and a text is read as a number if it spells one.
-/

set_option autoImplicit false

namespace Settings

inductive Scalar where
  | number (value : Double)
  | text (value : String)
  deriving DecidableEq

namespace Scalar

def toNumber : Scalar → Except EntryError Double
  | number x => .ok x
  | text s => parseNumber s

def toText : Scalar → String
  | number x => x.toText
  | text s => s

end Scalar

end Settings

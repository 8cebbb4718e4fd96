import Settings.Error
import Settings.Number.Text

/-!
# Host types

The types of the variables that settings are linked to, and of the parameters that bound functions
take. Scripts know two forms of a value only, a number and a text, so each type says how its values
become a number or a text and how they are made from one.

Three conversions look alike and differ on purpose:

* `ofNumber` never fails: an integer type cuts the fraction off and stops at the ends of its range.
* `ofText` reads integers exactly, and only text that is no integer of the type goes through a
  number; it never reports a number as out of range.
* `ofArgument` is for the parameters of functions. It too reads integers exactly, but a number
  without a whole part in the range is refused.
-/

set_option autoImplicit false

namespace Settings

inductive HostType where
  | int (type : IntType)
  | single
  | double
  | bool
  | text
  deriving DecidableEq

/-- The number that a text spells, blanks around it ignored. -/
def parseNumber (text : String) : Except EntryError Double :=
  match Binary.ofBlankText? text with
  | some x => .ok x
  | none => .error (.unreadable text .number)

namespace HostType

def all : List HostType := IntType.all.map .int ++ [single, double, bool, text]

def name : HostType → String
  | int t => t.name
  | single => "f32"
  | double => "f64"
  | bool => "bool"
  | text => "string"

def Carrier : HostType → Type
  | int t => t.Value
  | single => Single
  | double => Double
  | bool => Bool
  | text => String

instance (t : HostType) : DecidableEq t.Carrier :=
  match t with
  | int t => inferInstanceAs (DecidableEq t.Value)
  | single => inferInstanceAs (DecidableEq Single)
  | double => inferInstanceAs (DecidableEq Double)
  | bool => inferInstanceAs (DecidableEq Bool)
  | text => inferInstanceAs (DecidableEq String)

/-- The value of a variable nobody has set. -/
def blank : (t : HostType) → t.Carrier
  | int t => t.zero
  | single => (Binary.zero : Single)
  | double => (Binary.zero : Double)
  | bool => false
  | text => ""

instance (t : HostType) : Inhabited t.Carrier := ⟨t.blank⟩

def kind : HostType → ValueKind
  | int t => if t.isSigned then .int else .unsigned
  | single => .double
  | double => .double
  | bool => .bool
  | text => .string

def isText : HostType → Bool
  | text => true
  | _ => false

/-- What a parameter of the type expects, as errors name it. -/
def expected : HostType → Expected
  | int t => .integer t
  | single => .number
  | double => .number
  | bool => .bool
  | text => .string

/-! ## From and to scalars -/

def toNumber : (t : HostType) → t.Carrier → Except EntryError Double
  | int _, v => .ok (IntType.Value.toNumber v)
  | single, x => .ok (Binary.convert (x : Single))
  | double, x => .ok x
  | bool, b => .ok (cond b (Binary.ofInt 1) Binary.zero)
  | text, s => parseNumber s

/-- The value made from a number. Every number but the zeros is true, not-a-number included. -/
def ofNumber : (t : HostType) → Double → t.Carrier
  | int t, x => t.ofNumber x
  | single, x => (Binary.convert x : Single)
  | double, x => x
  | bool, x => !x.isZero
  | text, x => x.toText

def boolText (b : Bool) : String := if b then "true" else "false"

def toText : (t : HostType) → t.Carrier → String
  | int _, v => intText (IntType.Value.toInt v)
  | single, x => Binary.toText (x : Single)
  | double, x => Binary.toText (x : Double)
  | bool, b => boolText b
  | text, s => s

def ofText : (t : HostType) → String → Except EntryError t.Carrier
  | int t, s =>
      match t.ofText? s with
      | some v => .ok v
      | none => (parseNumber s).map t.ofNumber
  | single, s =>
      match (Binary.ofBlankText? s : Option Single) with
      | some x => .ok x
      | none => .error (.unreadable s .number)
  | double, s => parseNumber s
  | bool, s =>
      let word := trim s
      if word = "true" then .ok true
      else if word = "false" then .ok false
      else match parseNumber word with
        | .ok x => .ok (!x.isZero)
        | .error _ => .error (.unreadable s .bool)
  | text, s => .ok s

/-! ## From arguments -/

/-- Whether a truncated number lies in the range of an integer type. The upper bound is the number
after the greatest value, computed in the format itself. -/
def holds (t : IntType) (x : Double) : Bool :=
  x.isFinite && Binary.le (Binary.ofInt t.min) x
    && Binary.lt x (Binary.add (Binary.ofInt t.max) (Binary.ofInt 1))

/-- The value made from an argument whose two readings, as text and as a number, are given. -/
def ofArgument : (t : HostType) → (asText : Except EntryError String) →
    (asNumber : Except EntryError Double) → Except EntryError t.Carrier
  | int t, asText, asNumber =>
      match asText.toOption.bind t.ofText? with
      | some v => .ok v
      | none => do
          let x := (← asNumber).truncate
          if holds t x then return t.ofNumber x
          else throw (.outOfRange (← asText) t)
  | single, _, asNumber => asNumber.map fun x => (Binary.convert x : Single)
  | double, _, asNumber => asNumber
  | bool, asText, _ => asText.bind fun s => ofText bool s
  | text, asText, _ => asText

end HostType

structure HostValue where
  type : HostType
  value : type.Carrier

instance : Inhabited HostValue := ⟨⟨.bool, false⟩⟩

instance : DecidableEq HostValue := fun ⟨s, v⟩ ⟨t, w⟩ =>
  if h : s = t then by
    subst h
    exact if hv : v = w then .isTrue (by rw [hv]) else .isFalse (by simpa using hv)
  else .isFalse (by simp [h])

namespace HostValue

def toNumber (v : HostValue) : Except EntryError Double := v.type.toNumber v.value

def toText (v : HostValue) : String := v.type.toText v.value

end HostValue

end Settings

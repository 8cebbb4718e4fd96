import Settings.Number.Arith
import Settings.Text.Blank
import Settings.Text.Numeral

/-!
# Host integers

A host keeps its counts in integers of fixed width. A value of such a type is an integer together
with the fact that it lies in the type's range; arithmetic is done on integers and brought back
into the range, by wrapping around or by stopping at the ends.
-/

set_option autoImplicit false

namespace Settings

/-- The integer types of a host. The two machine-sized ones have 64 bits. -/
inductive IntType where
  | i8
  | i16
  | i32
  | i64
  | isize
  | u8
  | u16
  | u32
  | u64
  | usize
  deriving DecidableEq

namespace IntType

def all : List IntType := [i8, i16, i32, i64, isize, u8, u16, u32, u64, usize]

def name : IntType → String
  | i8 => "i8"
  | i16 => "i16"
  | i32 => "i32"
  | i64 => "i64"
  | isize => "isize"
  | u8 => "u8"
  | u16 => "u16"
  | u32 => "u32"
  | u64 => "u64"
  | usize => "usize"

def bits : IntType → Nat
  | i8 | u8 => 8
  | i16 | u16 => 16
  | i32 | u32 => 32
  | i64 | u64 | isize | usize => 64

def isSigned : IntType → Bool
  | i8 | i16 | i32 | i64 | isize => true
  | u8 | u16 | u32 | u64 | usize => false

def min (t : IntType) : Int := if t.isSigned then -(Int.pow 2 (t.bits - 1)) else 0

def max (t : IntType) : Int :=
  if t.isSigned then Int.pow 2 (t.bits - 1) - 1 else Int.pow 2 t.bits - 1

theorem min_le_zero (t : IntType) : t.min ≤ 0 := by cases t <;> decide

theorem zero_le_max (t : IntType) : 0 ≤ t.max := by cases t <;> decide

def Value (t : IntType) : Type := { n : Int // t.min ≤ n ∧ n ≤ t.max }

instance (t : IntType) : DecidableEq t.Value :=
  inferInstanceAs (DecidableEq { n : Int // t.min ≤ n ∧ n ≤ t.max })

def Value.toInt {t : IntType} (v : t.Value) : Int := v.1

def zero (t : IntType) : t.Value := ⟨0, t.min_le_zero, t.zero_le_max⟩

instance (t : IntType) : Inhabited t.Value := ⟨t.zero⟩

def clamp (t : IntType) (n : Int) : t.Value :=
  ⟨Max.max t.min (Min.min t.max n), by
    have := t.min_le_zero
    have := t.zero_le_max
    omega⟩

def ofInt? (t : IntType) (n : Int) : Option t.Value :=
  if h : t.min ≤ n ∧ n ≤ t.max then some ⟨n, h⟩ else none

/-- The value that differs from an integer by a multiple of the number of values. -/
def wrap (t : IntType) (n : Int) : t.Value := t.clamp ((n - t.min) % Int.pow 2 t.bits + t.min)

/-- Reads an integer exactly: a whole numeral in the type's range, blanks around it ignored. A
minus sign is part of the numerals of signed types only. -/
def ofText? (t : IntType) (s : String) : Option t.Value :=
  (intNumeral? t.isSigned (trimBlanks s.toList)).bind t.ofInt?

/-- The whole part of a number, or the nearest end of the range. -/
def ofNumber (t : IntType) (x : Double) : t.Value := t.clamp (x.saturate t.min t.max)

def Value.toNumber {t : IntType} (v : t.Value) : Double := Binary.ofInt v.toInt

end IntType

end Settings

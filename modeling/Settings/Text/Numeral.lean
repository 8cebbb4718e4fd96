/-!
# Numerals

The written forms of numbers. A whole numeral is an optional sign and decimal digits; a decimal
numeral may also have a point among or beside its digits and a power of ten after them. Letters
name the values that have no digits. Nothing else is a numeral: no blanks, no separators, and only
the ten ASCII digits.
-/

set_option autoImplicit false

namespace Settings

/-- The value of an ASCII digit. -/
def digit? (c : Char) : Option Nat :=
  if '0' ≤ c ∧ c ≤ '9' then some (c.toNat - 48) else none

def isDigit (c : Char) : Bool := (digit? c).isSome

/-- The number that a row of digits denotes; other characters count as zero. -/
def digitsValue (cs : List Char) : Nat :=
  cs.foldl (fun n c => 10 * n + (digit? c).getD 0) 0

/-- The digits of a number, most significant first; none for zero. -/
def digitChars (n : Nat) : List Char :=
  if n = 0 then []
  else digitChars (n / 10) ++ [Char.ofNat (48 + n % 10)]
termination_by n
decreasing_by omega

def natText (n : Nat) : String :=
  if n = 0 then "0" else String.ofList (digitChars n)

def intText (n : Int) : String :=
  if n < 0 then "-" ++ natText n.natAbs else natText n.natAbs

/-- A row of at least one digit. -/
def natNumeral? (cs : List Char) : Option Nat :=
  if cs ≠ [] ∧ cs.all isDigit then some (digitsValue cs) else none

/-- A row of digits after an optional plus sign, or after a minus sign where `minus` allows it. -/
def intNumeral? (minus : Bool) : List Char → Option Int
  | '+' :: cs => (natNumeral? cs).map Int.ofNat
  | '-' :: cs => if minus then (natNumeral? cs).map fun n => -(n : Int) else none
  | cs => (natNumeral? cs).map Int.ofNat

/-- What a numeral denotes before it is rounded to a format. -/
inductive Numeral where
  | nan
  | infinite (negative : Bool)
  | decimal (negative : Bool) (coefficient : Nat) (exponent : Int)
  deriving DecidableEq

/-- The value of exponent digits. Digits stop counting once the value has reached `2 ^ 16`: by then
the number is zero or infinite in every format, unless it has tens of thousands of digits. -/
def exponentValue (cs : List Char) : Nat :=
  cs.foldl (fun n c => if n < 65536 then 10 * n + (digit? c).getD 0 else n) 0

/-- The exponent part: nothing, or `e`, an optional sign and at least one digit. -/
def exponent? : List Char → Option Int
  | [] => some 0
  | c :: cs =>
      if c = 'e' ∨ c = 'E' then
        match cs with
        | '+' :: ds => whole ds false
        | '-' :: ds => whole ds true
        | ds => whole ds false
      else none
where
  whole (ds : List Char) (negative : Bool) : Option Int :=
    if ds ≠ [] ∧ ds.all isDigit then
      some (if negative then -(exponentValue ds : Int) else exponentValue ds)
    else none

/-- Digits with an optional point, at least one digit in all, and an optional exponent. -/
def unsignedNumeral? (negative : Bool) (cs : List Char) : Option Numeral :=
  let whole := cs.takeWhile isDigit
  let rest := cs.dropWhile isDigit
  let (places, rest) := match rest with
    | '.' :: more => (more.takeWhile isDigit, more.dropWhile isDigit)
    | more => ([], more)
  if whole = [] ∧ places = [] then none
  else (exponent? rest).map fun e =>
    .decimal negative (digitsValue (whole ++ places)) (e - places.length)

/-- The named values, in any mixture of cases. -/
def namedNumeral? (negative : Bool) (cs : List Char) : Option Numeral :=
  let name := String.ofList (cs.map Char.toLower)
  if name = "nan" then some .nan
  else if name = "inf" ∨ name = "infinity" then some (.infinite negative)
  else none

/-- Reads a numeral that fills the whole text. -/
def Numeral.ofChars? (cs : List Char) : Option Numeral :=
  let (negative, body) := match cs with
    | '-' :: rest => (true, rest)
    | '+' :: rest => (false, rest)
    | rest => (false, rest)
  (unsignedNumeral? negative body).or (namedNumeral? negative body)

end Settings

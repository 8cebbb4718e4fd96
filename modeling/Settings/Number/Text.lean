import Settings.Number.Shortest
import Settings.Text.Blank
import Settings.Text.Numeral

/-!
# The text of numbers

Settings print a number as its shortest digits in positional notation, whatever its size: there is
never an exponent, and a whole number has no point. `inspect` is the form used when the structure
of an entry is shown: there a whole number keeps one place, and very large and very small numbers
are written with an exponent. Both read back as the number they print.
-/

set_option autoImplicit false

namespace Settings

/-- How a decimal is laid out as text. -/
structure DecimalStyle where
  /-- The least number of places after the point in positional notation. -/
  places : Nat
  /-- The decimal orders that are written positionally; none means all. -/
  positional : Option (Int × Int)

/-- Settings print every number positionally and a whole number without a point. -/
def DecimalStyle.plain : DecimalStyle := ⟨0, none⟩

/-- An inspected number has at least one place, and an exponent below a ten-thousandth and from ten
to the sixteenth up. -/
def DecimalStyle.inspected : DecimalStyle := ⟨1, some (-4, 15)⟩

/-- The decimal digits of a number; zero is one digit. -/
def allDigits (n : Nat) : List Char := if n = 0 then ['0'] else digitChars n

/-- Positional notation with at least `places` places. -/
def Decimal.positional (places : Nat) (d : Decimal) : List Char :=
  let (whole, fractional) :=
    if 0 ≤ d.exponent then
      (allDigits d.coefficient ++ (if d.coefficient = 0 then [] else
        List.replicate d.exponent.toNat '0'), [])
    else
      let count := (-d.exponent).toNat
      let digits := digitChars d.coefficient
      let padded := List.replicate (count + 1 - digits.length) '0' ++ digits
      (padded.take (padded.length - count), padded.drop (padded.length - count))
  let fractional := fractional ++ List.replicate (places - fractional.length) '0'
  if fractional = [] then whole else whole ++ '.' :: fractional

/-- One digit, the others after a point, and the decimal order after `e`. -/
def Decimal.scientific (d : Decimal) : List Char :=
  let digits := allDigits d.coefficient
  let order := d.exponent + ((digits.length - 1 : Nat) : Int)
  digits.take 1 ++ (if digits.length ≤ 1 then [] else '.' :: digits.drop 1)
    ++ 'e' :: (intText order).toList

def DecimalStyle.layout (style : DecimalStyle) (d : Decimal) : List Char :=
  let order := d.exponent + (digitCount d.coefficient : Int) - 1
  match style.positional with
  | none => d.positional style.places
  | some (low, high) =>
      if d.coefficient = 0 ∨ (low ≤ order ∧ order ≤ high) then d.positional style.places
      else d.scientific

namespace Binary

variable {f : Format}

def toChars (style : DecimalStyle) : Binary f → List Char
  | .nan => "NaN".toList
  | .infinite s => if s then "-inf".toList else "inf".toList
  | .finite s m e h =>
      let body := style.layout (shortest s m e h)
      if s then '-' :: body else body

/-- The number as settings print it. -/
def toText (x : Binary f) : String := String.ofList (x.toChars .plain)

/-- The number as it is shown when an entry is inspected. -/
def inspect (x : Binary f) : String := String.ofList (x.toChars .inspected)

/-- The number that a numeral rounds to. -/
def ofNumeral : Numeral → Binary f
  | .nan => .nan
  | .infinite s => .infinite s
  | .decimal s c k => ofDecimal s c k

/-- Reads a number that fills the whole text. -/
def ofText? (s : String) : Option (Binary f) :=
  (Numeral.ofChars? s.toList).map ofNumeral

/-- Reads a number with blanks around it. -/
def ofBlankText? (s : String) : Option (Binary f) :=
  (Numeral.ofChars? (trimBlanks s.toList)).map ofNumeral

end Binary

end Settings

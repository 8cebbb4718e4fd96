import Settings.Number.Round

/-!
# The fewest digits that read back

A number is printed with as few significant digits as still name it. For one digit, two digits and
so on, the value lies between two neighbouring points of the decimal grid with that many digits.
The first grid one of whose two points rounds back to the number gives the digits; when both points
do, the nearer one is taken, and the upper one of two equally near.

A number of either format is reached with at most seventeen digits. Should none of the seventeen
grids have a point that reads back, all digits of the exact value are given: a dyadic fraction has
finitely many.
-/

set_option autoImplicit false

namespace Settings

/-- A decimal `coefficient · 10 ^ exponent`. -/
structure Decimal where
  coefficient : Nat
  exponent : Int
  deriving DecidableEq

/-- How many decimal digits a number has; zero has none. -/
def digitCount (n : Nat) : Nat :=
  if n = 0 then 0 else digitCount (n / 10) + 1
termination_by n
decreasing_by omega

/-- The exponent of the largest power of ten that is not above `num / den`. -/
def decimalOrder (num den : Nat) : Int :=
  if den ≤ num then (digitCount (num / den) : Int) - 1
  else -(digitCount ((den + num - 1) / num - 1) : Int)

/-- Moves zeros at the end of a coefficient into the exponent, at most `fuel` of them. -/
def Decimal.strip : Nat → Decimal → Decimal
  | 0, d => d
  | fuel + 1, d =>
      if d.coefficient ≠ 0 ∧ d.coefficient % 10 = 0
      then strip fuel ⟨d.coefficient / 10, d.exponent + 1⟩
      else d

/-- The same decimal with no zero at the end of its coefficient. -/
def Decimal.normal (d : Decimal) : Decimal := d.strip (digitCount d.coefficient)

/-- The point of the grid of `digits` significant digits that names the number `x` of magnitude
`num / den`, if there is one. -/
def gridPoint? {f : Format} (x : Binary f) (num den digits : Nat) : Option Decimal :=
  let unit := decimalOrder num den - digits + 1
  let (n, d) :=
    if 0 ≤ unit then (num, den * Nat.pow 10 unit.toNat)
    else (num * Nat.pow 10 (-unit).toNat, den)
  let low := n / d
  let reads (c : Nat) : Bool := decide (Binary.ofDecimal x.isNegative c unit = x)
  let upper := decide (d ≤ 2 * (n % d))
  match reads low, reads (low + 1) with
  | false, false => none
  | true, false => some ⟨low, unit⟩
  | false, true => some ⟨low + 1, unit⟩
  | true, true => some ⟨if upper then low + 1 else low, unit⟩

/-- The decimal that the magnitude `m · 2 ^ e` is exactly. -/
def exactDecimal (m : Nat) : Int → Decimal
  | .ofNat e => ⟨m * Nat.pow 2 e, 0⟩
  | .negSucc e => ⟨m * Nat.pow 5 (e + 1), -(e + 1 : Nat)⟩

/-- The shortest decimal that reads back as the finite number `± m · 2 ^ e`, nearest to it among
those of its length. -/
def Binary.shortest {f : Format} (negative : Bool) (m : Nat) (e : Int) (h : f.Canonical m e) :
    Decimal :=
  let x : Binary f := .finite negative m e h
  let (num, den) := Binary.fraction m e
  if m = 0 then ⟨0, 0⟩
  else
    match (List.range 17).findSome? fun k => gridPoint? x num den (k + 1) with
    | some d => d.normal
    | none => (exactDecimal m e).normal

end Settings

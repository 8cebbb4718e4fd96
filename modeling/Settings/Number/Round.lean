import Settings.Number.Format

/-!
# Rounding to a format

Every number that is not already of a format enters it here, and by one rule: the nearest number
of the format, and of two equally near ones the one with the even significand. A magnitude arrives
as an exact fraction `num / den`; it is measured in units of `2 ^ e`, where `e` is chosen so that
the measure fills the precision, and the measure is rounded to a whole number.
-/

set_option autoImplicit false

namespace Settings

/-- The whole number nearest to `num / den`, the even one of two equally near. -/
def roundHalfEven (num den : Nat) : Nat :=
  let q := num / den
  let r := num % den
  if 2 * r < den then q
  else if den < 2 * r then q + 1
  else if q % 2 = 0 then q else q + 1

theorem roundHalfEven_one (n : Nat) : roundHalfEven n 1 = n := by
  simp [roundHalfEven, Nat.mod_one]

/-- The fraction `num / den` measured in units of `2 ^ e`. -/
def inUnits (num den : Nat) : Int → Nat × Nat
  | .ofNat e => (num, den * Nat.pow 2 e)
  | .negSucc e => (num * Nat.pow 2 (e + 1), den)

/-- The exponent of the largest power of two that is not above `num / den`. -/
def binaryOrder (num den : Nat) : Int :=
  let guess := (num.log2 : Int) - (den.log2 : Int)
  let (n, d) := inUnits num den guess
  if n < d then guess - 1 else guess

namespace Binary

variable {f : Format}

/-- The number `± m · 2 ^ e` when the pair is canonical once a carry out of the precision has been
moved into the exponent; a pair beyond the exponent range is infinite. -/
def ofParts (negative : Bool) (m : Nat) (e : Int) : Binary f :=
  let (m, e) := if m = Nat.pow 2 f.precision then (Nat.pow 2 (f.precision - 1), e + 1) else (m, e)
  if h : f.Canonical m e then .finite negative m e h else .infinite negative

/-- The number of format `f` nearest to `± num / den`. -/
def round (negative : Bool) (num den : Nat) : Binary f :=
  if num = 0 then signedZero negative
  else
    let e := max f.minExp (binaryOrder num den - (f.precision - 1 : Nat))
    let (n, d) := inUnits num den e
    ofParts negative (roundHalfEven n d) e

/-- The number nearest to `± m · 2 ^ e`. -/
def ofDyadic (negative : Bool) (m : Nat) : Int → Binary f
  | .ofNat e => round negative (m * Nat.pow 2 e) 1
  | .negSucc e => round negative m (Nat.pow 2 (e + 1))

/-- The number nearest to `± c · 10 ^ k`. -/
def ofDecimal (negative : Bool) (c : Nat) : Int → Binary f
  | .ofNat k => round negative (c * Nat.pow 10 k) 1
  | .negSucc k => round negative c (Nat.pow 10 (k + 1))

/-- The number nearest to a whole number; zero is the positive zero. -/
def ofInt (n : Int) : Binary f :=
  round (decide (n < 0)) n.natAbs 1

/-- The nearest number of another format. -/
def convert {g : Format} : Binary f → Binary g
  | .nan => .nan
  | .infinite s => .infinite s
  | .finite s m e _ => ofDyadic s m e

/-- The magnitude of a finite number as a fraction. -/
def fraction (m : Nat) : Int → Nat × Nat
  | .ofNat e => (m * Nat.pow 2 e, 1)
  | .negSucc e => (m, Nat.pow 2 (e + 1))

end Binary

end Settings

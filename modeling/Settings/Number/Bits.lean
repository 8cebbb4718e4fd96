import Settings.Number.Round

/-!
# Bit patterns

The interchange encoding of a format: a sign bit, an exponent field and a fraction field, read as
one natural number. The exponent field counts from the least exponent; its first value holds the
numbers too small to fill the precision and its last the infinities and not-a-number, of which
only one is kept.
-/

set_option autoImplicit false

namespace Settings

namespace Format

def fieldCount (f : Format) : Nat := (f.maxExp - f.minExp).toNat + 3

def fractionCount (f : Format) : Nat := Nat.pow 2 (f.precision - 1)

end Format

namespace Binary

variable {f : Format}

def toBits : Binary f → Nat
  | .nan => (f.fieldCount - 1) * f.fractionCount + f.fractionCount / 2
  | .infinite s => (if s then f.fieldCount * f.fractionCount else 0)
      + (f.fieldCount - 1) * f.fractionCount
  | .finite s m e _ => (if s then f.fieldCount * f.fractionCount else 0)
      + (if m < f.fractionCount then m else (e - f.minExp).toNat * f.fractionCount + m)

/-- The number with a bit pattern; bits above the sign do not count. -/
def ofBits (bits : Nat) : Binary f :=
  let negative := bits / (f.fieldCount * f.fractionCount) % 2 == 1
  let field := bits / f.fractionCount % f.fieldCount
  let rest := bits % f.fractionCount
  if field = f.fieldCount - 1 then
    if rest = 0 then .infinite negative else .nan
  else if field = 0 then ofParts negative rest f.minExp
  else ofParts negative (rest + f.fractionCount) (f.minExp + (field - 1 : Nat))

end Binary

end Settings

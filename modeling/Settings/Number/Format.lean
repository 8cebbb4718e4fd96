/-!
# Binary number formats

A setting is read and written as a binary floating-point number. Everything in this library that
depends on such a number (its text, its rounding, whether it is whole) is decided by exact
arithmetic on its significand and exponent, so a number is kept as that pair and not as a machine
word whose operations a proof could not look into.

* `Format` fixes a precision and an exponent range; `Format.double` and `Format.single` are the
  two that settings use.
* `Binary f` is a number of format `f`: the one not-a-number, the two infinities, or a signed
  significand and exponent in canonical form, so that equal values are equal terms (the two zeros
  aside, which are different numbers and different terms).
-/

set_option autoImplicit false

namespace Settings

/-- A binary format: finite values are `m · 2 ^ e` with `m` of at most `precision` bits and `e`
between the two bounds. -/
structure Format where
  precision : Nat
  minExp : Int
  maxExp : Int
  precision_pos : 0 < precision := by decide
  minExp_le_maxExp : minExp ≤ maxExp := by decide
  deriving DecidableEq

namespace Format

def double : Format where
  precision := 53
  minExp := -1074
  maxExp := 971

def single : Format where
  precision := 24
  minExp := -149
  maxExp := 104

/-- The pair `m`, `e` is the one that stands for `m · 2 ^ e`: the significand fills the precision,
unless the exponent is already the least there is. -/
def Canonical (f : Format) (m : Nat) (e : Int) : Prop :=
  m < Nat.pow 2 f.precision ∧ f.minExp ≤ e ∧ e ≤ f.maxExp ∧
    (Nat.pow 2 (f.precision - 1) ≤ m ∨ e = f.minExp)

instance (f : Format) (m : Nat) (e : Int) : Decidable (f.Canonical m e) :=
  inferInstanceAs (Decidable (_ ∧ _ ∧ _ ∧ (_ ∨ _)))

theorem canonical_zero (f : Format) : f.Canonical 0 f.minExp :=
  ⟨Nat.two_pow_pos _, Int.le_refl _, f.minExp_le_maxExp, Or.inr rfl⟩

end Format

inductive Binary (f : Format) where
  | nan
  | infinite (negative : Bool)
  | finite (negative : Bool) (significand : Nat) (exponent : Int)
      (canonical : f.Canonical significand exponent)
  deriving DecidableEq

/-- The numbers that settings hold. -/
abbrev Double : Type := Binary Format.double

/-- The short numbers that some host variables hold. -/
abbrev Single : Type := Binary Format.single

namespace Binary

variable {f : Format}

def signedZero (negative : Bool) : Binary f :=
  .finite negative 0 f.minExp f.canonical_zero

def zero : Binary f := signedZero false

instance : Inhabited (Binary f) := ⟨zero⟩

def isNaN : Binary f → Bool
  | .nan => true
  | _ => false

def isFinite : Binary f → Bool
  | .finite .. => true
  | _ => false

def isZero : Binary f → Bool
  | .finite _ m _ _ => m == 0
  | _ => false

def isNegative : Binary f → Bool
  | .nan => false
  | .infinite s => s
  | .finite s _ _ _ => s

def neg : Binary f → Binary f
  | .nan => .nan
  | .infinite s => .infinite (!s)
  | .finite s m e h => .finite (!s) m e h

end Binary

end Settings

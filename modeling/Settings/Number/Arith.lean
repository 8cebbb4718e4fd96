import Settings.Number.Round

/-!
# Arithmetic and comparison

Each operation finds its exact result on significands and exponents and rounds it once. The special
values follow the usual rules: not-a-number is contagious and compares with nothing, a sum of
opposite infinities, a quotient of zeros or of infinities, a product of zero and an infinity and
the root of a negative number are not-a-number, and an exact zero sum is the positive zero unless
both operands are negative zeros.
-/

set_option autoImplicit false

namespace Settings

/-- The greatest number below `2 ^ bits` beyond `r` whose square is at most `n`, found bit by
bit. -/
def rootFrom (n : Nat) : Nat → Nat → Nat
  | 0, r => r
  | bits + 1, r =>
      let r' := r + Nat.pow 2 bits
      rootFrom n bits (if r' * r' ≤ n then r' else r)

/-- The greatest number whose square is at most `n`. -/
def floorRoot (n : Nat) : Nat :=
  rootFrom n (n.log2 / 2 + 1) 0

namespace Binary

variable {f : Format}

def signed (negative : Bool) (m : Nat) : Int :=
  if negative then -(m : Int) else m

/-! ## Comparison -/

/-- The order of two numbers; none where one of them is not a number. The zeros are equal. -/
def compare? : Binary f → Binary f → Option Ordering
  | .nan, _ => none
  | _, .nan => none
  | .infinite s, .infinite t => some (if s = t then .eq else if s then .lt else .gt)
  | .infinite s, .finite .. => some (if s then .lt else .gt)
  | .finite .., .infinite t => some (if t then .gt else .lt)
  | .finite s m e _, .finite t n d _ =>
      let low := min e d
      let x := signed s (m * Nat.pow 2 (e - low).toNat)
      let y := signed t (n * Nat.pow 2 (d - low).toNat)
      some (compare x y)

def lt (x y : Binary f) : Bool := compare? x y == some .lt

def le (x y : Binary f) : Bool := compare? x y == some .lt || compare? x y == some .eq

/-- Numeric equality: not-a-number equals nothing, and the zeros are equal. -/
def same (x y : Binary f) : Bool := compare? x y == some .eq

/-- The larger of two numbers; one that is not a number gives way, and of equals the second wins
(the zeros are equal). -/
def larger (x y : Binary f) : Binary f :=
  if y.isNaN then x
  else if x.isNaN then y
  else if le x y then y else x

/-! ## Operations -/

def add : Binary f → Binary f → Binary f
  | .nan, _ => .nan
  | _, .nan => .nan
  | .infinite s, .infinite t => if s = t then .infinite s else .nan
  | .infinite s, .finite .. => .infinite s
  | .finite .., .infinite t => .infinite t
  | .finite s m e _, .finite t n d _ =>
      let low := min e d
      let sum := signed s (m * Nat.pow 2 (e - low).toNat) + signed t (n * Nat.pow 2 (d - low).toNat)
      if sum = 0 then signedZero (s && t)
      else ofDyadic (decide (sum < 0)) sum.natAbs low

def mul : Binary f → Binary f → Binary f
  | .nan, _ => .nan
  | _, .nan => .nan
  | .infinite s, .infinite t => .infinite (s ^^ t)
  | .infinite s, .finite t n _ _ => if n = 0 then .nan else .infinite (s ^^ t)
  | .finite s m _ _, .infinite t => if m = 0 then .nan else .infinite (s ^^ t)
  | .finite s m e _, .finite t n d _ => ofDyadic (s ^^ t) (m * n) (e + d)

def div : Binary f → Binary f → Binary f
  | .nan, _ => .nan
  | _, .nan => .nan
  | .infinite _, .infinite _ => .nan
  | .infinite s, .finite t _ _ _ => .infinite (s ^^ t)
  | .finite s _ _ _, .infinite t => signedZero (s ^^ t)
  | .finite s m e _, .finite t n d _ =>
      if n = 0 then (if m = 0 then .nan else .infinite (s ^^ t))
      else
        let (num, den) := fraction m (e - d)
        round (s ^^ t) num (den * n)

/-- The square root. The significand is widened until its whole root has more bits than the
precision asks for; a root that is not exact then ends in an odd bit of its own, which keeps it off
every tie. -/
def sqrt : Binary f → Binary f
  | .nan => .nan
  | .infinite s => if s then .nan else .infinite false
  | .finite s m e _ =>
      if m = 0 then signedZero s
      else if s then .nan
      else
        let odd := (e % 2).toNat
        let widened := m * Nat.pow 2 (2 * (f.precision + 2) + odd)
        let root := floorRoot widened
        let half := (e - odd) / 2 - (f.precision + 2 : Nat)
        let inexact := if root * root = widened then 0 else 1
        ofDyadic false (2 * root + inexact) (half - 1)

/-! ## Whole numbers -/

/-- The whole part of a finite number, its fraction cut off; none for the other numbers. -/
def truncate? : Binary f → Option Int
  | .finite s m e _ =>
      let (num, den) := fraction m e
      some (signed s (num / den))
  | _ => none

/-- The number without its fraction. A magnitude below one leaves a zero of the same sign. -/
def truncate : Binary f → Binary f
  | .finite s m e _ =>
      let (num, den) := fraction m e
      round s (num / den) 1
  | x => x

/-- Whether the number is finite and has no fraction. -/
def isWhole : Binary f → Bool
  | .finite _ m e _ =>
      let (num, den) := fraction m e
      num % den == 0
  | _ => false

/-- The whole part, brought into the range from `low` to `high`; not-a-number counts as zero. -/
def saturate (low high : Int) : Binary f → Int
  | .nan => 0
  | .infinite s => if s then low else high
  | .finite s m e _ =>
      let (num, den) := fraction m e
      max low (min high (signed s (num / den)))

end Binary

end Settings

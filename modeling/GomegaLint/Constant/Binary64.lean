/-!
# Nearest doubles

`nearest m e` is the bits of the double nearest to `m * 10 ^ e`, a tie going to
the even significand.  The computation is exact: the value is a quotient of
natural numbers, and the significand is that quotient rounded once.
-/

namespace GomegaLint

namespace Binary64

/-- The bits of positive infinity. -/
def infinity : Nat := 0x7FF0000000000000

/-- The top bit of a significand, which is not stored. -/
def hidden : Nat := 0x10000000000000

/-- The quotient rounded to the nearest integer, a tie to the even one. -/
def roundQuotient (num den : Nat) : Nat :=
  let q := num / den
  let r := num % den
  if 2 * r < den then q
  else if den < 2 * r then q + 1
  else if q % 2 = 0 then q else q + 1

/-- `num / (den * 2 ^ q)` as a quotient of natural numbers. -/
def scaled (num den : Nat) (q : Int) : Nat × Nat :=
  if 0 ≤ q then (num, den * Nat.pow 2 q.toNat) else (num * Nat.pow 2 (-q).toNat, den)

/-- The bits of the double nearest to the quotient of two positive numbers. -/
def ofQuotient (num den : Nat) : Nat :=
  let guess : Int := max ((num.log2 : Int) - den.log2 - 53) (-1074)
  let s := scaled num den guess
  -- The significand has at most 53 bits.
  let q := if s.2 * (2 * hidden) ≤ s.1 then guess + 1 else guess
  let s := scaled num den q
  let n := roundQuotient s.1 s.2
  let (n, q) := if n = 2 * hidden then (hidden, q + 1) else (n, q)
  if 971 < q then infinity
  else if n < hidden then n
  else (q + 1075).toNat * hidden + (n - hidden)

/-- The number of decimal digits. -/
def digitCount (m : Nat) : Nat := (Nat.toDigits 10 m).length

/-- The bits of the double nearest to `m * 10 ^ e`. -/
def nearest (m : Nat) (e : Int) : Nat :=
  if m = 0 then 0
  else
    let size := (digitCount m : Int) + e
    if 310 < size then infinity
    else if size < -330 then 0
    else if 0 ≤ e then ofQuotient (m * Nat.pow 10 e.toNat) 1
    else ofQuotient m (Nat.pow 10 (-e).toNat)

end Binary64

/-- The double nearest to `m * 10 ^ e`. -/
def doubleOfDecimal (m : Nat) (e : Int) : Float :=
  Float.ofBits (UInt64.ofNat (Binary64.nearest m e))

/-- The double nearest to an integer. -/
def doubleOfInt (i : Int) : Float :=
  let d := doubleOfDecimal i.natAbs 0
  if i < 0 then -d else d

end GomegaLint

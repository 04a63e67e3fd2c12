import EcmaSyntax.Text

/-!
# Binary floating point numbers of 64 bits

**Values.**  A finite number is a sign, a significand `m` below `2 ^ 53` and a
scale `e`, and stands for `m * 2 ^ e / 2 ^ 1074`.  The scale is zero or the
significand has its full 53 bits, so each value but zero has one form, and the
bits of its magnitude are those of the number `e * 2 ^ 52 + m`.

**Rounding.**  `Binary64.ofRatio` rounds an exact ratio of two natural numbers to
the nearest value, a tie to the even significand, and to infinity past the
greatest finite value.  All arithmetic is exact arithmetic followed by this one
rounding.
-/

namespace EcmaSyntax

/-- A power of two. -/
def twoPow (n : Nat) : Nat := Nat.pow 2 n

/-- A power of ten. -/
def tenPow (n : Nat) : Nat := Nat.pow 10 n

/-- A floating point number. -/
inductive Binary64 where
  | finite (negative : Bool) (significand scale : Nat)
  | infinite (negative : Bool)
  | nan
deriving DecidableEq, Repr

namespace Binary64

/-- Numbers of the smallest positive value in one. -/
def unit : Nat := twoPow 1074

/-- The greatest scale of a finite number. -/
def maxScale : Nat := 2045

/-- The finite numbers in their one form. -/
def WellFormed : Binary64 → Prop
  | finite _ m e => m < twoPow 53 ∧ (e = 0 ∨ twoPow 52 ≤ m) ∧ e ≤ maxScale
  | infinite _ => True
  | nan => True

/-- The quotient rounded to the nearest natural number, a tie to the even one. -/
def roundDiv (num den : Nat) : Nat :=
  let quotient := num / den
  let twice := 2 * (num % den)
  if twice < den then quotient
  else if den < twice then quotient + 1
  else quotient + quotient % 2

/-- A significand at a scale.  One that was rounded up to a bit more goes to the next scale, and
past the greatest scale there is infinity only. -/
def ofScaled (negative : Bool) (significand scale : Nat) : Binary64 :=
  if significand = twoPow 53 then
    if maxScale < scale + 1 then infinite negative else finite negative (twoPow 52) (scale + 1)
  else if maxScale < scale then infinite negative
  else finite negative significand scale

/-- The number nearest to `num / den`, a tie to the even significand. -/
def ofRatio (negative : Bool) (num den : Nat) : Binary64 :=
  let units := num * unit
  let scale := (units / den).log2 - 52
  ofScaled negative (roundDiv units (den * twoPow scale)) scale

/-- Positive zero. -/
def zero : Binary64 := finite false 0 0

/-- The magnitude of a finite number in units. -/
def magnitude (significand scale : Nat) : Nat := significand * twoPow scale

/-- A number times a positive natural number, rounded. -/
def mulNat (x : Binary64) (k : Nat) : Binary64 :=
  match x with
  | finite negative m e => ofRatio negative (magnitude m e * k) unit
  | infinite negative => infinite negative
  | nan => nan

/-- A number that is not negative plus a natural number, rounded. -/
def addNat (x : Binary64) (k : Nat) : Binary64 :=
  match x with
  | finite negative m e => ofRatio negative (magnitude m e + k * unit) unit
  | infinite negative => infinite negative
  | nan => nan

/-- The value of a digit string read from the left, rounded after each multiplication
by the base and after each addition of a digit. -/
def ofDigits (base : Nat) : Text → Option Binary64 :=
  go zero
where
  /-- Goes on from the value of the digits before. -/
  go (value : Binary64) : Text → Option Binary64
    | [] => some value
    | c :: t =>
        match digitValue? base c with
        | some d => go ((value.mulNat base).addNat d) t
        | none => none

/-- The bits of a number that is not NaN, as a natural number. -/
def bits? : Binary64 → Option Nat
  | finite negative m e => some ((if negative then twoPow 63 else 0) + (e * twoPow 52 + m))
  | infinite negative => some ((if negative then twoPow 63 else 0) + 2047 * twoPow 52)
  | nan => none

/-- The bits in sixteen hexadecimal digits, or the word `nan`. -/
def bitsText (x : Binary64) : Text :=
  match x.bits? with
  | some n =>
      let digits := Nat.toDigits 16 n
      Text.fill (16 - digits.length) '0' ++ digits
  | none => "nan".toList

end Binary64

end EcmaSyntax

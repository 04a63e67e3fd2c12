import EcmaSyntax.Binary64

/-!
# Decimal forms of floating point numbers

**Reading.**  `Binary64.ofDecimalText` reads a signed decimal with an optional
fraction and exponent, or one of the words for infinity and NaN, and rounds once.

**Writing.**  `Binary64.text` writes the fewest digits that read back as the same
number; of two such digit strings the nearer one, and the greater one on a tie.
Digits are placed by position, never with an exponent.

A decimal is a digit string and a power of ten, kept exact until it is rounded.
-/

namespace EcmaSyntax

/-- The exact value `digits * 10 ^ exponent`. -/
structure Decimal where
  digits : Nat
  exponent : Int
deriving DecidableEq, Repr

namespace Decimal

/-- The nearest floating point number.  Far beyond the range of finite numbers the power
of ten is not computed. -/
def toBinary64 (negative : Bool) (d : Decimal) : Binary64 :=
  let magnitude : Int := (Nat.toDigits 10 d.digits).length + d.exponent
  if d.digits = 0 ∨ magnitude < -330 then .finite negative 0 0
  else if 310 < magnitude then .infinite negative
  else
    .ofRatio negative (d.digits * tenPow d.exponent.toNat) (tenPow (-d.exponent).toNat)

/-- The decimal written by position, without zeros at the end of a fraction. -/
def text (d : Decimal) : Text :=
  let digits := Text.ofNat d.digits
  let places := (-d.exponent).toNat
  if places = 0 then digits ++ Text.fill d.exponent.toNat '0'
  else
    let padded := Text.fill (places + 1 - digits.length) '0' ++ digits
    padded.take (padded.length - places) ++ '.' :: padded.drop (padded.length - places)

end Decimal

/-! ## Reading -/

/-- Reads the exponent of a decimal: nothing, or a mark, a sign and digits. -/
def decimalExponent? : Text → Option Int
  | [] => some 0
  | c :: t =>
      if c = 'e' ∨ c = 'E' then
        let (negative, digits) :=
          match t with
          | '-' :: ds => (true, ds)
          | '+' :: ds => (false, ds)
          | ds => (false, ds)
        if digits ≠ [] ∧ digits.all isDecimalDigit then
          let value : Int := digitsValue 10 digits
          some (if negative then -value else value)
        else none
      else none

/-- Reads an unsigned decimal: digits before or after a point, then an exponent. -/
def decimal? (t : Text) : Option Decimal :=
  let whole := t.takeWhile isDecimalDigit
  let rest := t.dropWhile isDecimalDigit
  let (fraction, rest) :=
    match rest with
    | '.' :: r => (r.takeWhile isDecimalDigit, r.dropWhile isDecimalDigit)
    | r => ([], r)
  if whole = [] ∧ fraction = [] then none
  else (decimalExponent? rest).map fun exponent =>
    ⟨digitsValue 10 (whole ++ fraction), exponent - fraction.length⟩

namespace Binary64

/-- Reads a signed decimal, or a word for infinity or NaN in any case. -/
def ofDecimalText (t : Text) : Option Binary64 :=
  let (negative, magnitude) :=
    match t with
    | '-' :: m => (true, m)
    | '+' :: m => (false, m)
    | m => (false, m)
  let word := magnitude.map Char.toLower
  if word = "inf".toList ∨ word = "infinity".toList then some (infinite negative)
  else if word = "nan".toList then some nan
  else (decimal? magnitude).map (Decimal.toBinary64 negative)

/-! ## Writing -/

/-- The decimals that read as one positive number: from `low` to `high` in quarters of a
unit, the ends included iff the significand is even. -/
structure Interval where
  low : Nat
  high : Nat
  closed : Bool
deriving DecidableEq, Repr

/-- The decimals that round to a finite number. -/
def interval (significand scale : Nat) : Interval :=
  let below := if significand = twoPow 52 ∧ 0 < scale then 1 else 2
  ⟨(4 * significand - below) * twoPow scale, (4 * significand + 2) * twoPow scale,
    significand % 2 = 0⟩

/-- Whether a decimal, given as a ratio of quarter units, reads as the number. -/
def Interval.contains (i : Interval) (num den : Nat) : Bool :=
  if i.closed then i.low * den ≤ num && num ≤ i.high * den
  else i.low * den < num && num < i.high * den

/-- Number of digits before the point, counted below zero for zeros after it. -/
def pointPlace (significand scale : Nat) : Int :=
  (Nat.toDigits 10 (magnitude significand scale * tenPow 400 / unit)).length - 400

/-- The decimal with `count` digits nearest to a number whose point is at `place`, if one
reads back. -/
def nearestWith (significand scale : Nat) (place : Int) (count : Nat) : Option Decimal :=
  let exponent := place - count
  let grow := tenPow (-exponent).toNat
  let den := unit * tenPow exponent.toNat
  let num := magnitude significand scale * grow
  let down := num / den
  let reads (digits : Nat) : Bool :=
    (interval significand scale).contains (4 * digits * den) grow
  let digits? :=
    match reads down, reads (down + 1) with
    | true, true => some (if 2 * (num % den) < den then down else down + 1)
    | true, false => some down
    | false, true => some (down + 1)
    | false, false => none
  digits?.map fun digits =>
    if digits = tenPow count then ⟨1, exponent + count⟩ else ⟨digits, exponent⟩

/-- The decimal with the fewest digits that reads back as a positive finite number. -/
def shortest (significand scale : Nat) : Decimal :=
  let place := pointPlace significand scale
  ((List.range' 1 17).findSome? (nearestWith significand scale place)).getD ⟨0, 0⟩

/-- The written form of a number. -/
def text : Binary64 → Text
  | finite negative m e =>
      (if negative then ['-'] else [])
        ++ (if m = 0 then ['0'] else (shortest m e).text)
  | infinite negative => (if negative then ['-'] else []) ++ "inf".toList
  | nan => "NaN".toList

end Binary64

end EcmaSyntax

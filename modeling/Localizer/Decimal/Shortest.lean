/-!
# Shortest decimals

A binary fraction is written with the fewest digits that read back as it. All
decimals of an interval around the fraction read back; `shortest` takes the
coarsest decimal grid that has a point in the interval, and there the point
nearest to the fraction. The arithmetic is exact.
-/

namespace Localizer

/-- The number `digits * 10 ^ exponent`. -/
structure Decimal where
  digits : Nat
  exponent : Int
  deriving DecidableEq, Repr

namespace Decimal

/--
A positive fraction and the interval of numbers that read back as it. All three
are multiples of one `unit`, the quotient of `unitNum` and `unitDen`.
-/
structure Rounded where
  low : Nat
  value : Nat
  high : Nat
  unitNum : Nat
  unitDen : Nat
  /-- Whether the ends of the interval read back too. -/
  closed : Bool
  deriving Repr

namespace Rounded

/-- The interval of the fraction `m * 2 ^ q`; `atStep` says that the fraction below is nearer. -/
def ofBinary (m : Nat) (q : Int) (atStep : Bool) : Rounded :=
  { low := 4 * m - (if atStep then 1 else 2)
    value := 4 * m
    high := 4 * m + 2
    unitNum := Nat.pow 2 (q - 2).toNat
    unitDen := Nat.pow 2 (2 - q).toNat
    closed := m % 2 == 0 }

/-- Whether a multiple of `10 ^ exponent` reads back. -/
def holds (r : Rounded) (d : Decimal) : Bool :=
  let point := d.digits * Nat.pow 10 d.exponent.toNat * r.unitDen
  let scale := Nat.pow 10 (-d.exponent).toNat * r.unitNum
  if r.closed then r.low * scale ≤ point && point ≤ r.high * scale
  else r.low * scale < point && point < r.high * scale

/-- The last multiple of `10 ^ exponent` that is not beyond the fraction, and what is left. -/
def floorAt (r : Rounded) (exponent : Int) : Nat × Nat × Nat :=
  let num := r.value * r.unitNum * Nat.pow 10 (-exponent).toNat
  let den := r.unitDen * Nat.pow 10 exponent.toNat
  (num / den, num % den, den)

/-- The point of a grid nearest to the fraction among those that read back. -/
def pointAt? (r : Rounded) (exponent : Int) : Option Decimal :=
  let (below, left, den) := r.floorAt exponent
  let low : Decimal := ⟨below, exponent⟩
  let high : Decimal := ⟨below + 1, exponent⟩
  match r.holds low, r.holds high with
  | false, false => none
  | true, false => some low
  | false, true => some high
  | true, true =>
    some (if 2 * left < den || (2 * left == den && below % 2 == 0) then low else high)

/-- The exponents of the grids, the coarsest first. -/
def exponents : List Int := (List.range 650).map fun (i : Nat) => 310 - (i : Int)

def shortest (r : Rounded) : Decimal :=
  (exponents.findSome? r.pointAt?).getD ⟨0, 0⟩

end Rounded

/-- The significand, the exponent and whether the fraction below is nearer, of the bits of a float. -/
def binaryParts (bits : UInt64) : Nat × Int × Bool :=
  let fraction : Nat := bits.toNat % Nat.pow 2 52
  let biased : Nat := bits.toNat / Nat.pow 2 52 % Nat.pow 2 11
  if biased == 0 then (fraction, -1074, false)
  else (Nat.pow 2 52 + fraction, (biased : Int) - 1075, fraction == 0 && biased > 1)

/-- The shortest decimal of the magnitude of a finite float. -/
def ofFloatBits (bits : UInt64) : Decimal :=
  let (m, q, atStep) := binaryParts bits
  if m == 0 then ⟨0, 0⟩ else (Rounded.ofBinary m q atStep).shortest

/-! ## Text -/

/-- Digits with the last `places` of them behind the point. -/
def pointed (digits : List Char) (places : Nat) : List Char :=
  digits.take (digits.length - places) ++ '.' :: digits.drop (digits.length - places)

/--
The text of a decimal. The point stands among the digits or next to zeros as
long as the magnitude is from `10 ^ least` to below `10 ^ 16`; beyond, an exponent
follows.
-/
def textFrom (least : Int) (d : Decimal) : String :=
  let digits := Nat.toDigits 10 d.digits
  let size := (digits.length : Int) + d.exponent
  String.ofList <|
    if 0 ≤ d.exponent && size ≤ 16 then
      digits ++ List.replicate d.exponent.toNat '0' ++ ['.', '0']
    else if 0 < size && size ≤ 16 then pointed digits (-d.exponent).toNat
    else if least < size && size ≤ 0 then
      ['0', '.'] ++ List.replicate (-size).toNat '0' ++ digits
    else
      let power := (toString (size - 1)).toList
      match digits with
      | [digit] => digit :: 'e' :: power
      | _ => pointed digits (digits.length - 1) ++ 'e' :: power

/-- The text of a decimal, positional from `10 ^ -5` on. -/
def text (d : Decimal) : String := d.textFrom (-5)

/-- The text of a finite float. -/
def floatText (x : Float) : String :=
  (if x.toBits.toNat / Nat.pow 2 63 == 1 then "-" else "") ++ (ofFloatBits x.toBits).text

end Decimal

end Localizer

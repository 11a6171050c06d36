/-! Decimal texts of binary32 numbers. A finite number is written with the fewest digits that read
back as it, and of those texts the nearest to it is taken, the upper one on a tie. The text never
has an exponent: zeros fill up to the decimal point. -/
namespace CssMath

structure Decimal where
  coefficient : Nat
  exponent : Int
  deriving DecidableEq

/-- The numbers `low / unit` to `high / unit` around `middle / unit`, the ends included or not. -/
structure RoundingInterval where
  low : Nat
  middle : Nat
  high : Nat
  unit : Nat
  closed : Bool

namespace RoundingInterval

/-- The numbers that round to a binary32 mantissa, on the scale of its last place. -/
def ofMantissa (mantissa : Nat) (exponent : Int) : RoundingInterval :=
  -- half a place up and half a place down, and the places below a power of two are half as long
  let below := if mantissa = 0x800000 ∧ -149 < exponent then 1 else 2
  { low := 4 * mantissa - below
    middle := 4 * mantissa
    high := 4 * mantissa + 2
    unit := 4
    -- a tie goes to the even mantissa
    closed := mantissa % 2 = 0 }

def ofBinary32 (mantissa : Nat) (exponent : Int) : RoundingInterval :=
  let i := ofMantissa mantissa exponent
  let scale := Nat.pow 2 exponent.toNat
  { i with
    low := i.low * scale
    middle := i.middle * scale
    high := i.high * scale
    unit := i.unit * Nat.pow 2 (-exponent).toNat }

/-- The nearest multiple of `10 ^ exponent` to the middle among those in the interval. -/
def nearest? (i : RoundingInterval) (exponent : Int) : Option Decimal :=
  let step := Nat.pow 10 exponent.toNat * i.unit
  let scale := Nat.pow 10 (-exponent).toNat
  let inside (n : Nat) : Bool :=
    if i.closed then i.low * scale ≤ n * step ∧ n * step ≤ i.high * scale
    else i.low * scale < n * step ∧ n * step < i.high * scale
  -- one of the two neighbours of the middle, if any, and the upper one on a tie
  let floor := i.middle * scale / step
  let upper := (floor + 1) * step - i.middle * scale ≤ i.middle * scale - floor * step
  if inside (floor + 1) ∧ (upper ∨ ¬inside floor) then some ⟨floor + 1, exponent⟩
  else if inside floor then some ⟨floor, exponent⟩
  else none

def coarsest (i : RoundingInterval) : Nat → Int → Decimal
  | 0, exponent => ⟨0, exponent⟩
  | tries + 1, exponent => (i.nearest? exponent).getD (i.coarsest tries (exponent - 1))

end RoundingInterval

namespace Decimal

def shortest (mantissa : Nat) (exponent : Int) : Decimal :=
  -- all binary32 numbers lie below `10 ^ 39`, and any two are further apart than `10 ^ -45`
  (RoundingInterval.ofBinary32 mantissa exponent).coarsest 85 38

def round (digits : Nat) (d : Decimal) : Decimal :=
  let excess := (Nat.toDigits 10 d.coefficient).length - digits
  let step := Nat.pow 10 excess
  ⟨(d.coefficient + step / 2) / step, d.exponent + excess⟩

def toFloat32 (d : Decimal) : Float32 :=
  Float32.ofScientific d.coefficient (d.exponent < 0) d.exponent.natAbs

def positional (d : Decimal) : List Char :=
  let digits := Nat.toDigits 10 d.coefficient
  let places := (-d.exponent).toNat
  if places = 0 then digits ++ List.replicate d.exponent.toNat '0'
  else
    let padded := List.replicate (places + 1 - digits.length) '0' ++ digits
    let (whole, fraction) := padded.splitAt (padded.length - places)
    whole ++ '.' :: fraction

end Decimal

def numberText (x : Float32) : String :=
  match x.toModel.unpack with
  | .notANumber => "NaN"
  | .infinity .positive => "inf"
  | .infinity .negative => "-inf"
  | .zero .positive => "0"
  | .zero .negative => "-0"
  | .finite .positive mantissa exponent _ =>
    String.ofList (Decimal.shortest mantissa exponent).positional
  | .finite .negative mantissa exponent _ =>
    String.ofList ('-' :: (Decimal.shortest mantissa exponent).positional)

end CssMath

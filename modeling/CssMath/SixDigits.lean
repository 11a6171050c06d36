import CssMath.Decimal

/-! Binary32 numbers cut to six decimal digits. The digits that are cut read back as the number but
need not be the fewest that do: the interval around the number is scaled by a power of ten in words
of 32 bits, and drawn in so far that no product rounded outwards is left in it. Only digits within
the narrower interval are found. -/
namespace CssMath

structure WordFloat where
  significand : Nat
  exponent : Int

def WordFloat.powerOfTen (power : Int) : WordFloat :=
  let numerator := Nat.pow 10 power.toNat
  let denominator := Nat.pow 10 (-power).toNat
  let exponent : Int := if power < 0 then -(denominator.log2 + 32) else numerator.log2 - 31
  let step := denominator * Nat.pow 2 exponent.toNat
  ⟨(numerator * Nat.pow 2 (-exponent).toNat + step / 2) / step, exponent⟩

/-- The interval of `mantissa * 2 ^ exponent` times `10 ^ power`. Its numbers are shifted up to
words, and each product is cut back to 32 bits, a half going up; the ends then move inwards by
one. -/
def RoundingInterval.ofWords (mantissa : Nat) (exponent power : Int) : RoundingInterval :=
  let i := ofMantissa mantissa exponent
  let ten := WordFloat.powerOfTen power
  let product (quarters : Nat) : Nat :=
    (quarters * Nat.pow 2 (29 - mantissa.log2) * ten.significand + 0x80000000) / 0x100000000
  { low := product i.low + 1
    middle := product i.middle
    high := product i.high - 1
    unit := Nat.pow 2 (-(exponent + mantissa.log2 + ten.exponent + 1)).toNat
    closed := true }

/-- The least of the powers `10 ^ -36`, `10 ^ -28`, up to `10 ^ 44` that lifts the number to `4` or
above. -/
def liftingPower (mantissa : Nat) (exponent : Int) : Int :=
  let place := exponent + mantissa.log2 - 2
  let lifts (power : Int) : Bool :=
    Nat.pow 2 (-place).toNat * Nat.pow 10 (-power).toNat ≤
      Nat.pow 10 power.toNat * Nat.pow 2 place.toNat
  let powers := (List.range 11).map (fun n : Nat => 8 * (n : Int) - 36)
  (powers.find? lifts).getD 44

def Decimal.ofWords (mantissa : Nat) (exponent : Int) : Decimal :=
  let power := liftingPower mantissa exponent
  -- the lifted number lies below `10 ^ 10`, and its interval is longer than `10 ^ -7`
  let lifted := (RoundingInterval.ofWords mantissa exponent power).coarsest 17 9
  ⟨lifted.coefficient, lifted.exponent - power⟩

def sixDigits (x : Float32) : Float32 :=
  match x.toModel.unpack with
  | .finite .positive mantissa exponent _ => cut mantissa exponent
  | .finite .negative mantissa exponent _ => -cut mantissa exponent
  -- an infinite number is cut like `2 ^ 128`
  | .infinity .positive => cut 0x800000 105
  | .infinity .negative => -cut 0x800000 105
  | _ => x
where
  cut (mantissa : Nat) (exponent : Int) : Float32 :=
    ((Decimal.ofWords mantissa exponent).round 6).toFloat32

end CssMath

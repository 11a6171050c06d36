/-! Conversions between binary32 and binary64. Both are computed on the unpacked number, so that
the logic can evaluate them; the conversions of the core library are opaque to it. Widening is
exact; narrowing gives the nearest number, and an infinite one beyond the largest. -/
namespace CssMath
open Float.Model

private def roundTo (format : Format) : UnpackedFloat → UnpackedFloat
  | .finite sign mantissa exponent _ => .round format sign mantissa exponent
  | x => x

def widen (x : Float32) : Float :=
  .ofModel (.pack (roundTo .binary64 x.toModel.unpack))

def narrow (x : Float) : Float32 :=
  .ofModel (.pack (roundTo .binary32 x.toModel.unpack))

end CssMath

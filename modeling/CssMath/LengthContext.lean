import CssMath.Precision
import CssMath.Term

/-! The context of an expression, which turns an operand with a unit into a number: lengths into
pixels, angles into degrees, times into milliseconds, frequencies into hertz, resolutions into dots
per pixel, and percentages into their part of a base. -/
namespace CssMath

structure Viewport where
  width : UInt32
  height : UInt32
  deriving DecidableEq

/-- Font sizes and the base of percentages are in pixels. -/
structure LengthContext where
  fontSize : Float32 := 16
  rootFontSize : Float32 := 16
  percentBase : Float32 := 0
  viewport : Option Viewport := none
  deriving BEq

namespace LengthContext

private def pixelsPerInch : Float := 96
private def centimetersPerInch : Float := 2.54
private def pi : Float := 3.14159265358979323846

def edge? (viewport : Viewport) : DimensionUnit → Option UInt32
  | .viewportWidth => some viewport.width
  | .viewportHeight => some viewport.height
  | .viewportMin => some (min viewport.width viewport.height)
  | .viewportMax => some (max viewport.width viewport.height)
  | _ => none

/-- The canonical value of one unit; none for a viewport unit without a viewport and for a unit
outside the table. Without font metrics `ex` and `ch` are half an `em`. -/
def scale? (ctx : LengthContext) (unit : DimensionUnit) : Option Float :=
  match unit with
  | .pixels | .degrees | .milliseconds | .hertz | .dotsPerPixel => some 1
  | .centimeters => some (pixelsPerInch / centimetersPerInch)
  | .millimeters => some (pixelsPerInch / (centimetersPerInch * 10))
  | .quarterMillimeters => some (pixelsPerInch / (centimetersPerInch * 40))
  | .inches => some pixelsPerInch
  | .points => some (pixelsPerInch / 72)
  | .picas => some (pixelsPerInch / 6)
  | .ems => some (widen ctx.fontSize)
  | .rootEms => some (widen ctx.rootFontSize)
  | .exs | .chs => some (widen ctx.fontSize * 0.5)
  | .viewportWidth | .viewportHeight | .viewportMin | .viewportMax => do
    let edge ← edge? (← ctx.viewport) unit
    pure (edge.toFloat / 100)
  | .gradians => some 0.9
  | .radians => some (180 / pi)
  | .turns => some 360
  | .seconds | .kilohertz => some 1000
  | .dotsPerInch => some (1 / pixelsPerInch)
  | .dotsPerCentimeter => some (centimetersPerInch / pixelsPerInch)
  | .other _ => none

def resolve? (ctx : LengthContext) (value : Float32) (unit : DimensionUnit) : Option Float :=
  (ctx.scale? unit).map (widen value * ·)

def resolvePercentage (ctx : LengthContext) (percent : Float32) : Float :=
  widen percent * widen ctx.percentBase / 100

private def nan : Float := 0 / 0

def resolveOperand (ctx : LengthContext) (x : Operand) : Float :=
  if x.isPercentage then ctx.resolvePercentage x.value
  else (x.unit?.bind (ctx.resolve? x.value)).getD nan

end LengthContext

end CssMath

/-! Dimensions and the units that measure them. A unit is found by its spelling up to ASCII case,
and written in its canonical spelling, in lower case. `x` is a second spelling of `dppx`, and a
spelling outside the table names a unit of its own, which has no dimension. -/
namespace CssMath

inductive Dimension where
  | length | angle | time | frequency | resolution
  deriving DecidableEq

def Dimension.name : Dimension → String
  | length => "Length"
  | angle => "Angle"
  | time => "Time"
  | frequency => "Frequency"
  | resolution => "Resolution"

inductive DimensionUnit where
  | pixels | centimeters | millimeters | quarterMillimeters | inches | points | picas
  | ems | rootEms | exs | chs
  | viewportWidth | viewportHeight | viewportMin | viewportMax
  | degrees | gradians | radians | turns
  | seconds | milliseconds
  | hertz | kilohertz
  | dotsPerInch | dotsPerCentimeter | dotsPerPixel
  | other (spelling : String)
  deriving DecidableEq

namespace DimensionUnit

def spelling : DimensionUnit → String
  | pixels => "px"
  | centimeters => "cm"
  | millimeters => "mm"
  | quarterMillimeters => "q"
  | inches => "in"
  | points => "pt"
  | picas => "pc"
  | ems => "em"
  | rootEms => "rem"
  | exs => "ex"
  | chs => "ch"
  | viewportWidth => "vw"
  | viewportHeight => "vh"
  | viewportMin => "vmin"
  | viewportMax => "vmax"
  | degrees => "deg"
  | gradians => "grad"
  | radians => "rad"
  | turns => "turn"
  | seconds => "s"
  | milliseconds => "ms"
  | hertz => "hz"
  | kilohertz => "khz"
  | dotsPerInch => "dpi"
  | dotsPerCentimeter => "dpcm"
  | dotsPerPixel => "dppx"
  | other spelling => spelling

def named : String → DimensionUnit
  | "px" => pixels
  | "cm" => centimeters
  | "mm" => millimeters
  | "q" => quarterMillimeters
  | "in" => inches
  | "pt" => points
  | "pc" => picas
  | "em" => ems
  | "rem" => rootEms
  | "ex" => exs
  | "ch" => chs
  | "vw" => viewportWidth
  | "vh" => viewportHeight
  | "vmin" => viewportMin
  | "vmax" => viewportMax
  | "deg" => degrees
  | "grad" => gradians
  | "rad" => radians
  | "turn" => turns
  | "s" => seconds
  | "ms" => milliseconds
  | "hz" => hertz
  | "khz" => kilohertz
  | "dpi" => dotsPerInch
  | "dpcm" => dotsPerCentimeter
  | "dppx" | "x" => dotsPerPixel
  | name => other name

/-- Only ASCII letters are folded, so `K` is `k` but the Kelvin sign is not. -/
def ofText (text : String) : DimensionUnit := named text.toLower

def dimension? : DimensionUnit → Option Dimension
  | pixels | centimeters | millimeters | quarterMillimeters | inches | points | picas
  | ems | rootEms | exs | chs
  | viewportWidth | viewportHeight | viewportMin | viewportMax => some .length
  | degrees | gradians | radians | turns => some .angle
  | seconds | milliseconds => some .time
  | hertz | kilohertz => some .frequency
  | dotsPerInch | dotsPerCentimeter | dotsPerPixel => some .resolution
  | other _ => none

end DimensionUnit

end CssMath

import CssMath.Precision
import CssMath.SixDigits

/-! Numerals in CSS text: an optional sign, digits, a point with digits behind it, and an exponent.
A point or an `e` without a digit behind it does not belong to the numeral. A numeral keeps its
digits; its value is computed in binary64 arithmetic, one digit at a time. It is an integer if it
has neither a fraction nor an exponent, and one beyond 32 bits is the outermost. -/
namespace CssMath.Css

structure Numeral where
  negative : Bool
  whole : List Nat
  fraction : List Nat
  exponent? : Option Int
  deriving DecidableEq

def ofDigits (digits : List Nat) : Nat := digits.foldl (fun n d => 10 * n + d) 0

namespace Numeral

/-- The nearest binary64 number; a power beyond their range is infinite, one below it is zero. Two
powers lie midway between two numbers, or as good as, and the upper one stands for them. -/
def powerOfTen (exponent : Int) : Float :=
  let nearest := Float.ofScientific 1 (exponent < 0) (min exponent.natAbs 400)
  if exponent = 23 ∨ exponent = 210 then .ofBits (nearest.toBits + 1) else nearest

def value (n : Numeral) : Float :=
  let whole := n.whole.foldl (fun v d => v * 10 + Float.ofNat d) 0
  let fraction := n.fraction.foldl
    (fun (v, place) d => (v + Float.ofNat d * place, place * 0.1)) ((0, 0.1) : Float × Float)
  let magnitude := whole + fraction.1
  let signed := if n.negative then -magnitude else magnitude
  n.exponent?.elim signed (signed * powerOfTen ·)

def integer? (n : Numeral) : Option Int32 :=
  if n.fraction = [] ∧ n.exponent? = none then
    let magnitude : Int := ofDigits n.whole
    let signed := if n.negative then -magnitude else magnitude
    some (Int32.ofInt (max (-0x80000000) (min signed 0x7fffffff)))
  else none

/-- The number before a percent sign. It is stored as a fraction in binary32; scaled back it is cut
to six digits, which takes away the noise of the two roundings. -/
def percent (n : Numeral) : Float32 :=
  sixDigits (narrow (n.value / 100) * 100)

end Numeral

def startsDigit : List Char → Bool
  | c :: _ => c.isDigit
  | [] => false

def readDigits (cs : List Char) : List Nat × List Char :=
  ((cs.takeWhile Char.isDigit).map (·.toNat - 48), cs.dropWhile Char.isDigit)

def readSign : List Char → Bool × List Char
  | '-' :: cs => (true, cs)
  | '+' :: cs => (false, cs)
  | cs => (false, cs)

def readFraction : List Char → List Nat × List Char
  | '.' :: cs => if startsDigit cs then readDigits cs else ([], '.' :: cs)
  | cs => ([], cs)

def readExponent : List Char → Option Int × List Char
  | [] => (none, [])
  | c :: cs =>
    let sign := readSign cs
    if (c = 'e' ∨ c = 'E') ∧ startsDigit sign.2 then
      let digits := readDigits sign.2
      let magnitude : Int := ofDigits digits.1
      (some (if sign.1 then -magnitude else magnitude), digits.2)
    else (none, c :: cs)

def readNumeral? (cs : List Char) : Option (Numeral × List Char) :=
  let sign := readSign cs
  let whole := readDigits sign.2
  let fraction := readFraction whole.2
  if whole.1 = [] ∧ fraction.1 = [] then none
  else
    let exponent := readExponent fraction.2
    some (⟨sign.1, whole.1, fraction.1, exponent.1⟩, exponent.2)

theorem readSign_length (cs : List Char) : (readSign cs).2.length ≤ cs.length := by
  unfold readSign
  split <;> simp

theorem readDigits_length (cs : List Char) :
    (readDigits cs).1.length + (readDigits cs).2.length = cs.length := by
  simp only [readDigits, List.length_map]
  rw [← List.length_append, List.takeWhile_append_dropWhile]

theorem readFraction_length (cs : List Char) :
    (readFraction cs).1.length + (readFraction cs).2.length ≤ cs.length := by
  unfold readFraction
  split
  · rename_i cs
    have := readDigits_length cs
    split
    · simp
      omega
    · simp
  · simp

theorem readExponent_length (cs : List Char) : (readExponent cs).2.length ≤ cs.length := by
  unfold readExponent
  split
  · simp
  · rename_i c cs
    have := readSign_length cs
    have := readDigits_length (readSign cs).2
    dsimp only
    split
    · simp
      omega
    · simp

theorem readNumeral?_length {cs rest : List Char} {n : Numeral}
    (h : readNumeral? cs = some (n, rest)) : rest.length < cs.length := by
  have hs := readSign_length cs
  have hw := readDigits_length (readSign cs).2
  have hf := readFraction_length (readDigits (readSign cs).2).2
  have he := readExponent_length (readFraction (readDigits (readSign cs).2).2).2
  unfold readNumeral? at h
  dsimp only at h
  split at h
  · simp at h
  · rename_i hne
    simp only [Option.some.injEq, Prod.mk.injEq] at h
    obtain ⟨_, rfl⟩ := h
    simp only [← List.length_eq_zero_iff] at hne
    omega

end CssMath.Css

import DeclTree.Binary.Format
import DeclTree.Numeral

/-!
# Floating-point values of numerals

A numeral is read by a fixed rule that rounds at most twice: its digits form a significand of at most 64 bits, digits
that do not fit are dropped, and the significand, rounded to a double, is multiplied or divided once by a power of ten.
The result is within the rounding of those steps of the number that is written, and it is not always the nearest double.
A numeral whose value would be infinite has none.
-/

namespace DeclTree

namespace Numeral

/-- The greatest significand. -/
def significandLimit : Nat := UInt64.size - 1

/-- The greatest power of ten that scales a significand in one operation. -/
def greatestScale : Nat := 308

/-- Append digits of a whole part while they fit; also the number of digits dropped. -/
def absorbWhole : List Digit → Nat → Nat × Nat
  | [], s => (s, 0)
  | d :: rest, s =>
    if s * 10 + d.val ≤ significandLimit then absorbWhole rest (s * 10 + d.val) else (s, rest.length + 1)

/-- Append digits of a fraction while they fit; also the number of digits taken. -/
def absorbFraction : List Digit → Nat → Nat × Nat
  | [], s => (s, 0)
  | d :: rest, s =>
    if s * 10 + d.val ≤ significandLimit then
      let (t, taken) := absorbFraction rest (s * 10 + d.val)
      (t, taken + 1)
    else (s, 0)

/-- The exponent that a numeral writes. -/
def writtenExponent (n : Numeral) : Int :=
  match n.exponent with
  | none => 0
  | some ⟨.minus, e⟩ => -(e : Int)
  | some ⟨_, e⟩ => e

/-- The significand of the numeral and the power of ten that scales it. -/
def scaled (n : Numeral) : Nat × Int :=
  let (s, dropped) := absorbWhole (Digit.ofNat n.whole) 0
  let (s, taken) := absorbFraction n.fraction s
  (s, (dropped : Int) - taken + n.writtenExponent)

/-- The double nearest to a power of ten, as a ratio. -/
def tenPower (n : Nat) : Ratio :=
  Format.double.ratio (Format.double.nearest ⟨Nat.pow 10 n, 1⟩)

/-- A magnitude times a power of ten, unless it is infinite. -/
def scaleUp? (magnitude n : Nat) : Option Nat :=
  if n ≤ greatestScale then
    let product := Format.double.nearest ((Format.double.ratio magnitude).mul (tenPower n))
    if product < Format.double.infinity then some product else none
  else if magnitude = 0 then some 0
  else none

/-- A magnitude divided by a power of ten. -/
def divideBy (magnitude n : Nat) : Nat :=
  Format.double.nearest ((Format.double.ratio magnitude).div (tenPower n))

/-- A magnitude of at most 64 bits scaled down. Past the greatest scale the division is done in two steps, and past
twice that scale nothing is left. -/
def scaleDown (magnitude n : Nat) : Nat :=
  if n ≤ greatestScale then divideBy magnitude n
  else if n ≤ 2 * greatestScale then divideBy (divideBy magnitude greatestScale) (n - greatestScale)
  else 0

/-- The double that the numeral denotes. -/
def toDouble? (n : Numeral) : Option (Binary .double) :=
  let (s, e) := n.scaled
  let start := Format.double.nearest ⟨s, 1⟩
  match e with
  | .ofNat up => (scaleUp? start up).map (Binary.ofMagnitude n.negative)
  | .negSucc down => some (Binary.ofMagnitude n.negative (scaleDown start (down + 1)))

/-- Whether the numeral is an integer that a word of 64 bits holds: signed when it is negative. -/
def fitsWord (n : Numeral) : Bool :=
  n.fraction.isEmpty && n.exponent.isNone && n.whole ≤ (if n.negative then UInt64.size / 2 else UInt64.size - 1)

/-- The single that the numeral denotes. Integers of a word are rounded once, everything else by way of the double; a
finite double may become infinite. -/
def toSingle? (n : Numeral) : Option (Binary .single) :=
  if n.fitsWord then some (Binary.ofMagnitude n.negative (Format.single.nearest ⟨n.whole, 1⟩))
  else n.toDouble?.map (Binary.convert .single)

end Numeral

end DeclTree

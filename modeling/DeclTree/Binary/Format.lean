/-!
# Binary floating-point formats

A value of a binary format is a pattern of bits: a sign, an exponent field and a fraction. A finite magnitude is
`m * 2 ^ q`; patterns of magnitudes are ordered as the magnitudes are, so rounding is stated on them: `Format.nearest`
gives the pattern of the representable magnitude nearest to a ratio, ties to the even significand, and the pattern of
infinity past the largest one. All arithmetic is on natural numbers.
-/

namespace DeclTree

/-- A ratio of natural numbers. -/
structure Ratio where
  num : Nat
  den : Nat

namespace Ratio

/-- The ratio times a power of a base. -/
def scale (r : Ratio) (base : Nat) : Int → Ratio
  | .ofNat n => ⟨r.num * Nat.pow base n, r.den⟩
  | .negSucc n => ⟨r.num, r.den * Nat.pow base (n + 1)⟩

/-- The product of two ratios. -/
def mul (r s : Ratio) : Ratio := ⟨r.num * s.num, r.den * s.den⟩

/-- The quotient of two ratios. -/
def div (r s : Ratio) : Ratio := ⟨r.num * s.den, r.den * s.num⟩

/-- Comparison of positive ratios by cross-multiplication. -/
def lt (r s : Ratio) : Bool := r.num * s.den < s.num * r.den

/-- The greatest `e` with `2 ^ e` at most the ratio, for a positive ratio. -/
def log2 (r : Ratio) : Int :=
  let e : Int := (Nat.log2 r.num : Int) - Nat.log2 r.den
  if r.lt (Ratio.scale ⟨1, 1⟩ 2 e) then e - 1 else e

/-- The nearest natural number; a half goes to the even neighbour. -/
def round (r : Ratio) : Nat :=
  let n := r.num / r.den
  let rest := r.num % r.den
  if 2 * rest < r.den then n
  else if r.den < 2 * rest then n + 1
  else n + n % 2

end Ratio

/-- A binary interchange format, given by the widths of its fields. -/
structure Format where
  fractionBits : Nat
  exponentBits : Nat
deriving DecidableEq

namespace Format

/-- The format of 32 bits. -/
def single : Format := ⟨23, 8⟩

/-- The format of 64 bits. -/
def double : Format := ⟨52, 11⟩

/-- The number of bits of a pattern. -/
def width (f : Format) : Nat := f.fractionBits + f.exponentBits + 1

/-- The exponent of the least positive value. -/
def leastExponent (f : Format) : Int := 2 - Nat.pow 2 (f.exponentBits - 1) - f.fractionBits

/-- The pattern of positive infinity; the patterns below it are the finite magnitudes. -/
def infinity (f : Format) : Nat := (Nat.pow 2 f.exponentBits - 1) * Nat.pow 2 f.fractionBits

/-- The significand and the exponent of a finite magnitude. -/
def unpack (f : Format) (magnitude : Nat) : Nat × Int :=
  let field := magnitude / Nat.pow 2 f.fractionBits
  if field = 0 then (magnitude, f.leastExponent)
  else (Nat.pow 2 f.fractionBits + magnitude % Nat.pow 2 f.fractionBits, f.leastExponent + field - 1)

/-- The ratio that a finite magnitude denotes. -/
def ratio (f : Format) (magnitude : Nat) : Ratio :=
  let (m, q) := f.unpack magnitude
  Ratio.scale ⟨m, 1⟩ 2 q

/-- The magnitude nearest to a ratio. A significand that rounds up to the next power of two carries into the exponent
field, which is the right pattern. -/
def nearest (f : Format) (r : Ratio) : Nat :=
  if r.num = 0 then 0
  else
    let q := max f.leastExponent (r.log2 - f.fractionBits)
    let m := (r.scale 2 (-q)).round
    min f.infinity ((q - f.leastExponent).toNat * Nat.pow 2 f.fractionBits + m)

end Format

/-- A floating-point value of a format. -/
structure Binary (f : Format) where
  bits : BitVec f.width
deriving DecidableEq

namespace Binary

variable {f : Format}

/-- The value with a sign and a magnitude. -/
def ofMagnitude (negative : Bool) (magnitude : Nat) : Binary f :=
  ⟨BitVec.ofNat f.width (magnitude + if negative then Nat.pow 2 (f.fractionBits + f.exponentBits) else 0)⟩

/-- Whether the sign bit is set. -/
def negative (x : Binary f) : Bool := x.bits.msb

/-- The pattern without the sign bit. -/
def magnitude (x : Binary f) : Nat := x.bits.toNat % Nat.pow 2 (f.fractionBits + f.exponentBits)

/-- Whether the value is a number and not an infinity. -/
def isFinite (x : Binary f) : Bool := x.magnitude < f.infinity

/-- The value nearest to a ratio. -/
def ofRatio (r : Ratio) : Binary f := ofMagnitude false (f.nearest r)

/-- An integer that orders finite values as numbers: both zeros have key zero. -/
def orderKey (x : Binary f) : Int :=
  if x.negative then -(x.magnitude : Int) else x.magnitude

/-- The value of another format nearest to this one; infinities are kept. -/
def convert (g : Format) (x : Binary f) : Binary g :=
  if x.isFinite then ofMagnitude x.negative (g.nearest (f.ratio x.magnitude))
  else ofMagnitude x.negative g.infinity

/-- The name of a value that is not finite. -/
def nonFiniteText (x : Binary f) : String :=
  if x.magnitude = f.infinity then (if x.negative then "-inf" else "inf") else "NaN"

end Binary

end DeclTree

import DeclTree.Binary.Format
import DeclTree.Numeral

/-!
# The shortest decimal of a floating-point value

A finite value is written with the fewest digits that read back as the value: the decimal lies in the interval of
numbers that round to it, ends included when the significand is even. Of two decimals with that number of digits the
one nearer to the value is taken; a tie between them is left to the layout. A layout also says for which decimal
exponents the point is written in place.
-/

namespace DeclTree

/-- Which of two equally near decimals is written. -/
inductive Tie where
  | up
  | even
deriving DecidableEq

/-- How the shortest decimal is laid out. -/
structure FloatLayout where
  /-- The least decimal exponent written with the point in place. -/
  leastPlain : Int
  /-- The greatest decimal exponent written with the point in place. -/
  greatestPlain : Int
  /-- How the sign of a nonnegative exponent is written. -/
  positiveSign : ExponentSign
  tie : Tie

namespace Format

/-- The number of decimal digits of a natural number. -/
def digitCount (n : Nat) : Nat := (Nat.toDigits 10 n).length

/-- The greatest `e` with `10 ^ e` at most the ratio, for a positive ratio. -/
def log10 (r : Ratio) : Int :=
  if r.den ≤ r.num then (digitCount (r.num / r.den) : Int) - 1
  else -(digitCount ((r.den - 1) / r.num) : Int)

/-- The ends of the interval of numbers that round to a positive magnitude, in quarters of its last place. Below a
power of two the neighbour is twice as near. -/
def roundingEnds (f : Format) (magnitude : Nat) : Ratio × Ratio :=
  let (m, q) := f.unpack magnitude
  let below := if m = Nat.pow 2 f.fractionBits ∧ f.leastExponent < q then 1 else 2
  (Ratio.scale ⟨4 * m - below, 1⟩ 2 (q - 2), Ratio.scale ⟨4 * m + 2, 1⟩ 2 (q - 2))

/-- Whether a ratio rounds to a positive magnitude. -/
def roundsTo (f : Format) (magnitude : Nat) (r : Ratio) : Bool :=
  let (low, high) := f.roundingEnds magnitude
  if magnitude % 2 = 0 then !r.lt low && !high.lt r else low.lt r && r.lt high

/-- The multiple of `10 ^ k` that is written for a positive magnitude, if one rounds to it: the neighbour below or the
neighbour above, whichever is nearer. -/
def candidate (f : Format) (tie : Tie) (magnitude : Nat) (k : Int) : Option Nat :=
  let v := f.ratio magnitude
  let onGrid := v.scale 10 (-k)
  let low := onGrid.num / onGrid.den
  let fits (n : Nat) : Bool := f.roundsTo magnitude (Ratio.scale ⟨n, 1⟩ 10 k)
  match fits low, fits (low + 1) with
  | false, false => none
  | true, false => some low
  | false, true => some (low + 1)
  | true, true =>
    let middle : Ratio := ⟨2 * low + 1, 2⟩
    if onGrid.lt middle then some low
    else if middle.lt onGrid then some (low + 1)
    else match tie with
      | .up => some (low + 1)
      | .even => some (low + low % 2)

/-- The most digits that a value of either format needs. -/
def mostDigits : Nat := 17

/-- The shortest decimal `n * 10 ^ k` of a positive magnitude, searched from one digit upward. -/
def shortest (f : Format) (tie : Tie) (magnitude : Nat) : Nat × Int :=
  let e := log10 (f.ratio magnitude)
  ((List.range mostDigits).findSome? fun (extra : Nat) =>
    (f.candidate tie magnitude (e - extra)).map fun n => (n, e - extra)).getD (0, 0)

end Format

/-- The digits without the zeros at their end. -/
def Digit.trimZeros (digits : List Digit) : List Digit :=
  (digits.reverse.dropWhile (· == 0)).reverse

namespace FloatLayout

/-- Lay out the decimal `d₀.d₁d₂… * 10 ^ e` as a numeral. -/
def numeral (layout : FloatLayout) (negative : Bool) (digits : List Digit) (e : Int) : Numeral :=
  if layout.leastPlain ≤ e ∧ e ≤ layout.greatestPlain then
    match e with
    | .ofNat n =>
      let fraction := digits.drop (n + 1)
      ⟨negative, Digit.value (digits.take (n + 1) ++ List.replicate (n + 1 - digits.length) 0),
        if fraction.isEmpty then [0] else fraction, none⟩
    | .negSucc n => ⟨negative, 0, List.replicate n 0 ++ digits, none⟩
  else
    ⟨negative, Digit.value (digits.take 1), digits.drop 1,
      some ⟨if e < 0 then .minus else layout.positiveSign, e.natAbs⟩⟩

end FloatLayout

namespace Binary

variable {f : Format}

/-- The numeral that writes a finite value. -/
def numeral (layout : FloatLayout) (x : Binary f) : Numeral :=
  if x.magnitude = 0 then layout.numeral x.negative [0] 0
  else
    let (n, k) := f.shortest layout.tie x.magnitude
    layout.numeral x.negative (Digit.trimZeros (Digit.ofNat n)) (k + Format.digitCount n - 1)

end Binary

end DeclTree

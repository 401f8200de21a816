/-!
# Decimal numerals

A numeral is a number as it is written: a sign, a whole part without leading zeros, the digits of a fraction, and an
exponent. It keeps what the width that reads it needs (the digits, not a rounded value), and it is what the shortest
decimal of a floating-point value is laid out as.
-/

namespace DeclTree

/-- A decimal digit. -/
abbrev Digit := Fin 10

/-- The character that writes a digit. -/
def Digit.char (d : Digit) : Char := Nat.digitChar d.val

/-- The digit that a character writes. -/
def Digit.ofChar? (c : Char) : Option Digit :=
  if h : '0' ≤ c ∧ c ≤ '9' then some ⟨c.toNat - 48, by
    have : c.toNat ≤ 57 := h.2
    omega⟩ else none

/-- The number that a row of digits denotes, most significant digit first. -/
def Digit.value (digits : List Digit) : Nat :=
  digits.foldl (fun n d => n * 10 + d.val) 0

/-- The digits of a number, most significant first, without leading zeros; zero has one digit. -/
def Digit.ofNat (n : Nat) : List Digit :=
  (Nat.toDigits 10 n).filterMap Digit.ofChar?

/-- How the sign of an exponent is written. -/
inductive ExponentSign where
  | unsigned
  | plus
  | minus
deriving DecidableEq

/-- The power of ten that scales a numeral. -/
structure Exponent where
  sign : ExponentSign
  magnitude : Nat
deriving DecidableEq

/-- A number as it is written in decimal; an empty fraction is one that is not written. -/
structure Numeral where
  negative : Bool
  whole : Nat
  fraction : List Digit
  exponent : Option Exponent
deriving DecidableEq

namespace ExponentSign

/-- The characters of the sign. -/
def text : ExponentSign → String
  | unsigned => ""
  | plus => "+"
  | minus => "-"

end ExponentSign

namespace Numeral

/-- The numeral of a natural number. -/
def ofNat (n : Nat) : Numeral := ⟨false, n, [], none⟩

/-- The numeral of an integer. -/
def ofInt (n : Int) : Numeral := ⟨n < 0, n.natAbs, [], none⟩

/-- The numeral as it is written. -/
def text (n : Numeral) : String :=
  (if n.negative then "-" else "") ++ toString n.whole
    ++ (if n.fraction.isEmpty then "" else "." ++ String.ofList (n.fraction.map Digit.char))
    ++ (match n.exponent with
      | none => ""
      | some e => "e" ++ e.sign.text ++ toString e.magnitude)

/-- The leading digits of a text and what follows them. -/
def spanDigits : List Char → List Digit × List Char
  | [] => ([], [])
  | c :: rest =>
    match Digit.ofChar? c with
    | some d => let (digits, tail) := spanDigits rest; (d :: digits, tail)
    | none => ([], c :: rest)

/-- The whole part: a zero that stands alone, or digits that do not start with a zero. -/
def readWhole? (chars : List Char) : Option (Nat × List Char) :=
  match spanDigits chars with
  | ([], _) => none
  | (0 :: _ :: _, _) => none
  | (digits, rest) => some (Digit.value digits, rest)

/-- The fraction: absent, or a point with at least one digit. -/
def readFraction? : List Char → Option (List Digit × List Char)
  | '.' :: rest =>
    match spanDigits rest with
    | ([], _) => none
    | (digits, tail) => some (digits, tail)
  | chars => some ([], chars)

/-- The sign of an exponent, if it has one. -/
def readExponentSign : List Char → ExponentSign × List Char
  | '+' :: rest => (.plus, rest)
  | '-' :: rest => (.minus, rest)
  | chars => (.unsigned, chars)

/-- The exponent, which ends the numeral: absent, or a mark with a sign and at least one digit. -/
def readExponent? : List Char → Option (Option Exponent)
  | [] => some none
  | mark :: rest =>
    if mark = 'e' ∨ mark = 'E' then
      let (sign, chars) := readExponentSign rest
      match spanDigits chars with
      | ([], _) => none
      | (digits, []) => some (some ⟨sign, Digit.value digits⟩)
      | (_, _ :: _) => none
    else none

/-- The sign of a numeral, if it has one. -/
def readSign : List Char → Bool × List Char
  | '-' :: rest => (true, rest)
  | chars => (false, chars)

/-- The numeral that a whole text writes. -/
def ofChars? (chars : List Char) : Option Numeral := do
  let (negative, chars) := readSign chars
  let (whole, chars) ← readWhole? chars
  let (fraction, chars) ← readFraction? chars
  let exponent ← readExponent? chars
  return ⟨negative, whole, fraction, exponent⟩

/-- The integer that the numeral denotes when it has neither fraction nor exponent. A negative zero is none: it keeps
its sign only as a floating-point number. -/
def toInt? (n : Numeral) : Option Int :=
  if n.fraction.isEmpty ∧ n.exponent.isNone ∧ ¬(n.negative ∧ n.whole = 0) then
    some (if n.negative then -(n.whole : Int) else n.whole)
  else none

end Numeral

end DeclTree

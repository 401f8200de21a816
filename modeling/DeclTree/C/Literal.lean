import DeclTree.Binary.Shortest
import DeclTree.Syntax.Literal

/-!
# C constants

The C text of a literal. Strings and characters are escaped so that the text reads back as the characters; a zero
byte before an octal digit takes three digits, because a shorter escape would take the digit with it. A byte that is
not ASCII is written in octal, so that it stays one byte in a text of several bytes per character. The magnitude of the
least 64-bit integer fits no C constant, so it is written as a difference.
-/

namespace DeclTree.C

/-- Floating-point constants have their point in place from `1e-4` up to `1e16`. -/
def floatLayout : FloatLayout := ⟨-4, 15, .unsigned, .up⟩

/-- Whether a character is an octal digit. -/
def isOctalDigit (c : Char) : Bool := '0' ≤ c && c ≤ '7'

/-- The escaped form of a character, given the character that follows it. -/
def escape (c : Char) (next : Option Char) : List Char :=
  match c with
  | '\\' => ['\\', '\\']
  | '\n' => ['\\', 'n']
  | '\t' => ['\\', 't']
  | '\x00' => if next.any isOctalDigit then ['\\', '0', '0', '0'] else ['\\', '0']
  | '\x27' => ['\\', '\x27']
  | '\x22' => ['\\', '\x22']
  | '\r' => ['\\', 'r']
  | c => [c]

/-- The escaped form of a row of characters. -/
def escapeAll : List Char → List Char
  | [] => []
  | c :: rest => escape c rest.head? ++ escapeAll rest

/-- The text of a string constant. -/
def stringText (s : String) : String :=
  String.ofList ('\x22' :: escapeAll s.toList ++ ['\x22'])

/-- The text of a character constant. -/
def charText (byte : UInt8) : String :=
  String.ofList ('\x27' :: (if byte < 128 then escape (Char.ofNat byte.toNat) none
    else '\\' :: Nat.toDigits 8 byte.toNat) ++ ['\x27'])

/-- The text of an integer constant: decimal digits behind an optional minus, and the suffix of its type. -/
def intText (n : Int) (type : Primitive) : String := toString n ++ type.suffix

/-- The text of a literal. -/
def literalText : Literal → String
  | .string s => stringText s
  | .char byte => charText byte
  | .i8 n => intText n.toInt .i8
  | .i16 n => intText n.toInt .i16
  | .i32 n => intText n.toInt .i32
  | .i64 n =>
    if n = Int64.minValue then "(" ++ intText (n.toInt + 1) .i64 ++ " - 1)" else intText n.toInt .i64
  | .u8 n => intText n.toNat .u8
  | .u16 n => intText n.toNat .u16
  | .u32 n => intText n.toNat .u32
  | .u64 n => intText n.toNat .u64
  | .f32 x => (x.numeral floatLayout).text ++ Primitive.f32.suffix
  | .f64 x => (x.numeral floatLayout).text ++ Primitive.f64.suffix

end DeclTree.C

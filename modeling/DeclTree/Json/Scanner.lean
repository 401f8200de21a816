import DeclTree.Json.Value

/-!
# JSON tokens

A text is split into tokens by one pass over its characters. Numbers and words run as far as their characters go and are
judged as a whole. White space is blank, tab, line feed and carriage return; a string holds no control character.
-/

namespace DeclTree.Json

/-- A token of a JSON text. -/
inductive Token where
  | openBracket
  | closeBracket
  | openBrace
  | closeBrace
  | colon
  | comma
  | scalar (value : Json)

/-- The characters of a string read so far, last first. A high surrogate waits for its low half; once half of a pair
stands alone there are no characters. -/
structure StringPart where
  chars : Option (List Char)
  pending : Option Nat

namespace StringPart

/-- The string of which nothing is read. -/
def start : StringPart := ⟨some [], none⟩

/-- Add a character. -/
def push (part : StringPart) (c : Char) : StringPart :=
  if part.pending.isSome then ⟨none, none⟩ else ⟨part.chars.map (c :: ·), none⟩

/-- Add a UTF-16 code unit. -/
def pushUnit (part : StringPart) (unit : Nat) : StringPart :=
  if 0xD800 ≤ unit ∧ unit < 0xDC00 then
    if part.pending.isSome then ⟨none, none⟩ else ⟨part.chars, some unit⟩
  else if 0xDC00 ≤ unit ∧ unit < 0xE000 then
    match part.pending with
    | some high =>
      ⟨part.chars.map (Char.ofNat (0x10000 + (high - 0xD800) * 0x400 + (unit - 0xDC00)) :: ·), none⟩
    | none => ⟨none, none⟩
  else part.push (Char.ofNat unit)

/-- The value of a string that has ended. -/
def finish (part : StringPart) : Json :=
  string (if part.pending.isSome then none else part.chars.map fun chars => String.ofList chars.reverse)

end StringPart

/-- What the characters read so far leave open. -/
inductive Mode where
  | between
  | word (letters : List Char)
  | number (chars : List Char)
  | string (part : StringPart)
  | escape (part : StringPart)
  | unit (part : StringPart) (digits value : Nat)

/-- The state of the scanner: the open token, and the finished ones, last first. -/
structure Scan where
  mode : Mode
  tokens : List Token

/-- The value of a hexadecimal digit. -/
def hexDigit? (c : Char) : Option Nat :=
  if '0' ≤ c ∧ c ≤ '9' then some (c.toNat - 48)
  else if 'a' ≤ c ∧ c ≤ 'f' then some (c.toNat - 87)
  else if 'A' ≤ c ∧ c ≤ 'F' then some (c.toNat - 55)
  else none

/-- The character that an escape of two characters stands for. -/
def simpleEscape? : Char → Option Char
  | '\x22' => some '\x22'
  | '\\' => some '\\'
  | '/' => some '/'
  | 'b' => some '\x08'
  | 'f' => some '\x0c'
  | 'n' => some '\n'
  | 'r' => some '\r'
  | 't' => some '\t'
  | _ => none

/-- Whether a character is white space. -/
def isBlank (c : Char) : Bool := c == ' ' || c == '\t' || c == '\n' || c == '\r'

/-- Whether a character can be part of a number. -/
def isNumberChar (c : Char) : Bool :=
  ('0' ≤ c && c ≤ '9') || c == '+' || c == '-' || c == '.' || c == 'e' || c == 'E'

/-- Whether a character can be part of a word. -/
def isLetter (c : Char) : Bool := 'a' ≤ c && c ≤ 'z'

/-- The value that a word names. -/
def ofWord? (letters : List Char) : Option Json :=
  if letters = ['n', 'u', 'l', 'l'] then some null
  else if letters = ['t', 'r', 'u', 'e'] then some (bool true)
  else if letters = ['f', 'a', 'l', 's', 'e'] then some (bool false)
  else none

/-- The token of a character that is a token by itself. -/
def punctuation? : Char → Option Token
  | '[' => some .openBracket
  | ']' => some .closeBracket
  | '\x7b' => some .openBrace
  | '\x7d' => some .closeBrace
  | ':' => some .colon
  | ',' => some .comma
  | _ => none

namespace Scan

/-- Nothing read. -/
def start : Scan := ⟨.between, []⟩

/-- Close an open number or word; a string does not end this way. -/
def close (scan : Scan) : Option (List Token) :=
  match scan.mode with
  | .between => some scan.tokens
  | .word letters => (ofWord? letters.reverse).map fun value => .scalar value :: scan.tokens
  | .number chars => (Numeral.ofChars? chars.reverse).map fun n => .scalar (.number n) :: scan.tokens
  | .string _ | .escape _ | .unit .. => none

/-- Read a character that no open token takes. -/
def first (tokens : List Token) (c : Char) : Option Scan :=
  if isBlank c then some ⟨.between, tokens⟩
  else if c == '\x22' then some ⟨.string .start, tokens⟩
  else if isLetter c then some ⟨.word [c], tokens⟩
  else if isNumberChar c then some ⟨.number [c], tokens⟩
  else (punctuation? c).map fun token => ⟨.between, token :: tokens⟩

/-- Read a character. -/
def next (scan : Scan) (c : Char) : Option Scan :=
  match scan.mode with
  | .between => first scan.tokens c
  | .word letters =>
    if isLetter c then some { scan with mode := .word (c :: letters) }
    else scan.close.bind fun tokens => first tokens c
  | .number chars =>
    if isNumberChar c then some { scan with mode := .number (c :: chars) }
    else scan.close.bind fun tokens => first tokens c
  | .string part =>
    if c == '\x22' then some ⟨.between, .scalar part.finish :: scan.tokens⟩
    else if c == '\\' then some { scan with mode := .escape part }
    else if c < ' ' then none
    else some { scan with mode := .string (part.push c) }
  | .escape part =>
    if c == 'u' then some { scan with mode := .unit part 0 0 }
    else (simpleEscape? c).map fun e => { scan with mode := .string (part.push e) }
  | .unit part digits value =>
    (hexDigit? c).map fun d =>
      if digits = 3 then { scan with mode := .string (part.pushUnit (value * 16 + d)) }
      else { scan with mode := .unit part (digits + 1) (value * 16 + d) }

end Scan

/-- The tokens of a text. -/
def scan? (chars : List Char) : Option (List Token) := do
  let last ← chars.foldlM Scan.next Scan.start
  let tokens ← last.close
  return tokens.reverse

end DeclTree.Json

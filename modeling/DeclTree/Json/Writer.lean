import DeclTree.Json.Value

/-!
# Writing JSON

The compact form has no white space; the pretty form puts every element and member on a line of its own, two blanks
deeper than the container. Strings escape the quote, the backslash and control characters, and nothing else.
-/

namespace DeclTree.Json

/-- The escaped form of a character of a string. -/
def escape (c : Char) : List Char :=
  match c with
  | '\x22' => ['\\', '\x22']
  | '\\' => ['\\', '\\']
  | '\x08' => ['\\', 'b']
  | '\x0c' => ['\\', 'f']
  | '\n' => ['\\', 'n']
  | '\r' => ['\\', 'r']
  | '\t' => ['\\', 't']
  | c =>
    if c < ' ' then
      ['\\', 'u', '0', '0', Nat.digitChar (c.toNat / 16), Nat.digitChar (c.toNat % 16)]
    else [c]

/-- The text of a string. -/
def stringText (s : String) : String :=
  String.ofList ('\x22' :: s.toList.flatMap escape ++ ['\x22'])

/-- The text of a key or of a string value; what denotes no text is written as the empty string. -/
def optionText (s : Option String) : String := stringText (s.getD "")

mutual

/-- The compact text of a value. -/
def compact : Json → String
  | null => "null"
  | bool value => if value then "true" else "false"
  | number value => value.text
  | string value => optionText value
  | array elements => "[" ++ ",".intercalate (compactElements elements) ++ "]"
  | object members => "\x7b" ++ ",".intercalate (compactMembers members) ++ "\x7d"

/-- The compact texts of elements. -/
def compactElements : List Json → List String
  | [] => []
  | e :: rest => e.compact :: compactElements rest

/-- The compact texts of members. -/
def compactMembers : List (Option String × Json) → List String
  | [] => []
  | (key, value) :: rest => (optionText key ++ ":" ++ value.compact) :: compactMembers rest

end

/-- The start of a line at a level of nesting. -/
def lineStart (level : Nat) : String := "\n" ++ String.ofList (List.replicate (2 * level) ' ')

/-- The text of a container with something in it: each entry on its own line. -/
def linesText (opening closing : String) (level : Nat) (entries : List String) : String :=
  opening ++ ",".intercalate (entries.map (lineStart (level + 1) ++ ·)) ++ lineStart level ++ closing

mutual

/-- The pretty text of a value inside a number of containers. -/
def prettyAt : Json → Nat → String
  | array [], _ => "[]"
  | array (e :: rest), level =>
    linesText "[" "]" level (e.prettyAt (level + 1) :: prettyElements rest (level + 1))
  | object [], _ => "\x7b\x7d"
  | object ((key, value) :: rest), level =>
    linesText "\x7b" "\x7d" level
      ((optionText key ++ ": " ++ value.prettyAt (level + 1)) :: prettyMembers rest (level + 1))
  | null, _ => "null"
  | bool value, _ => if value then "true" else "false"
  | number value, _ => value.text
  | string value, _ => optionText value

/-- The pretty texts of elements. -/
def prettyElements : List Json → Nat → List String
  | [], _ => []
  | e :: rest, level => e.prettyAt level :: prettyElements rest level

/-- The pretty texts of members. -/
def prettyMembers : List (Option String × Json) → Nat → List String
  | [], _ => []
  | (key, value) :: rest, level =>
    (optionText key ++ ": " ++ value.prettyAt level) :: prettyMembers rest level

end

/-- The pretty text of a value. -/
def pretty (value : Json) : String := value.prettyAt 0

end DeclTree.Json

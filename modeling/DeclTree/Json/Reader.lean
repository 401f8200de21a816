import DeclTree.Json.Scanner

/-!
# Reading JSON

The value of a text is put together by one pass over its tokens with a stack of the arrays and objects that are still
open, so that any depth of nesting can be read.
-/

namespace DeclTree.Json

/-- An array or an object that is still open, with what it holds so far, last first. -/
inductive Frame where
  | elements (done : List Json)
  | members (done : List (Option String × Json)) (key : Option String)

/-- What the tokens read so far leave open, above a stack of open containers. -/
inductive Reading where
  /-- A value must follow. -/
  | awaitValue (stack : List Frame)
  /-- A value or the end of the array must follow. -/
  | firstElement (stack : List Frame)
  /-- A comma or the end of the array must follow. -/
  | afterElement (done : List Json) (stack : List Frame)
  /-- A key or the end of the object must follow. -/
  | firstKey (stack : List Frame)
  /-- A key must follow. -/
  | nextKey (done : List (Option String × Json)) (stack : List Frame)
  /-- A colon must follow. -/
  | afterKey (done : List (Option String × Json)) (key : Option String) (stack : List Frame)
  /-- A comma or the end of the object must follow. -/
  | afterMember (done : List (Option String × Json)) (stack : List Frame)
  /-- Nothing may follow. -/
  | finished (value : Json)

namespace Reading

/-- Put a finished value into the innermost open container. -/
def complete (value : Json) : List Frame → Reading
  | [] => finished value
  | .elements done :: stack => afterElement (value :: done) stack
  | .members done key :: stack => afterMember ((key, value) :: done) stack

/-- Read the first token of a value. -/
def beginValue (stack : List Frame) : Token → Option Reading
  | .scalar value => some (complete value stack)
  | .openBracket => some (firstElement stack)
  | .openBrace => some (firstKey stack)
  | .closeBracket | .closeBrace | .colon | .comma => none

/-- Read a token. -/
def next : Reading → Token → Option Reading
  | awaitValue stack, token => beginValue stack token
  | firstElement stack, .closeBracket => some (complete (array []) stack)
  | firstElement stack, token => beginValue (.elements [] :: stack) token
  | afterElement done stack, .comma => some (awaitValue (.elements done :: stack))
  | afterElement done stack, .closeBracket => some (complete (array done.reverse) stack)
  | firstKey stack, .closeBrace => some (complete (object []) stack)
  | firstKey stack, .scalar (.string key) => some (afterKey [] key stack)
  | nextKey done stack, .scalar (.string key) => some (afterKey done key stack)
  | afterKey done key stack, .colon => some (awaitValue (.members done key :: stack))
  | afterMember done stack, .comma => some (nextKey done stack)
  | afterMember done stack, .closeBrace => some (complete (object done.reverse) stack)
  | _, _ => none

/-- The value, if it is complete. -/
def result? : Reading → Option Json
  | finished value => some value
  | _ => none

end Reading

/-- The value of a row of tokens. -/
def ofTokens? (tokens : List Token) : Option Json := do
  let last ← tokens.foldlM Reading.next (Reading.awaitValue [])
  last.result?

/-- The value of a text. -/
def parse? (text : String) : Option Json := do
  let tokens ← scan? text.toList
  ofTokens? tokens

end DeclTree.Json

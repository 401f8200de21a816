import DeclTree.Numeral

/-!
# JSON values

A value as its text has it: numbers keep their digits, objects keep the order and the repetitions of their members. A
string whose escapes name half of a surrogate pair denotes no text; the value keeps that fact, because such a string is
allowed where nobody reads it.
-/

namespace DeclTree

/-- A JSON value; a string or a key that denotes no text is `none`. -/
inductive Json where
  | null
  | bool (value : Bool)
  | number (value : Numeral)
  | string (value : Option String)
  | array (elements : List Json)
  | object (members : List (Option String × Json))

namespace Json

/-- The string value of a text. -/
def ofString (s : String) : Json := string (some s)

/-- The number of a natural number. -/
def ofNat (n : Nat) : Json := number (.ofNat n)

/-- The number of an integer. -/
def ofInt (n : Int) : Json := number (.ofInt n)

/-- The value that may be absent; `null` stands for absence. -/
def ofOption {α : Type} (encode : α → Json) : Option α → Json
  | none => null
  | some a => encode a

/-- The object with given fields. -/
def ofFields (fields : List (String × Json)) : Json :=
  object (fields.map fun (name, value) => (some name, value))

/-- The object with one field, which tells a variant by its name. -/
def tagged (tag : String) (content : Json) : Json := ofFields [(tag, content)]

end Json

end DeclTree

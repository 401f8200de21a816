import DeclTree.Json.Value

/-!
# The shapes that records and variants have in JSON

A record is an object with its fields in any order, or an array of exactly its fields in their declared order. Fields
that the record does not have are passed over, repeated or not; a field that it has must not be repeated. A variant is
an object whose only key names it; a variant without content may also be just its name.
-/

namespace DeclTree.Json

/-- The value of a member of an object. -/
def member? (members : List (Option String × Json)) (name : String) : Option Json :=
  (members.find? fun (key, _) => key == some name).map (·.2)

/-- Whether an object has at most one member of a name. -/
def unrepeated (members : List (Option String × Json)) (name : String) : Bool :=
  (members.filter fun (key, _) => key == some name).length ≤ 1

/-- The values of the fields of a record, in their declared order; a missing one is `none`. -/
def fields? (names : List String) : Json → Option (List (Option Json))
  | object members =>
    if members.all (·.1.isSome) && names.all (unrepeated members) then some (names.map (member? members)) else none
  | array elements => if elements.length = names.length then some (elements.map some) else none
  | _ => none

/-- A field that must be there. -/
def required {α : Type} (decode : Json → Option α) (fields : List (Option Json)) (position : Nat) : Option α :=
  fields[position]?.join.bind decode

/-- A value that may be `null`. -/
def nullable {α : Type} (decode : Json → Option α) : Json → Option (Option α)
  | null => some none
  | value => (decode value).map some

/-- A field that may be missing or `null`. -/
def optional {α : Type} (decode : Json → Option α) (fields : List (Option Json)) (position : Nat) :
    Option (Option α) :=
  match fields[position]?.join with
  | none => some none
  | some value => nullable decode value

/-- The elements of an array of a given length. -/
def tuple? (length : Nat) : Json → Option (List (Option Json))
  | array elements => if elements.length = length then some (elements.map some) else none
  | _ => none

/-- A text. -/
def text? : Json → Option String
  | string value => value
  | _ => none

/-- A truth value. -/
def bool? : Json → Option Bool
  | bool value => some value
  | _ => none

/-- An integer between two bounds, written without fraction and exponent. -/
def int? (least greatest : Int) : Json → Option Int
  | number n => n.toInt?.filter fun v => least ≤ v && v ≤ greatest
  | _ => none

/-- A natural number up to a bound. -/
def nat? (greatest : Nat) (value : Json) : Option Nat := (value.int? 0 greatest).map Int.toNat

/-- A decoder that knows how many arrays and objects may still be opened. -/
abbrev Decoder (α : Type) := Nat → Json → Option α

/-- The element of a list of choices that a name or an object with the name and `null` tells. -/
def choice {α : Type} (key : α → String) (choices : List α) : Decoder α
  | _, string value => value.bind fun name => choices.find? (key · == name)
  | _ + 1, object [(some name, null)] => choices.find? (key · == name)
  | _, _ => none

end DeclTree.Json

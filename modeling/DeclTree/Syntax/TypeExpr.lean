import DeclTree.Primitive
import DeclTree.Span

/-!
# Type expressions

Types as the source writes them. A named type carries a link: the declaration that its name stands for, absent until
the type is resolved. `TypeExpr.text` spells a type as the source language does.
-/

namespace DeclTree

/-- The position of a declaration in the arena of its file. -/
abbrev DeclId := Nat

/-- A named and typed place: a member of a struct or union, or a parameter of a function. -/
structure Slot (τ : Type) where
  name : Ident
  type : τ
  span : Span

/-- What a function takes and gives. -/
structure Signature (τ : Type) where
  params : List (Slot τ)
  result : τ
  span : Span

/-- A type as the source writes it. -/
inductive TypeExpr where
  | primitive (type : Primitive) (span : Span)
  | pointer (base : TypeExpr) (span : Span)
  | nullable (base : TypeExpr) (span : Span)
  | array (element : TypeExpr) (span : Span)
  | named (name : Ident) (link : Option DeclId)
  | function (signature : Signature TypeExpr)

namespace TypeExpr

/-- The place where a type is written. -/
def span : TypeExpr → Span
  | primitive _ s | pointer _ s | nullable _ s | array _ s => s
  | named name _ => name.span
  | function signature => signature.span

mutual

/-- The source spelling of a type. -/
def text : TypeExpr → String
  | primitive p _ => p.keyword
  | pointer base _ => "*" ++ base.text
  | nullable base _ => "?" ++ base.text
  | array element _ => "[]" ++ element.text
  | named name _ => name.name
  | function ⟨params, result, _⟩ => "(" ++ ", ".intercalate (slotTexts params) ++ ") " ++ result.text

/-- The source spellings of parameters. -/
def slotTexts : List (Slot TypeExpr) → List String
  | [] => []
  | ⟨name, type, _⟩ :: rest => (name.name ++ ": " ++ type.text) :: slotTexts rest

end

end TypeExpr

end DeclTree

import DeclTree.Syntax.Declaration

/-!
# Trees written by hand

Short names for the nodes of a tree that was not read from a source text: every span is the one of no place, every
declaration is untouched, and no type is linked.
-/

namespace DeclTree.Node

/-- An identifier. -/
def name (s : String) : Ident := ⟨s, .nowhere⟩

/-- A primitive type. -/
def prim (p : Primitive) : TypeExpr := .primitive p .nowhere

/-- The type of integers. -/
def int : TypeExpr := prim .i32

/-- A named type. -/
def named (s : String) : TypeExpr := .named (name s) none

/-- Slots from names and types. -/
def slots {τ : Type} (pairs : List (String × τ)) : List (Slot τ) :=
  pairs.map fun (s, type) => ⟨name s, type, .nowhere⟩

/-- A declaration. -/
def declare (s : String) (kind : DeclKind) : Declaration := ⟨name s, kind, .nowhere, .untouched⟩

/-- A variable. -/
def mutable (s : String) (type : TypeExpr) (value : Option Expr) : Declaration := declare s (.mutable type value)

/-- A struct. -/
def struct (s : String) (members : List (String × TypeExpr)) : Declaration :=
  declare s (.record .struct (slots members))

/-- A union. -/
def union (s : String) (members : List (String × TypeExpr)) : Declaration :=
  declare s (.record .union (slots members))

/-- A function. -/
def function (s : String) (params : List (String × TypeExpr)) (result : TypeExpr) (body : List Scope) : Declaration :=
  declare s (.constant none (.function ⟨slots params, result, .nowhere⟩ (.block body .nowhere) .nowhere))

/-- An expression that is a name. -/
def ref (s : String) : Expr := .ident (name s)

/-- A literal. -/
def lit (value : Literal) : Expr := .literal value .nowhere

/-- An integer literal. -/
def intLit (value : Int32) : Expr := lit (.i32 value)

/-- A binary operation. -/
def binary (left : Expr) (op : BinaryOp) (right : Expr) : Expr := .binary left op right .nowhere

/-- An assignment. -/
def assign (op : AssignOp) (target value : Expr) : Scope := .statement (.assign op target value .nowhere)

/-- A return statement. -/
def returning (value : Expr) : Scope := .statement (.returning (some value) .nowhere)

/-- A block. -/
def block (scopes : List Scope) : Scope := .block scopes .nowhere

end DeclTree.Node

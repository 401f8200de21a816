import DeclTree.C.Statement

/-!
# Type names in C

Every type name that the text of a C item spells, in the order of the text. A definition of an enumeration counts as a
name with the tag `enum`.
-/

namespace DeclTree.C

mutual

/-- The type names of an expression. -/
def Expr.typeNames : Expr → List TypeName
  | .paren inner => inner.typeNames
  | .unary _ operand => operand.typeNames
  | .binary left _ right => left.typeNames ++ right.typeNames
  | .cast type operand => type :: operand.typeNames
  | .field object _ => object.typeNames
  | .index object position => object.typeNames ++ position.typeNames
  | .call callee arguments => callee.typeNames ++ Expr.listTypeNames arguments
  | .ident _ => []
  | .literal _ => []
  | .bool _ => []
  | .braces elements => Expr.listTypeNames elements

/-- The type names of expressions. -/
def Expr.listTypeNames : List Expr → List TypeName
  | [] => []
  | e :: rest => e.typeNames ++ Expr.listTypeNames rest

end

/-- The type names of an expression that may be absent. -/
def Expr.optionTypeNames : Option Expr → List TypeName
  | none => []
  | some e => e.typeNames

/-- The type names of an extent. -/
def Extent.typeNames : Extent → List TypeName
  | .single => []
  | .unsized => []
  | .sized count => count.typeNames

/-- The type names of a declarator. -/
def Declarator.typeNames (d : Declarator) : List TypeName := d.type :: d.extent.typeNames

/-- The type names of a declaration. -/
def Declaration.typeNames : Declaration → List TypeName
  | .object declarator initial => declarator.typeNames ++ Expr.optionTypeNames initial
  | .enumeration tag _ => [⟨.tagged .enum tag, 0⟩]
  | .record _ _ members => members.flatMap Declarator.typeNames

/-- The type names of a simple statement. -/
def Simple.typeNames : Simple → List TypeName
  | .declaration d => d.typeNames
  | .increment target => target.typeNames
  | .decrement target => target.typeNames
  | .assign target _ value => target.typeNames ++ value.typeNames
  | .expression value => value.typeNames
  | .label _ => []
  | .goto _ => []
  | .returning value => Expr.optionTypeNames value

mutual

/-- The type names of a statement. -/
def Statement.typeNames : Statement → List TypeName
  | .simple statement => statement.typeNames
  | .block body => Statement.listTypeNames body
  | .conditional condition consequent none => condition.typeNames ++ consequent.typeNames
  | .conditional condition consequent (some alternative) =>
    condition.typeNames ++ consequent.typeNames ++ alternative.typeNames
  | .forLoop init condition step body =>
    init.typeNames ++ condition.typeNames ++ step.typeNames ++ body.typeNames
  | .whileLoop condition body => condition.typeNames ++ body.typeNames

/-- The type names of statements. -/
def Statement.listTypeNames : List Statement → List TypeName
  | [] => []
  | s :: rest => s.typeNames ++ Statement.listTypeNames rest

end

/-- The type names of an item. -/
def Item.typeNames : Item → List TypeName
  | .declaration d => d.typeNames
  | .function f => f.result :: f.params.flatMap Declarator.typeNames ++ Statement.listTypeNames f.body

/-- A type that is named with a tag is a struct or a union. -/
def TypeName.TagsRecord (type : TypeName) : Prop :=
  ∀ kind tag, type.base = .tagged kind tag → kind = .struct ∨ kind = .union

end DeclTree.C

import DeclTree.Document.Decode
import DeclTree.Error
import DeclTree.Event

/-!
# Loading a document

A document is the JSON text of a file. Its positions must lie in its arena: those of the items, and those that
declaration statements name anywhere in the initial value of any declaration, reached or not. The first one that does
not is reported, items first and then initial values in arena order, each from left to right.
-/

namespace DeclTree

mutual

/-- The positions that declaration statements in an expression name, from left to right. -/
def Expr.ids : Expr → List DeclId
  | .paren inner _ => inner.ids
  | .unary _ operand _ => operand.ids
  | .binary left _ right _ => left.ids ++ right.ids
  | .cast operand _ _ => operand.ids
  | .field object _ _ => object.ids
  | .index object position _ => object.ids ++ position.ids
  | .function _ body _ => body.ids
  | .call callee arguments _ => callee.ids ++ Expr.listIds arguments
  | .ident _ => []
  | .literal _ _ => []
  | .bool _ _ => []
  | .array none _ elements _ => Expr.listIds elements
  | .array (some count) _ elements _ => count.ids ++ Expr.listIds elements

/-- The positions that declaration statements in expressions name. -/
def Expr.listIds : List Expr → List DeclId
  | [] => []
  | e :: rest => e.ids ++ Expr.listIds rest

/-- The positions that a statement names. The initial value of a declaration is looked at where the arena has it. -/
def Stmt.ids : Stmt → List DeclId
  | .declaration id _ => [id]
  | .increment target _ => target.ids
  | .decrement target _ => target.ids
  | .assign _ target value _ => target.ids ++ value.ids
  | .expr value => value.ids
  | .label _ => []
  | .goto _ => []
  | .returning none _ => []
  | .returning (some value) _ => value.ids

/-- The positions that declaration statements in a scope name. -/
def Scope.ids : Scope → List DeclId
  | .statement stmt => stmt.ids
  | .block scopes _ => Scope.listIds scopes
  | .conditional condition consequent none _ => condition.ids ++ consequent.ids
  | .conditional condition consequent (some alternative) _ => condition.ids ++ consequent.ids ++ alternative.ids
  | .forLoop init condition step body _ => init.ids ++ condition.ids ++ step.ids ++ body.ids
  | .whileLoop condition body _ => condition.ids ++ body.ids
  | .forEach _ iterable body _ => iterable.ids ++ body.ids
  | .matching subject arms _ => subject.ids ++ Scope.armIds arms

/-- The positions that declaration statements in scopes name. -/
def Scope.listIds : List Scope → List DeclId
  | [] => []
  | scope :: rest => scope.ids ++ Scope.listIds rest

/-- The positions that declaration statements in the cases of a match name. -/
def Scope.armIds : List (Arm Scope) → List DeclId
  | [] => []
  | ⟨_, scopes, _⟩ :: rest => Scope.listIds scopes ++ Scope.armIds rest

end

/-- The positions that the initial value of a declaration names. -/
def DeclKind.ids : DeclKind → List DeclId
  | .constant _ value => value.ids
  | .mutable _ (some value) => value.ids
  | .mutable _ none => []
  | .enumeration _ => []
  | .record .. => []
  | .sum _ => []

namespace SourceFile

/-- Every position that a file names, in the order in which they are checked. -/
def ids (file : SourceFile) : List DeclId :=
  file.items ++ file.declarations.flatMap fun d => d.kind.ids

/-- The first position outside the arena, as an error. -/
def rangeError? (file : SourceFile) : Option Error :=
  (file.ids.find? fun id => file.declarations.length ≤ id).map fun id =>
    .outOfRange id file.declarations.length

/-- The file that a text is the document of. -/
def ofDocument (text : String) : Except Error SourceFile :=
  match Document.read? Document.sourceFile text with
  | none => .error .malformed
  | some file =>
    match file.rangeError? with
    | some e => .error e
    | none => .ok file

/-- What is recorded when a file has been loaded. -/
def loadEvent (file : SourceFile) : Event := .loaded file.declarations.length file.items.length

end SourceFile

end DeclTree

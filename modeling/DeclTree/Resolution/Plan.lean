import DeclTree.Error
import DeclTree.Event

/-!
# The plan of a declaration

Resolving a declaration is a list of steps read off its syntax, in the order in which they are carried out: link a type
name, enter or leave a scope, declare a local name, or refuse. The plan does not look at links or marks, and it does
not look outside the declaration; what a step finds is decided when it is carried out. Steps behind a refusal are never
reached.
-/

namespace DeclTree

/-- One step of resolving a declaration. -/
inductive Step where
  /-- Link the next named type of the declaration to what its name stands for. -/
  | link (name : Ident) (reach : Reach)
  /-- Enter a scope. -/
  | enter
  /-- Leave the scope entered last. -/
  | leave
  /-- Bind a local declaration in the current scope and resolve it. -/
  | declare (id : DeclId)
  /-- The name of a declaration must not be among the given ones. -/
  | avoid (names : List String) (id : DeclId) (span : Span)
  /-- Refuse the declaration. -/
  | reject (error : Error)
deriving DecidableEq

/-- The first slot whose name an earlier slot has; `seen` are the names of the slots before. -/
def Slot.firstRepeat? {τ : Type} (seen : List String) : List (Slot τ) → Option (Slot τ)
  | [] => none
  | slot :: rest =>
    if slot.name.name ∈ seen then some slot else firstRepeat? (slot.name.name :: seen) rest

namespace TypeExpr

mutual

/-- The steps of a type that is reached in a given way. Pointers and signatures make everything below them indirect;
arrays store their elements in place. -/
def steps : TypeExpr → Reach → List Step
  | primitive _ _, _ => []
  | pointer base _, _ => base.steps .indirect
  | nullable base _, _ => base.steps .indirect
  | array element _, reach => element.steps reach
  | named name _, reach => [.link name reach]
  | function ⟨params, result, _⟩, _ => slotSteps params .indirect ++ result.steps .indirect

/-- The steps of the types of slots, in order. -/
def slotSteps : List (Slot TypeExpr) → Reach → List Step
  | [], _ => []
  | ⟨_, type, _⟩ :: rest, reach => type.steps reach ++ slotSteps rest reach

end

end TypeExpr

/-- The steps of the types of a signature: parameters first, then the result. -/
def Signature.steps (signature : Signature TypeExpr) : List Step :=
  TypeExpr.slotSteps signature.params .indirect ++ signature.result.steps .indirect

/-- The declaration that a scope consists of, if it is nothing but a declaration statement. -/
def Scope.declared? : Scope → Option (DeclId × Span)
  | .statement (.declaration id span) => some (id, span)
  | _ => none

/-- The checks of a function literal. Parameters have distinct names, and what the outermost scope of the body declares
directly must not have the name of a parameter, because C puts both into one scope. -/
def Signature.checks (signature : Signature TypeExpr) (body : Scope) : List Step :=
  (match Slot.firstRepeat? [] signature.params with
    | some slot => [.reject (.duplicateDeclaration slot.name.name slot.span)]
    | none => [])
  ++ (body.outermost.filterMap Scope.declared?).map fun (id, span) =>
    .avoid (signature.params.map (·.name.name)) id span

mutual

/-- The steps of an expression. The type of a cast comes before its operand, and the element type of an array literal
before its count. -/
def Expr.steps : Expr → List Step
  | .paren inner _ => inner.steps
  | .unary _ operand _ => operand.steps
  | .binary left _ right _ => left.steps ++ right.steps
  | .cast operand type _ => type.steps .byValue ++ operand.steps
  | .field object _ _ => object.steps
  | .index object position _ => object.steps ++ position.steps
  | .function signature body _ =>
    signature.steps ++ signature.checks body ++ [.enter] ++ body.steps ++ [.leave]
  | .call callee arguments _ => callee.steps ++ Expr.listSteps arguments
  | .ident _ => []
  | .literal _ _ => []
  | .bool _ _ => []
  | .array none element elements _ => element.steps .byValue ++ Expr.listSteps elements
  | .array (some count) element elements _ => element.steps .byValue ++ count.steps ++ Expr.listSteps elements

/-- The steps of expressions, in order. -/
def Expr.listSteps : List Expr → List Step
  | [] => []
  | e :: rest => e.steps ++ Expr.listSteps rest

/-- The steps of a statement. -/
def Stmt.steps : Stmt → List Step
  | .declaration id _ => [.declare id]
  | .increment target _ => target.steps
  | .decrement target _ => target.steps
  | .assign _ target value _ => target.steps ++ value.steps
  | .expr value => value.steps
  | .label _ => []
  | .goto _ => []
  | .returning none _ => []
  | .returning (some value) _ => value.steps

/-- The steps of a scope. A block and a for loop have a scope of their own; the branches of a conditional and the body
of a while loop share the scope around them unless they are blocks. -/
def Scope.steps : Scope → List Step
  | .statement stmt => stmt.steps
  | .block scopes _ => [.enter] ++ Scope.listSteps scopes ++ [.leave]
  | .conditional condition consequent none _ => condition.steps ++ consequent.steps
  | .conditional condition consequent (some alternative) _ =>
    condition.steps ++ consequent.steps ++ alternative.steps
  | .forLoop init condition step body _ =>
    [.enter] ++ init.steps ++ condition.steps ++ step.steps ++ body.steps ++ [.leave]
  | .whileLoop condition body _ => condition.steps ++ body.steps
  | .forEach _ _ _ span => [.reject (.unsupported .forEach span)]
  | .matching _ _ span => [.reject (.unsupported .matching span)]

/-- The steps of scopes, in order. -/
def Scope.listSteps : List Scope → List Step
  | [] => []
  | scope :: rest => scope.steps ++ Scope.listSteps rest

end

/-- The steps of a value that may be absent. -/
def Expr.optionSteps : Option Expr → List Step
  | none => []
  | some value => value.steps

/-- The check of the members of a record: they have distinct names. -/
def memberChecks (owner : String) (members : List (Slot TypeExpr)) : List Step :=
  match Slot.firstRepeat? [] members with
  | some slot => [.reject (.duplicateMember owner slot.name.name slot.span)]
  | none => []

/-- The steps of resolving a declaration; enumerations and sums cannot be resolved. -/
def Declaration.plan? (d : Declaration) : Option (List Step) :=
  match d.kind with
  | .constant none value => some value.steps
  | .constant (some type) value => some (type.steps .byValue ++ value.steps)
  | .mutable type value => some (type.steps .byValue ++ Expr.optionSteps value)
  | .record _ members => some (TypeExpr.slotSteps members .byValue ++ memberChecks d.name.name members)
  | .enumeration _ => none
  | .sum _ => none

end DeclTree

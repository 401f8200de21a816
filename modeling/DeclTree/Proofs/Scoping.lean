import DeclTree.Resolution.Plan

/-!
# Lexical scoping

What names stand for, read off the tree alone. The items of a file form its outermost scope and are visible everywhere
in it. A function literal, a block and a for loop open a scope each; the branches of a conditional and the body of a
while loop declare in the scope around them unless they are blocks. A local declaration is visible from its own
statement on, itself included, to the end of its scope.

`nodes` lists what is found in a declaration, every node with the environment that is in force there, and `Reached`
follows declaration statements from the items. A for-each loop or a match is a single node, and enumerations and sums
have none: they are refused as a whole.
-/

namespace DeclTree

/-- The declarations that the open scopes have made so far, innermost scope first. -/
abbrev Env := List (List DeclId)

/-- The environment after declarations in the innermost scope. -/
def Env.declare : Env → List DeclId → Env
  | [], _ => []
  | scope :: outer, ids => (scope ++ ids) :: outer

namespace SourceFile

/-- Whether a declaration has a name. -/
def isNamed (file : SourceFile) (name : String) (id : DeclId) : Bool :=
  (file.decl? id).any fun d => d.name.name = name

/-- A declaration has a name if it is there and that is its name. -/
theorem isNamed_iff {file : SourceFile} {name : String} {id : DeclId} :
    file.isNamed name id = true ↔ ∃ d, file.decl? id = some d ∧ d.name.name = name := by
  rw [isNamed, Option.any_eq_true_iff_get]
  cases file.decl? id <;> simp

/-- The declaration that a name stands for: that of the innermost scope which declares the name. -/
def visible? (file : SourceFile) (env : Env) (name : String) : Option DeclId :=
  env.findSome? fun scope => scope.find? (file.isNamed name)

end SourceFile

/-- What is found in a declaration. -/
inductive LexicalNode where
  /-- A named type, how it is reached, and its link. -/
  | named (name : Ident) (reach : Reach) (link : Option DeclId)
  /-- A declaration statement; the declaration itself is in force there. -/
  | declaration (id : DeclId) (span : Span)
  /-- A function literal. -/
  | function (signature : Signature TypeExpr) (body : Scope)
  /-- A construct that is refused as a whole. -/
  | refused (construct : Construct) (span : Span)

namespace TypeExpr

mutual

/-- The named types of a type that is reached in a given way. -/
def nodes (env : Env) : TypeExpr → Reach → List (Env × LexicalNode)
  | primitive _ _, _ => []
  | pointer base _, _ => base.nodes env .indirect
  | nullable base _, _ => base.nodes env .indirect
  | array element _, reach => element.nodes env reach
  | named name link, reach => [(env, .named name reach link)]
  | function ⟨params, result, _⟩, _ => slotNodes env params .indirect ++ result.nodes env .indirect

/-- The named types of the types of slots. -/
def slotNodes (env : Env) : List (Slot TypeExpr) → Reach → List (Env × LexicalNode)
  | [], _ => []
  | ⟨_, type, _⟩ :: rest, reach => type.nodes env reach ++ slotNodes env rest reach

end

end TypeExpr

/-- The named types of a signature. -/
def Signature.nodes (env : Env) (signature : Signature TypeExpr) : List (Env × LexicalNode) :=
  TypeExpr.slotNodes env signature.params .indirect ++ signature.result.nodes env .indirect

/-- What a statement declares. -/
def Stmt.declares : Stmt → List DeclId
  | .declaration id _ => [id]
  | _ => []

/-- What a scope declares in the scope around it. -/
def Scope.declares : Scope → List DeclId
  | .statement stmt => stmt.declares
  | .conditional _ consequent none _ => consequent.declares
  | .conditional _ consequent (some alternative) _ => consequent.declares ++ alternative.declares
  | .whileLoop _ body _ => body.declares
  | .block .. | .forLoop .. | .forEach .. | .matching .. => []

mutual

/-- The nodes of an expression. -/
def Expr.nodes (env : Env) : Expr → List (Env × LexicalNode)
  | .paren inner _ => inner.nodes env
  | .unary _ operand _ => operand.nodes env
  | .binary left _ right _ => left.nodes env ++ right.nodes env
  | .cast operand type _ => type.nodes env .byValue ++ operand.nodes env
  | .field object _ _ => object.nodes env
  | .index object position _ => object.nodes env ++ position.nodes env
  | .function signature body _ =>
    signature.nodes env ++ [(env, .function signature body)] ++ body.nodes ([] :: env)
  | .call callee arguments _ => callee.nodes env ++ Expr.listNodes env arguments
  | .ident _ => []
  | .literal _ _ => []
  | .bool _ _ => []
  | .array none element elements _ => element.nodes env .byValue ++ Expr.listNodes env elements
  | .array (some count) element elements _ =>
    element.nodes env .byValue ++ count.nodes env ++ Expr.listNodes env elements

/-- The nodes of expressions. -/
def Expr.listNodes (env : Env) : List Expr → List (Env × LexicalNode)
  | [] => []
  | e :: rest => e.nodes env ++ Expr.listNodes env rest

/-- The nodes of a statement. -/
def Stmt.nodes (env : Env) : Stmt → List (Env × LexicalNode)
  | .declaration id span => [(env.declare [id], .declaration id span)]
  | .increment target _ => target.nodes env
  | .decrement target _ => target.nodes env
  | .assign _ target value _ => target.nodes env ++ value.nodes env
  | .expr value => value.nodes env
  | .label _ => []
  | .goto _ => []
  | .returning none _ => []
  | .returning (some value) _ => value.nodes env

/-- The nodes of a scope. -/
def Scope.nodes (env : Env) : Scope → List (Env × LexicalNode)
  | .statement stmt => stmt.nodes env
  | .block scopes _ => Scope.listNodes ([] :: env) scopes
  | .conditional condition consequent none _ => condition.nodes env ++ consequent.nodes env
  | .conditional condition consequent (some alternative) _ =>
    condition.nodes env ++ consequent.nodes env ++ alternative.nodes (env.declare consequent.declares)
  | .forLoop init condition step body _ =>
    init.nodes ([] :: env) ++ condition.nodes (init.declares :: env) ++ step.nodes (init.declares :: env)
      ++ body.nodes ((init.declares ++ step.declares) :: env)
  | .whileLoop condition body _ => condition.nodes env ++ body.nodes env
  | .forEach _ _ _ span => [(env, .refused .forEach span)]
  | .matching _ _ span => [(env, .refused .matching span)]

/-- The nodes of scopes, each of which sees what those before it declare. -/
def Scope.listNodes (env : Env) : List Scope → List (Env × LexicalNode)
  | [] => []
  | scope :: rest => scope.nodes env ++ Scope.listNodes (env.declare scope.declares) rest

end

/-- The nodes of what is declared. -/
def DeclKind.nodes (env : Env) : DeclKind → List (Env × LexicalNode)
  | constant none value => value.nodes env
  | constant (some type) value => type.nodes env .byValue ++ value.nodes env
  | mutable type none => type.nodes env .byValue
  | mutable type (some value) => type.nodes env .byValue ++ value.nodes env
  | record _ members => TypeExpr.slotNodes env members .byValue
  | enumeration _ => []
  | sum _ => []

/-- A declaration is an item, or a declaration statement in a declaration that is reached declares it. The environment
is the one that is in force where it is declared. -/
inductive Reached (file : SourceFile) : Env → DeclId → Prop where
  | item {id : DeclId} (h : id ∈ file.items) : Reached file [file.items] id
  | nested {env inner : Env} {owner id : DeclId} {d : Declaration} {span : Span} (howner : Reached file env owner)
    (hdecl : file.decl? owner = some d) (hnode : (inner, .declaration id span) ∈ d.kind.nodes env) :
    Reached file inner id

namespace Env

/-- Declaring nothing leaves an environment as it is. -/
theorem declare_nil (env : Env) : env.declare [] = env := by
  cases env with
  | nil => rfl
  | cons scope outer => rw [declare, List.append_nil]

/-- Declaring opens no scope. -/
theorem length_declare (env : Env) (ids : List DeclId) : (env.declare ids).length = env.length := by
  cases env with
  | nil => rfl
  | cons scope outer => rfl

/-- Declarations are made one after the other. -/
theorem declare_append (env : Env) (first second : List DeclId) :
    env.declare (first ++ second) = (env.declare first).declare second := by
  cases env with
  | nil => rfl
  | cons scope outer => simp only [declare, List.append_assoc]

end Env

end DeclTree

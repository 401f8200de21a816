import DeclTree.Syntax.Literal
import DeclTree.Syntax.TypeExpr

/-!
# Expressions, statements and scopes

The three kinds of node are mutually recursive: a function literal is an expression with a scope as its body, a scope
holds statements, and a statement holds expressions. A local declaration is not part of the tree around it: its
statement names a declaration of the arena.
-/

namespace DeclTree

/-- An operator in front of its operand. -/
inductive UnaryOp where
  | not
  | bitNot
  | neg
  | deref
  | ref
deriving DecidableEq

/-- An operator between its operands. -/
inductive BinaryOp where
  | and
  | or
  | bitAnd
  | bitOr
  | bitXor
  | eq
  | ne
  | lt
  | gt
  | le
  | ge
  | shl
  | shr
  | add
  | sub
  | mul
  | div
  | mod
deriving DecidableEq

/-- An assignment, plain or combined with an operator. -/
inductive AssignOp where
  | assign
  | and
  | or
  | bitAnd
  | bitOr
  | bitXor
  | shl
  | shr
  | add
  | sub
  | mul
  | div
  | mod
deriving DecidableEq

/-- All unary operators. -/
def UnaryOp.all : List UnaryOp := [.not, .bitNot, .neg, .deref, .ref]

/-- All binary operators. -/
def BinaryOp.all : List BinaryOp :=
  [.and, .or, .bitAnd, .bitOr, .bitXor, .eq, .ne, .lt, .gt, .le, .ge, .shl, .shr, .add, .sub, .mul, .div, .mod]

/-- All assignments. -/
def AssignOp.all : List AssignOp :=
  [.assign, .and, .or, .bitAnd, .bitOr, .bitXor, .shl, .shr, .add, .sub, .mul, .div, .mod]

/-- One case of a match: a name and the scopes that run for it. -/
structure Arm (σ : Type) where
  name : Ident
  scopes : List σ
  span : Span

mutual

/-- An expression. -/
inductive Expr where
  | paren (inner : Expr) (span : Span)
  | unary (op : UnaryOp) (operand : Expr) (span : Span)
  | binary (left : Expr) (op : BinaryOp) (right : Expr) (span : Span)
  | cast (operand : Expr) (type : TypeExpr) (span : Span)
  | field (object : Expr) (name : Ident) (span : Span)
  | index (object : Expr) (position : Expr) (span : Span)
  | function (signature : Signature TypeExpr) (body : Scope) (span : Span)
  | call (callee : Expr) (arguments : List Expr) (span : Span)
  | ident (name : Ident)
  | literal (value : Literal) (span : Span)
  | bool (value : Bool) (span : Span)
  | array (count : Option Expr) (element : TypeExpr) (elements : List Expr) (span : Span)

/-- A statement. -/
inductive Stmt where
  | declaration (id : DeclId) (span : Span)
  | increment (target : Expr) (span : Span)
  | decrement (target : Expr) (span : Span)
  | assign (op : AssignOp) (target : Expr) (value : Expr) (span : Span)
  | expr (value : Expr)
  | label (name : Ident)
  | goto (name : Ident)
  | returning (value : Option Expr) (span : Span)

/-- A unit of control flow. -/
inductive Scope where
  | statement (stmt : Stmt)
  | block (scopes : List Scope) (span : Span)
  | conditional (condition : Expr) (consequent : Scope) (alternative : Option Scope) (span : Span)
  | forLoop (init : Stmt) (condition : Expr) (step : Stmt) (body : Scope) (span : Span)
  | whileLoop (condition : Expr) (body : Scope) (span : Span)
  | forEach (element : Ident) (iterable : Expr) (body : Scope) (span : Span)
  | matching (subject : Expr) (arms : List (Arm Scope)) (span : Span)

end

/-- The place where an expression is written. -/
def Expr.span : Expr → Span
  | .paren _ s | .unary _ _ s | .binary _ _ _ s | .cast _ _ s | .field _ _ s | .index _ _ s => s
  | .function _ _ s | .call _ _ s | .literal _ s | .bool _ s | .array _ _ _ s => s
  | .ident name => name.span

/-- The place where a statement is written. -/
def Stmt.span : Stmt → Span
  | .declaration _ s | .increment _ s | .decrement _ s | .assign _ _ _ s | .returning _ s => s
  | .expr value => value.span
  | .label name | .goto name => name.span

/-- The place where a scope is written. -/
def Scope.span : Scope → Span
  | .statement stmt => stmt.span
  | .block _ s | .conditional _ _ _ s | .forLoop _ _ _ _ s | .whileLoop _ _ s => s
  | .forEach _ _ _ s | .matching _ _ s => s

/-- The scopes that stand directly in a function's body: those of a block, or the one that is its whole body. -/
def Scope.outermost : Scope → List Scope
  | .block scopes _ => scopes
  | single => [single]

end DeclTree

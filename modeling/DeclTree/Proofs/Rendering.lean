import DeclTree.Document.Validate
import DeclTree.Lowering.Unit
import DeclTree.Resolution.Links

/-!
# What the C text is written from

The text of a file is written from fragments of it: declarations, declarators, types, expressions, statements and
scopes. `Fragment.parts` lists the fragments that one fragment is directly written from, in order; what C cannot say has
no parts. A fragment may be an obstacle by itself, and lowering it fails with the first obstacle that is met in it and
then in its parts. So the file has a text exactly if no fragment that is rendered is an obstacle.
-/

namespace Except

variable {ε α β γ : Type}

/-- What a computation fails with. -/
def failure? : Except ε α → Option ε
  | .ok _ => none
  | .error e => some e

/-- A value is no failure. -/
@[simp] theorem failure?_ok (value : α) : (ok value : Except ε α).failure? = none := rfl

/-- An error is the failure. -/
@[simp] theorem failure?_error (e : ε) : (error e : Except ε α).failure? = some e := rfl

/-- A sequence goes on with a value. -/
theorem ok_bind (value : α) (next : α → Except ε β) : (ok value >>= next) = next value := rfl

/-- Returning a value does not fail. -/
@[simp] theorem failure?_pure (value : α) : (pure value : Except ε α).failure? = none := rfl

/-- Throwing an error fails with it. -/
@[simp] theorem failure?_throw (e : ε) : (throw e : Except ε α).failure? = some e := rfl

/-- Changing the value of a result does not change how it fails. -/
@[simp] theorem failure?_map (result : Except ε α) (change : α → β) :
    (result.map change).failure? = result.failure? := by
  cases result <;> rfl

/-- A sequence fails with what its first part fails with, and otherwise with what the rest fails with. -/
theorem failure?_bind (result : Except ε α) (next : α → Except ε β) {rest : Option ε}
    (hnext : ∀ value, (next value).failure? = rest) :
    (result >>= next).failure? = result.failure?.or rest := by
  cases result with
  | error e => rfl
  | ok value => exact hnext value

/-- Mapping over a result does not change how it fails. -/
@[simp] theorem failure?_functor_map (result : Except ε α) (make : α → β) :
    (make <$> result).failure? = result.failure? := by
  cases result <;> rfl

/-- Two results that are put together fail with the first failure of the two. -/
@[simp] theorem failure?_bind_map (first : Except ε α) (second : Except ε β) (make : α → β → γ) :
    (first >>= fun a => make a <$> second).failure? = first.failure?.or second.failure? :=
  failure?_bind first _ fun _ => failure?_functor_map second _

/-- Two results that are put together step by step fail with the first failure of the two. -/
theorem failure?_bind_bind_pure (first : Except ε α) (second : Except ε β) (make : α → β → γ) :
    (first >>= fun a => second >>= fun b => pure (make a b)).failure? = first.failure?.or second.failure? :=
  failure?_bind_map first second make

/-- A result without a failure is a value. -/
theorem failure?_eq_none_iff {result : Except ε α} : result.failure? = none ↔ ∃ value, result = .ok value := by
  cases result <;> simp

/-- The failure of a result is its error. -/
theorem failure?_eq_some_iff {result : Except ε α} {e : ε} : result.failure? = some e ↔ result = .error e := by
  cases result <;> simp

end Except

namespace DeclTree

namespace Lowering

/-- A declaration that is not a function is lowered as any declaration is, also as an item. -/
theorem item_snd (file : SourceFile) {d : Declaration} (hfunction : d.isFunction = false) :
    (item file d).2 = (declaration file d).map C.Item.declaration := by
  obtain ⟨name, kind, span, mark⟩ := d
  cases kind with
  | constant ascribed value =>
    cases value with
    | function => cases hfunction
    | _ => rfl
  | _ => rfl

/-- The result of lowering a function, apart from the events: parameters, result type and body in order. -/
theorem function_snd (file : SourceFile) (name : String) (ascribed : Option TypeExpr) (signature : Signature TypeExpr)
    (scope : Scope) :
    (function file name ascribed signature scope).2 = (do
      let params ← declarators file signature.params
      let result ← typeName file (resultType ascribed signature)
      return ⟨result, name, params, ← body file scope⟩) := by
  rw [function]
  cases declarators file signature.params <;> rfl

/-- The result of lowering items, apart from the events, goes item by item. -/
theorem items_snd_cons (file : SourceFile) (d : Declaration) (rest : List Declaration) :
    (items file (d :: rest)).2 = (item file d).2 >>= fun lowered => (items file rest).2.map (lowered :: ·) := by
  rw [items]
  generalize item file d = outcome
  obtain ⟨events, _ | lowered⟩ := outcome <;> rfl

end Lowering

open Lowering

/-- A fragment of a file that C text is written from. A declarator comes with the count that the initial value of what
it declares spells out. -/
inductive Fragment where
  | declaration (d : Declaration)
  | declarator (type : TypeExpr) (count : Option Expr)
  | type (type : TypeExpr)
  | expr (e : Expr)
  | stmt (stmt : Stmt)
  | scope (scope : Scope)

/-- What the text of a type is written from. -/
def TypeExpr.parts : TypeExpr → List Fragment
  | .pointer base _ => [.type base]
  | .nullable base _ => [.type base]
  | .array element _ => [.type element]
  | .primitive .. => []
  | .named .. => []
  | .function _ => []

/-- What the declarator of a type is written from. -/
def TypeExpr.declaratorParts : TypeExpr → Option Expr → List Fragment
  | .array (.array ..) _, _ => []
  | .array element _, count => count.toList.map .expr ++ [.type element]
  | type, _ => [.type type]

/-- What the text of an expression is written from. The element type and the count of an array literal are not. -/
def Expr.parts : Expr → List Fragment
  | .paren inner _ => [.expr inner]
  | .unary _ operand _ => [.expr operand]
  | .binary left _ right _ => [.expr left, .expr right]
  | .cast operand type _ => [.type type, .expr operand]
  | .field object _ _ => [.expr object]
  | .index object position _ => [.expr object, .expr position]
  | .function .. => []
  | .call callee arguments _ => .expr callee :: arguments.map .expr
  | .ident _ => []
  | .literal .. => []
  | .bool .. => []
  | .array _ _ elements _ => elements.map .expr

/-- What the text of a scope is written from. -/
def Scope.parts : Scope → List Fragment
  | .statement stmt => [.stmt stmt]
  | .block scopes _ => scopes.map .scope
  | .conditional condition consequent alternative _ =>
    .expr condition :: .scope consequent :: alternative.toList.map .scope
  | .forLoop init condition step body _ => [.stmt init, .expr condition, .stmt step, .scope body]
  | .whileLoop condition body _ => [.expr condition, .scope body]
  | .forEach .. => []
  | .matching .. => []

/-- What the text of a declaration is written from. A function is written from its parameters, its result type and the
scopes of its body. -/
def DeclKind.parts : DeclKind → List Fragment
  | .constant ascribed (.function signature body _) =>
    signature.params.map (fun slot => .declarator slot.type none)
      ++ .type (resultType ascribed signature) :: body.outermost.map .scope
  | .constant none _ => []
  | .constant (some type) value => [.declarator type (arrayCount value), .expr value]
  | .mutable type value => .declarator type (value.bind arrayCount) :: value.toList.map .expr
  | .record _ members => members.map fun slot => .declarator slot.type none
  | .enumeration _ => []
  | .sum _ => []

/-- What the text of a statement is written from. A declaration statement is written from the declaration that it names,
unless that is a function. -/
def Stmt.parts (file : SourceFile) : Stmt → List Fragment
  | .declaration id _ => (file.decl? id).toList.flatMap fun d => if d.isFunction then [] else [.declaration d]
  | .increment target _ => [.expr target]
  | .decrement target _ => [.expr target]
  | .assign .and .. => []
  | .assign .or .. => []
  | .assign _ target value _ => [.expr target, .expr value]
  | .expr value => [.expr value]
  | .label _ => []
  | .goto _ => []
  | .returning value _ => value.toList.map .expr

namespace Fragment

/-- The fragments that the text of a fragment is directly written from, in order. -/
def parts (file : SourceFile) : Fragment → List Fragment
  | declaration d => d.kind.parts
  | declarator t count => t.declaratorParts count
  | type t => t.parts
  | expr e => e.parts
  | stmt s => s.parts file
  | scope s => s.parts

/-- The error with which a fragment stops the work by itself, whatever its parts are. -/
def obstacle? (file : SourceFile) : Fragment → Option Error
  | declaration d =>
    match d.kind with
    | .constant _ (.function ..) => none
    | .constant none _ => some (.missingType d.name.name d.span)
    | .sum members => some (.unsupportedKind (DeclKind.sum members).keyword d.name.name d.span)
    | _ => none
  | declarator (.array (.array element inner) outer) _ =>
    some (.unsupported (.nestedArray (TypeExpr.array (.array element inner) outer).text) inner)
  | declarator .. => none
  | type (.function signature) =>
    some (.unsupported (.functionType (TypeExpr.function signature).text) signature.span)
  | type (.named name link) => (namedType file name link).failure?
  | type _ => none
  | expr (.function _ _ span) => some (.unsupported .functionLiteral span)
  | expr (.literal value span) => (literal value span).failure?
  | expr _ => none
  | stmt (.declaration id span) =>
    match file.decl? id with
    | none => some (.outOfRange id file.declarations.length)
    | some d => if d.isFunction then some (.unsupported (.localFunction d.name.name) span) else none
  | stmt (.assign .and _ _ span) => some (.unsupported .logicalAssignment span)
  | stmt (.assign .or _ _ span) => some (.unsupported .logicalAssignment span)
  | stmt _ => none
  | scope (.forEach _ _ _ span) => some (.unsupported .forEach span)
  | scope (.matching _ _ span) => some (.unsupported .matching span)
  | scope _ => none

/-- The error with which lowering a fragment fails. -/
def failure? (file : SourceFile) : Fragment → Option Error
  | declaration d => (item file d).2.failure?
  | declarator t count => (Lowering.declarator file t "" count).failure?
  | type t => (typeName file t).failure?
  | expr e => (Lowering.expr file e).failure?
  | stmt s => (simple file s).failure?
  | scope s => (statement file s).failure?

section Equations

variable (file : SourceFile)

/-- The first failure in a row is that of the first fragment, or otherwise that of the rest. -/
theorem findSome?_cons_eq_or (first : Fragment) (rest : List Fragment) :
    (first :: rest).findSome? (failure? file) = (first.failure? file).or (rest.findSome? (failure? file)) := by
  rw [List.findSome?_cons]
  cases first.failure? file <;> rfl

/-- Expressions in a row fail with what the first of them fails with that fails. -/
theorem failure?_exprs (es : List Expr) :
    (exprs file es).failure? = (es.map expr).findSome? (failure? file) := by
  induction es with
  | nil => rfl
  | cons e rest ih =>
    rw [exprs, Except.failure?_bind_bind_pure, ih, List.map_cons, findSome?_cons_eq_or]
    rfl

/-- Scopes in a row fail with the first failure of a scope. -/
theorem failure?_statements (scopes : List Scope) :
    (statements file scopes).failure? = (scopes.map scope).findSome? (failure? file) := by
  induction scopes with
  | nil => rfl
  | cons s rest ih =>
    rw [statements, Except.failure?_bind_bind_pure, ih, List.map_cons, findSome?_cons_eq_or]
    rfl

/-- The body of a function fails with the first failure of an outermost scope. -/
theorem failure?_body (s : Scope) :
    (body file s).failure? = (s.outermost.map scope).findSome? (failure? file) := by
  cases s with
  | block scopes _ => exact failure?_statements file scopes
  | _ => simp [body, Scope.outermost, failure?]

/-- The name that is declared plays no part in whether its declarator can be written. -/
theorem failure?_declarator (t : TypeExpr) (name : String) (count : Option Expr) :
    (Lowering.declarator file t name count).failure? = (declarator t count).failure? file := by
  rw [failure?, declarator.eq_def, declarator.eq_def]
  split
  · rfl
  · cases extent file count with
    | error e => rfl
    | ok extent => cases typeName file _ <;> rfl
  · cases typeName file _ <;> rfl

/-- Declarators in a row fail with the first failure of a declarator. -/
theorem failure?_declarators (slots : List (Slot TypeExpr)) :
    (declarators file slots).failure? =
      (slots.map fun slot => declarator slot.type none).findSome? (failure? file) := by
  induction slots with
  | nil => rfl
  | cons slot rest ih =>
    rw [declarators, List.mapM_cons, Except.failure?_bind_bind_pure, failure?_declarator, List.map_cons,
      findSome?_cons_eq_or, ← ih, declarators]

/-- A value that may be absent fails as the value does, if there is one. -/
theorem failure?_optionExpr (value : Option Expr) :
    (optionExpr file value).failure? = (value.toList.map expr).findSome? (failure? file) := by
  cases value with
  | none => rfl
  | some e =>
    rw [optionExpr, Except.failure?_map, Option.toList_some, List.map_singleton, findSome?_cons_eq_or]
    exact (Option.or_none).symm

/-- The extent of an array fails as its count does, if there is one. -/
theorem failure?_extent (count : Option Expr) :
    (extent file count).failure? = (count.toList.map expr).findSome? (failure? file) := by
  cases count with
  | none => rfl
  | some e =>
    rw [extent, Except.failure?_map, Option.toList_some, List.map_singleton, findSome?_cons_eq_or]
    exact (Option.or_none).symm

/-- Lowering a fragment meets the fragment itself first and then its parts in order. -/
def FailsInOrder (f : Fragment) : Prop :=
  f.failure? file = (f.obstacle? file).or ((f.parts file).findSome? (failure? file))

/-- A type fails by itself, or with the first failure of its parts. -/
theorem failsInOrder_type (t : TypeExpr) : FailsInOrder file (type t) := by
  unfold FailsInOrder
  cases t <;> simp [failure?, typeName, obstacle?, parts, TypeExpr.parts]

/-- A declarator fails by itself, or with the first failure of its parts. -/
theorem failsInOrder_declarator (t : TypeExpr) (count : Option Expr) : FailsInOrder file (declarator t count) := by
  unfold FailsInOrder
  cases t with
  | array element outer =>
    cases element with
    | array element inner => rfl
    | _ =>
      simp [failure?, Lowering.declarator, obstacle?, parts, TypeExpr.declaratorParts, failure?_extent]
  | _ => simp [failure?, Lowering.declarator, obstacle?, parts, TypeExpr.declaratorParts]

/-- An expression fails by itself, or with the first failure of its parts. -/
theorem failsInOrder_expr (e : Expr) : FailsInOrder file (expr e) := by
  unfold FailsInOrder
  cases e <;>
    simp [failure?, Lowering.expr, obstacle?, parts, Expr.parts, findSome?_cons_eq_or, failure?_exprs]

/-- A declaration that is not a function fails as a local one does. -/
theorem failure?_declaration {d : Declaration} (hfunction : d.isFunction = false) :
    (declaration d).failure? file = (Lowering.declaration file d).failure? := by
  rw [failure?, item_snd file hfunction, Except.failure?_map]

/-- A function fails with the first failure of its parameters, its result type and its body. -/
theorem failure?_function (name : String) (ascribed : Option TypeExpr) (signature : Signature TypeExpr) (s : Scope) :
    (function file name ascribed signature s).2.failure? =
      (declarators file signature.params).failure?.or
        ((typeName file (resultType ascribed signature)).failure?.or (body file s).failure?) := by
  rw [function_snd]
  exact Except.failure?_bind _ _ fun _ => Except.failure?_bind_bind_pure ..

/-- A declaration fails by itself, or with the first failure of its parts. -/
theorem failsInOrder_declaration (d : Declaration) : FailsInOrder file (declaration d) := by
  unfold FailsInOrder
  obtain ⟨name, kind, span, mark⟩ := d
  cases kind with
  | constant ascribed value =>
    cases value with
    | function signature s =>
      simp [failure?, item, obstacle?, parts, DeclKind.parts, failure?_function, failure?_declarators, failure?_body,
        findSome?_cons_eq_or]
    | _ =>
      rw [failure?_declaration file rfl]
      cases ascribed with
      | none => rfl
      | some t =>
        rw [Lowering.declaration, Except.failure?_bind_bind_pure, failure?_declarator]
        simp [obstacle?, parts, DeclKind.parts, findSome?_cons_eq_or, failure?]
  | mutable t value =>
    rw [failure?_declaration file rfl, Lowering.declaration, Except.failure?_bind_bind_pure, failure?_declarator,
      failure?_optionExpr]
    simp [obstacle?, parts, DeclKind.parts, findSome?_cons_eq_or]
  | enumeration members => rfl
  | record kind members =>
    rw [failure?_declaration file rfl]
    simp [Lowering.declaration, obstacle?, parts, DeclKind.parts, failure?_declarators]
  | sum members => rfl

/-- A statement fails by itself, or with the first failure of its parts. -/
theorem failsInOrder_stmt (s : Stmt) : FailsInOrder file (stmt s) := by
  unfold FailsInOrder
  cases s with
  | declaration id span =>
    rw [failure?, simple, declAt, obstacle?, parts, Stmt.parts]
    cases file.decl? id with
    | none => rfl
    | some d =>
      cases hfunction : d.isFunction with
      | true =>
        simp only [Except.ok_bind, hfunction]
        rfl
      | false => simp [Except.ok_bind, hfunction, failure?_declaration file hfunction]
  | assign op target value span =>
    cases op <;> simp [failure?, simple, assignGlyph?, obstacle?, parts, Stmt.parts, findSome?_cons_eq_or]
  | returning value span => simp [failure?, simple, obstacle?, parts, Stmt.parts, failure?_optionExpr]
  | _ => simp [failure?, simple, obstacle?, parts, Stmt.parts]

/-- A scope fails by itself, or with the first failure of its parts. -/
theorem failsInOrder_scope (s : Scope) : FailsInOrder file (scope s) := by
  unfold FailsInOrder
  cases s with
  | conditional condition consequent alternative span =>
    cases alternative with
    | none => simp [failure?, statement, obstacle?, parts, Scope.parts, findSome?_cons_eq_or]
    | some alternative =>
      rw [failure?, statement, Except.failure?_bind _ _ fun _ => Except.failure?_bind_bind_pure ..]
      simp [failure?, obstacle?, parts, Scope.parts, findSome?_cons_eq_or]
  | forLoop init condition step body span =>
    rw [failure?, statement,
      Except.failure?_bind _ _ fun _ => Except.failure?_bind _ _ fun _ => Except.failure?_bind_bind_pure ..]
    simp [failure?, obstacle?, parts, Scope.parts, findSome?_cons_eq_or]
  | _ => simp [failure?, statement, obstacle?, parts, Scope.parts, findSome?_cons_eq_or, failure?_statements]

/-- Lowering fails with the first obstacle, and only then. -/
theorem failure?_eq : ∀ f : Fragment, f.failure? file = (f.obstacle? file).or ((f.parts file).findSome? (failure? file))
  | declaration d => failsInOrder_declaration file d
  | declarator t count => failsInOrder_declarator file t count
  | type t => failsInOrder_type file t
  | expr e => failsInOrder_expr file e
  | stmt s => failsInOrder_stmt file s
  | scope s => failsInOrder_scope file s

end Equations

/-- The level of a fragment. Statements and scopes are below functions, other declarations are below statements, and
types and expressions are below those. -/
def level : Fragment → Nat
  | declaration d => if d.isFunction then 3 else 1
  | declarator .. => 0
  | type _ => 0
  | expr _ => 0
  | stmt _ => 2
  | scope _ => 2

/-- The size of the syntax of a fragment. -/
noncomputable def size : Fragment → Nat
  | declaration _ => 0
  | declarator t count => 1 + sizeOf t + sizeOf count
  | type t => sizeOf t
  | expr e => sizeOf e
  | stmt s => sizeOf s
  | scope s => sizeOf s

/-- What happens to level and size from a fragment to a part of it. -/
def Below (part f : Fragment) : Prop := part.level < f.level ∨ (part.level = f.level ∧ part.size < f.size)

section Below

/-- The parts of a type are below it. -/
theorem below_typeParts (t : TypeExpr) : ∀ part ∈ t.parts, Below part (type t) := by
  cases t <;> simp [TypeExpr.parts, Below, level, size] <;> omega

/-- The parts of a declarator are below it. -/
theorem below_declaratorParts (t : TypeExpr) (count : Option Expr) :
    ∀ part ∈ t.declaratorParts count, Below part (declarator t count) := by
  rw [TypeExpr.declaratorParts.eq_def]
  split
  · simp
  · cases count <;> simp [Below, level, size] <;> omega
  · simp [Below, level, size]
    omega

/-- The parts of an expression are below it. -/
theorem below_exprParts (e : Expr) : ∀ part ∈ e.parts, Below part (expr e) := by
  cases e with
  | call callee arguments _ =>
    have harguments : ∀ e ∈ arguments, sizeOf e < sizeOf arguments := fun _ h => List.sizeOf_lt_of_mem h
    simp only [Expr.parts, List.forall_mem_cons, List.forall_mem_map]
    exact ⟨.inr ⟨rfl, by simp [size]; omega⟩, fun e h => .inr ⟨rfl, by simp [size]; grind⟩⟩
  | array _ _ elements _ =>
    simp only [Expr.parts, List.forall_mem_map]
    exact fun e h => .inr ⟨rfl, by simp [size]; grind [List.sizeOf_lt_of_mem h]⟩
  | _ => simp [Expr.parts, Below, level, size] <;> omega

/-- The parts of a scope are below it. -/
theorem below_scopeParts (s : Scope) : ∀ part ∈ s.parts, Below part (scope s) := by
  cases s with
  | block scopes _ =>
    simp only [Scope.parts, List.forall_mem_map]
    exact fun s h => .inr ⟨rfl, by simp [size]; grind [List.sizeOf_lt_of_mem h]⟩
  | conditional condition consequent alternative _ =>
    cases alternative <;> simp [Scope.parts, Below, level, size] <;> omega
  | _ => simp [Scope.parts, Below, level, size] <;> omega

/-- The parts of a declaration are below it. -/
theorem below_declParts (d : Declaration) : ∀ part ∈ d.kind.parts, Below part (declaration d) := by
  obtain ⟨name, kind, span, mark⟩ := d
  cases kind with
  | constant ascribed value =>
    cases value with
    | function =>
      simp only [DeclKind.parts, List.forall_mem_append, List.forall_mem_cons, List.forall_mem_map]
      exact ⟨fun _ _ => .inl (Nat.zero_lt_succ 2), .inl (Nat.zero_lt_succ 2), fun _ _ => .inl (Nat.lt_succ_self 2)⟩
    | _ => cases ascribed <;> simp [Declaration.isFunction, DeclKind.isFunction, DeclKind.parts, Below, level]
  | _ => simp [Declaration.isFunction, DeclKind.isFunction, DeclKind.parts, Below, level]

/-- The parts of a statement are below it: a declaration statement is above every declaration that is no function. -/
theorem below_stmtParts (file : SourceFile) (s : Stmt) : ∀ part ∈ s.parts file, Below part (stmt s) := by
  cases s with
  | declaration id span =>
    intro part h
    obtain ⟨d, -, hpart⟩ := List.mem_flatMap.mp h
    cases hfunction : d.isFunction with
    | true => simp [hfunction] at hpart
    | false =>
      obtain rfl : part = declaration d := by simpa [hfunction] using hpart
      exact .inl (by simp [level, hfunction])
  | assign op target value span => cases op <;> simp [Stmt.parts, Below, level]
  | _ => simp [Stmt.parts, Below, level]

end Below

/-- Every part of a fragment is below it. -/
theorem below_of_mem_parts {file : SourceFile} {f part : Fragment} (h : part ∈ f.parts file) : Below part f := by
  cases f with
  | declaration d => exact below_declParts d part h
  | declarator t count => exact below_declaratorParts t count part h
  | type t => exact below_typeParts t part h
  | expr e => exact below_exprParts e part h
  | stmt s => exact below_stmtParts file s part h
  | scope s => exact below_scopeParts s part h

/-- No fragment has an endless row of fragments below it. -/
theorem below_wellFounded : WellFounded Below :=
  Subrelation.wf (r := InvImage (Prod.Lex (· < ·) (· < ·)) fun f : Fragment => (f.level, f.size))
    (fun {part f} h => by
      rcases h with h | ⟨h, hsize⟩
      · exact .left _ _ h
      · exact Prod.lex_def.mpr (.inr ⟨h, hsize⟩))
    (InvImage.wf _ (Prod.lex Nat.lt_wfRel Nat.lt_wfRel).wf)

/-- Whatever positions the statements of a file name, no fragment is below itself: induction from the parts to the
whole. -/
theorem partsInduction (file : SourceFile) {motive : Fragment → Prop}
    (step : ∀ f : Fragment, (∀ part ∈ f.parts file, motive part) → motive f) (f : Fragment) : motive f :=
  below_wellFounded.induction f fun f ih => step f fun part hpart => ih part (below_of_mem_parts hpart)

end Fragment

/-- The fragments that the text of a file is written from: the items, and the parts of what is rendered. -/
inductive Rendered (file : SourceFile) : Fragment → Prop where
  | item {id : DeclId} {d : Declaration} (hitem : id ∈ file.items) (hdecl : file.decl? id = some d) :
    Rendered file (.declaration d)
  | part {f part : Fragment} (hf : Rendered file f) (hpart : part ∈ f.parts file) : Rendered file part

namespace Fragment

/-- Items in a row fail with the first failure of an item. -/
theorem failure?_items (file : SourceFile) (ds : List Declaration) :
    (items file ds).2.failure? = (ds.map declaration).findSome? (failure? file) := by
  induction ds with
  | nil => rfl
  | cons d rest ih =>
    rw [List.map_cons, findSome?_cons_eq_or, ← ih, failure?, items_snd_cons]
    exact Except.failure?_bind _ _ fun _ => Except.failure?_map _ _

/-- Generation fails with the first failure in the order of emission. -/
theorem failure?_generate (file : SourceFile) (banner : Bool) :
    (generate file banner).2.failure? = ((emissionOrder file).map declaration).findSome? (failure? file) := by
  rw [← failure?_items, generate]
  generalize items file (emissionOrder file) = outcome
  obtain ⟨events, _ | lowered⟩ := outcome <;> rfl

/-- What is emitted is the items. -/
theorem mem_emissionOrder {file : SourceFile} {d : Declaration} :
    d ∈ emissionOrder file ↔ ∃ id ∈ file.items, file.decl? id = some d := by
  have hall : d ∈ file.topLevel.map (·.2) ↔ ∃ id ∈ file.items, file.decl? id = some d := by
    simp [SourceFile.topLevel]
  rw [← hall, emissionOrder]
  cases hvariable : d.isVariable <;> simp [hvariable]

/-- What is rendered in a file that has a text can be lowered. -/
theorem failure?_of_rendered {file : SourceFile} {banner : Bool} (htext : (generate file banner).2.failure? = none)
    {f : Fragment} (hf : Rendered file f) : f.failure? file = none := by
  induction hf with
  | item hitem hdecl =>
    rw [failure?_generate, List.findSome?_eq_none_iff] at htext
    exact htext _ (List.mem_map_of_mem (mem_emissionOrder.mpr ⟨_, hitem, hdecl⟩))
  | part _ hpart ih =>
    rw [failure?_eq, Option.or_eq_none_iff, List.findSome?_eq_none_iff] at ih
    exact ih.2 _ hpart

/-- What lowering a rendered fragment fails with is an obstacle that is rendered. -/
theorem exists_obstacle {file : SourceFile} {e : Error} (f : Fragment) (hf : Rendered file f)
    (hfailure : f.failure? file = some e) : ∃ g, Rendered file g ∧ g.obstacle? file = some e := by
  induction f using partsInduction file with
  | step f ih =>
    rw [failure?_eq, Option.or_eq_some_iff] at hfailure
    rcases hfailure with hobstacle | ⟨-, hparts⟩
    · exact ⟨f, hf, hobstacle⟩
    · obtain ⟨part, hpart, hfailure⟩ := List.exists_of_findSome?_eq_some hparts
      exact ih part hpart (hf.part hpart) hfailure

end Fragment

/-- The error of a file that has no text is that of an obstacle that is rendered. -/
theorem exists_obstacle_of_generate {file : SourceFile} {banner : Bool} {e : Error}
    (h : (generate file banner).2 = .error e) : ∃ f, Rendered file f ∧ f.obstacle? file = some e := by
  rw [← Except.failure?_eq_some_iff, Fragment.failure?_generate] at h
  obtain ⟨f, hf, hfailure⟩ := List.exists_of_findSome?_eq_some h
  obtain ⟨d, hd, rfl⟩ := List.mem_map.mp hf
  obtain ⟨id, hitem, hdecl⟩ := Fragment.mem_emissionOrder.mp hd
  exact Fragment.exists_obstacle _ (.item hitem hdecl) hfailure

/-- A file has a text exactly if no fragment that is rendered stops the work. -/
theorem exists_text_iff (file : SourceFile) (banner : Bool) :
    (∃ text, (generate file banner).2 = .ok text) ↔ ∀ f, Rendered file f → f.obstacle? file = none := by
  rw [← Except.failure?_eq_none_iff]
  constructor
  · intro htext f hf
    have hfailure := Fragment.failure?_of_rendered htext hf
    rw [Fragment.failure?_eq, Option.or_eq_none_iff] at hfailure
    exact hfailure.1
  · intro hclear
    cases hfailure : (generate file banner).2.failure? with
    | none => rfl
    | some e =>
      obtain ⟨f, hf, hobstacle⟩ := exists_obstacle_of_generate (Except.failure?_eq_some_iff.mp hfailure)
      rw [hclear f hf] at hobstacle
      cases hobstacle

end DeclTree

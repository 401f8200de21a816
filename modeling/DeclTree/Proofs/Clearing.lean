import DeclTree.Resolution.Links
import DeclTree.Resolution.Plan

/-!
# Trees without links and marks

Resolution writes two things into a file: links of named types and marks of declarations. Clearing a tree removes both,
so that two stages of one resolution are the same file once they are cleared: filling a link does not show in a cleared
tree. What is read off the syntax alone, such as the plan of a declaration, is the same for a tree and for the cleared
tree.
-/

namespace DeclTree

namespace TypeExpr

mutual

/-- The type without links. -/
def cleared : TypeExpr → TypeExpr
  | primitive p s => primitive p s
  | pointer base s => pointer base.cleared s
  | nullable base s => nullable base.cleared s
  | array element s => array element.cleared s
  | named name _ => named name none
  | function ⟨params, result, s⟩ => function ⟨clearedSlots params, result.cleared, s⟩

/-- The slots without links. -/
def clearedSlots : List (Slot TypeExpr) → List (Slot TypeExpr)
  | [] => []
  | ⟨name, type, s⟩ :: rest => ⟨name, type.cleared, s⟩ :: clearedSlots rest

end

end TypeExpr

/-- The signature without links. -/
def Signature.cleared (signature : Signature TypeExpr) : Signature TypeExpr :=
  ⟨TypeExpr.clearedSlots signature.params, signature.result.cleared, signature.span⟩

mutual

/-- The expression without links. -/
def Expr.cleared : Expr → Expr
  | .paren inner s => .paren inner.cleared s
  | .unary op operand s => .unary op operand.cleared s
  | .binary left op right s => .binary left.cleared op right.cleared s
  | .cast operand type s => .cast operand.cleared type.cleared s
  | .field object name s => .field object.cleared name s
  | .index object position s => .index object.cleared position.cleared s
  | .function signature body s => .function signature.cleared body.cleared s
  | .call callee arguments s => .call callee.cleared (Expr.clearedList arguments) s
  | .ident name => .ident name
  | .literal value s => .literal value s
  | .bool value s => .bool value s
  | .array none element elements s => .array none element.cleared (Expr.clearedList elements) s
  | .array (some count) element elements s =>
    .array (some count.cleared) element.cleared (Expr.clearedList elements) s

/-- The expressions without links. -/
def Expr.clearedList : List Expr → List Expr
  | [] => []
  | e :: rest => e.cleared :: Expr.clearedList rest

/-- The statement without links. -/
def Stmt.cleared : Stmt → Stmt
  | .declaration id s => .declaration id s
  | .increment target s => .increment target.cleared s
  | .decrement target s => .decrement target.cleared s
  | .assign op target value s => .assign op target.cleared value.cleared s
  | .expr value => .expr value.cleared
  | .label name => .label name
  | .goto name => .goto name
  | .returning none s => .returning none s
  | .returning (some value) s => .returning (some value.cleared) s

/-- The scope without links. -/
def Scope.cleared : Scope → Scope
  | .statement stmt => .statement stmt.cleared
  | .block scopes s => .block (Scope.clearedList scopes) s
  | .conditional condition consequent none s => .conditional condition.cleared consequent.cleared none s
  | .conditional condition consequent (some alternative) s =>
    .conditional condition.cleared consequent.cleared (some alternative.cleared) s
  | .forLoop init condition step body s =>
    .forLoop init.cleared condition.cleared step.cleared body.cleared s
  | .whileLoop condition body s => .whileLoop condition.cleared body.cleared s
  | .forEach element iterable body s => .forEach element iterable.cleared body.cleared s
  | .matching subject arms s => .matching subject.cleared (Scope.clearedArms arms) s

/-- The scopes without links. -/
def Scope.clearedList : List Scope → List Scope
  | [] => []
  | scope :: rest => scope.cleared :: Scope.clearedList rest

/-- The cases of a match without links. -/
def Scope.clearedArms : List (Arm Scope) → List (Arm Scope)
  | [] => []
  | ⟨name, scopes, s⟩ :: rest => ⟨name, Scope.clearedList scopes, s⟩ :: Scope.clearedArms rest

end

/-- What is declared, without links. -/
def DeclKind.cleared : DeclKind → DeclKind
  | constant none value => constant none value.cleared
  | constant (some type) value => constant (some type.cleared) value.cleared
  | mutable type none => mutable type.cleared none
  | mutable type (some value) => mutable type.cleared (some value.cleared)
  | enumeration members => enumeration members
  | record kind members => record kind (TypeExpr.clearedSlots members)
  | sum members => sum (members.map fun slot => { slot with type := slot.type.map TypeExpr.cleared })

/-- The declaration as a document gives it: without links and untouched. -/
def Declaration.cleared (d : Declaration) : Declaration := { d with kind := d.kind.cleared, mark := .untouched }

/-- The file as a document gives it. -/
def SourceFile.cleared (file : SourceFile) : SourceFile :=
  { file with declarations := file.declarations.map Declaration.cleared }

namespace TypeExpr

mutual

/-- Filling a link does not show in the cleared type. -/
theorem cleared_setLink (target : DeclId) :
    ∀ (type : TypeExpr) (k : Nat), (type.setLink target k).cleared = type.cleared
  | primitive _ _, _ => rfl
  | pointer base _, k => by simp only [setLink, cleared, cleared_setLink target base k]
  | nullable base _, k => by simp only [setLink, cleared, cleared_setLink target base k]
  | array element _, k => by simp only [setLink, cleared, cleared_setLink target element k]
  | named name link, k => rfl
  | function ⟨params, result, s⟩, k => by
    rw [setLink]
    split
    · simp only [cleared, clearedSlots_setSlotLink target params k]
    · simp only [cleared, cleared_setLink target result]

/-- Filling a link does not show in the cleared slots. -/
theorem clearedSlots_setSlotLink (target : DeclId) :
    ∀ (slots : List (Slot TypeExpr)) (k : Nat), clearedSlots (setSlotLink target slots k) = clearedSlots slots
  | [], _ => rfl
  | ⟨name, type, s⟩ :: rest, k => by
    rw [setSlotLink]
    split
    · simp only [clearedSlots, cleared_setLink target type]
    · simp only [clearedSlots, clearedSlots_setSlotLink target rest]

end

mutual

/-- The steps of a type do not look at its links. -/
theorem steps_cleared : ∀ (type : TypeExpr) (reach : Reach), type.cleared.steps reach = type.steps reach
  | primitive _ _, _ => rfl
  | pointer base _, _ => by simp only [cleared, steps, steps_cleared base]
  | nullable base _, _ => by simp only [cleared, steps, steps_cleared base]
  | array element _, _ => by simp only [cleared, steps, steps_cleared element]
  | named _ _, _ => rfl
  | function ⟨params, result, s⟩, _ => by
    simp only [cleared, steps, slotSteps_clearedSlots params, steps_cleared result]

/-- The steps of slots do not look at their links. -/
theorem slotSteps_clearedSlots :
    ∀ (slots : List (Slot TypeExpr)) (reach : Reach), slotSteps (clearedSlots slots) reach = slotSteps slots reach
  | [], _ => rfl
  | ⟨_, type, _⟩ :: rest, _ => by
    simp only [clearedSlots, slotSteps, steps_cleared type, slotSteps_clearedSlots rest]

end

/-- Clearing slots clears the type of each. -/
theorem clearedSlots_eq_map (slots : List (Slot TypeExpr)) :
    clearedSlots slots = slots.map fun slot => { slot with type := slot.type.cleared } := by
  induction slots with
  | nil => rfl
  | cons slot rest ih => rw [clearedSlots, ih, List.map_cons]

end TypeExpr

/-- The first repeated slot is found by names alone. -/
theorem Slot.firstRepeat?_map {τ υ : Type} (change : τ → υ) (seen : List String) (slots : List (Slot τ)) :
    Slot.firstRepeat? seen (slots.map fun slot => ⟨slot.name, change slot.type, slot.span⟩) =
      (Slot.firstRepeat? seen slots).map fun slot => ⟨slot.name, change slot.type, slot.span⟩ := by
  induction slots generalizing seen with
  | nil => rfl
  | cons slot rest ih =>
    simp only [List.map_cons, Slot.firstRepeat?]
    split
    · rfl
    · exact ih _

/-- The checks of members do not look at links. -/
theorem memberChecks_clearedSlots (owner : String) (members : List (Slot TypeExpr)) :
    memberChecks owner (TypeExpr.clearedSlots members) = memberChecks owner members := by
  rw [TypeExpr.clearedSlots_eq_map, memberChecks, Slot.firstRepeat?_map, memberChecks]
  cases Slot.firstRepeat? [] members <;> rfl

namespace Scope

/-- Clearing keeps the declaration that a scope consists of. -/
theorem declared?_cleared (s : Scope) : s.cleared.declared? = s.declared? := by
  cases s with
  | statement stmt =>
    cases stmt with
    | returning value _ => cases value <;> rfl
    | _ => rfl
  | conditional _ _ alternative _ => cases alternative <;> rfl
  | _ => rfl

/-- Clearing scopes clears each of them. -/
theorem clearedList_eq_map (ss : List Scope) : clearedList ss = ss.map cleared := by
  induction ss with
  | nil => rfl
  | cons s rest ih => rw [clearedList, ih, List.map_cons]

/-- Clearing a body clears the scopes that stand directly in it. -/
theorem outermost_cleared (s : Scope) : s.cleared.outermost = s.outermost.map cleared := by
  cases s with
  | block scopes _ => exact clearedList_eq_map scopes
  | conditional _ _ alternative _ => cases alternative <;> rfl
  | _ => rfl

end Scope

namespace Signature

/-- Filling a link does not show in the cleared signature. -/
theorem cleared_setLink (target : DeclId) (signature : Signature TypeExpr) (k : Nat) :
    (signature.setLink target k).cleared = signature.cleared := by
  simp only [setLink, cleared]
  split
  · rw [TypeExpr.clearedSlots_setSlotLink]
  · rw [TypeExpr.cleared_setLink]

/-- The steps of a signature do not look at links. -/
theorem steps_cleared (signature : Signature TypeExpr) : signature.cleared.steps = signature.steps := by
  simp only [steps, cleared, TypeExpr.slotSteps_clearedSlots, TypeExpr.steps_cleared]

/-- The checks of a function literal do not look at links. -/
theorem checks_cleared (signature : Signature TypeExpr) (body : Scope) :
    signature.cleared.checks body.cleared = signature.checks body := by
  have hdeclared : (body.cleared.outermost.filterMap Scope.declared?) =
      body.outermost.filterMap Scope.declared? := by
    rw [Scope.outermost_cleared, List.filterMap_map]
    exact congrArg (body.outermost.filterMap ·) (funext Scope.declared?_cleared)
  have hnames : signature.cleared.params.map (·.name.name) = signature.params.map (·.name.name) := by
    rw [cleared, TypeExpr.clearedSlots_eq_map, List.map_map]
    rfl
  rw [checks, checks, hdeclared, hnames, cleared, TypeExpr.clearedSlots_eq_map, Slot.firstRepeat?_map]
  cases Slot.firstRepeat? [] signature.params <;> rfl

end Signature

mutual

/-- Filling a link does not show in the cleared expression. -/
theorem Expr.cleared_setLink (target : DeclId) : ∀ (e : Expr) (k : Nat), (e.setLink target k).cleared = e.cleared
  | .paren inner _, k => by simp only [Expr.setLink, Expr.cleared, Expr.cleared_setLink target inner k]
  | .unary _ operand _, k => by simp only [Expr.setLink, Expr.cleared, Expr.cleared_setLink target operand k]
  | .binary left _ right _, k => by
    rw [Expr.setLink]
    split
    · simp only [Expr.cleared, Expr.cleared_setLink target left]
    · simp only [Expr.cleared, Expr.cleared_setLink target right]
  | .cast operand type _, k => by
    rw [Expr.setLink]
    split
    · simp only [Expr.cleared, TypeExpr.cleared_setLink]
    · simp only [Expr.cleared, Expr.cleared_setLink target operand]
  | .field object _ _, k => by simp only [Expr.setLink, Expr.cleared, Expr.cleared_setLink target object k]
  | .index object position _, k => by
    rw [Expr.setLink]
    split
    · simp only [Expr.cleared, Expr.cleared_setLink target object]
    · simp only [Expr.cleared, Expr.cleared_setLink target position]
  | .function signature body _, k => by
    rw [Expr.setLink]
    split
    · simp only [Expr.cleared, Signature.cleared_setLink]
    · simp only [Expr.cleared, Scope.cleared_setLink target body]
  | .call callee arguments _, k => by
    rw [Expr.setLink]
    split
    · simp only [Expr.cleared, Expr.cleared_setLink target callee]
    · simp only [Expr.cleared, Expr.clearedList_setListLink target arguments]
  | .ident _, _ => rfl
  | .literal _ _, _ => rfl
  | .bool _ _, _ => rfl
  | .array none element elements _, k => by
    rw [Expr.setLink]
    split
    · simp only [Expr.cleared, TypeExpr.cleared_setLink]
    · simp only [Expr.cleared, Expr.clearedList_setListLink target elements]
  | .array (some count) element elements _, k => by
    rw [Expr.setLink]
    split
    · simp only [Expr.cleared, TypeExpr.cleared_setLink]
    · split
      · simp only [Expr.cleared, Expr.cleared_setLink target count]
      · simp only [Expr.cleared, Expr.clearedList_setListLink target elements]

/-- Filling a link does not show in the cleared expressions. -/
theorem Expr.clearedList_setListLink (target : DeclId) :
    ∀ (es : List Expr) (k : Nat), Expr.clearedList (Expr.setListLink target es k) = Expr.clearedList es
  | [], _ => rfl
  | e :: rest, k => by
    rw [Expr.setListLink]
    split
    · simp only [Expr.clearedList, Expr.cleared_setLink target e]
    · simp only [Expr.clearedList, Expr.clearedList_setListLink target rest]

/-- Filling a link does not show in the cleared statement. -/
theorem Stmt.cleared_setLink (target : DeclId) : ∀ (s : Stmt) (k : Nat), (s.setLink target k).cleared = s.cleared
  | .declaration _ _, _ => rfl
  | .increment e _, k => by simp only [Stmt.setLink, Stmt.cleared, Expr.cleared_setLink target e k]
  | .decrement e _, k => by simp only [Stmt.setLink, Stmt.cleared, Expr.cleared_setLink target e k]
  | .assign _ left value _, k => by
    rw [Stmt.setLink]
    split
    · simp only [Stmt.cleared, Expr.cleared_setLink target left]
    · simp only [Stmt.cleared, Expr.cleared_setLink target value]
  | .expr value, k => by simp only [Stmt.setLink, Stmt.cleared, Expr.cleared_setLink target value k]
  | .label _, _ => rfl
  | .goto _, _ => rfl
  | .returning none _, _ => rfl
  | .returning (some value) _, k => by simp only [Stmt.setLink, Stmt.cleared, Expr.cleared_setLink target value k]

/-- Filling a link does not show in the cleared scope. -/
theorem Scope.cleared_setLink (target : DeclId) :
    ∀ (s : Scope) (k : Nat), (s.setLink target k).cleared = s.cleared
  | .statement stmt, k => by simp only [Scope.setLink, Scope.cleared, Stmt.cleared_setLink target stmt k]
  | .block scopes _, k => by simp only [Scope.setLink, Scope.cleared, Scope.clearedList_setListLink target scopes k]
  | .conditional condition consequent none _, k => by
    rw [Scope.setLink]
    split
    · simp only [Scope.cleared, Expr.cleared_setLink target condition]
    · simp only [Scope.cleared, Scope.cleared_setLink target consequent]
  | .conditional condition consequent (some alternative) _, k => by
    rw [Scope.setLink]
    split
    · simp only [Scope.cleared, Expr.cleared_setLink target condition]
    · split
      · simp only [Scope.cleared, Scope.cleared_setLink target consequent]
      · simp only [Scope.cleared, Scope.cleared_setLink target alternative]
  | .forLoop init condition step body _, k => by
    rw [Scope.setLink]
    split
    · simp only [Scope.cleared, Stmt.cleared_setLink target init]
    · split
      · simp only [Scope.cleared, Expr.cleared_setLink target condition]
      · split
        · simp only [Scope.cleared, Stmt.cleared_setLink target step]
        · simp only [Scope.cleared, Scope.cleared_setLink target body]
  | .whileLoop condition body _, k => by
    rw [Scope.setLink]
    split
    · simp only [Scope.cleared, Expr.cleared_setLink target condition]
    · simp only [Scope.cleared, Scope.cleared_setLink target body]
  | .forEach .., _ => rfl
  | .matching .., _ => rfl

/-- Filling a link does not show in the cleared scopes. -/
theorem Scope.clearedList_setListLink (target : DeclId) :
    ∀ (ss : List Scope) (k : Nat), Scope.clearedList (Scope.setListLink target ss k) = Scope.clearedList ss
  | [], _ => rfl
  | s :: rest, k => by
    rw [Scope.setListLink]
    split
    · simp only [Scope.clearedList, Scope.cleared_setLink target s]
    · simp only [Scope.clearedList, Scope.clearedList_setListLink target rest]

end

mutual

/-- The steps of an expression do not look at its links. -/
theorem Expr.steps_cleared : ∀ e : Expr, e.cleared.steps = e.steps
  | .paren inner _ => by simp only [Expr.cleared, Expr.steps, Expr.steps_cleared inner]
  | .unary _ operand _ => by simp only [Expr.cleared, Expr.steps, Expr.steps_cleared operand]
  | .binary left _ right _ => by
    simp only [Expr.cleared, Expr.steps, Expr.steps_cleared left, Expr.steps_cleared right]
  | .cast operand type _ => by
    simp only [Expr.cleared, Expr.steps, Expr.steps_cleared operand, TypeExpr.steps_cleared]
  | .field object _ _ => by simp only [Expr.cleared, Expr.steps, Expr.steps_cleared object]
  | .index object position _ => by
    simp only [Expr.cleared, Expr.steps, Expr.steps_cleared object, Expr.steps_cleared position]
  | .function signature body _ => by
    simp only [Expr.cleared, Expr.steps, Signature.steps_cleared, Signature.checks_cleared, Scope.steps_cleared body]
  | .call callee arguments _ => by
    simp only [Expr.cleared, Expr.steps, Expr.steps_cleared callee, Expr.listSteps_clearedList arguments]
  | .ident _ => rfl
  | .literal _ _ => rfl
  | .bool _ _ => rfl
  | .array none _ elements _ => by
    simp only [Expr.cleared, Expr.steps, TypeExpr.steps_cleared, Expr.listSteps_clearedList elements]
  | .array (some count) _ elements _ => by
    simp only [Expr.cleared, Expr.steps, TypeExpr.steps_cleared, Expr.steps_cleared count,
      Expr.listSteps_clearedList elements]

/-- The steps of expressions do not look at their links. -/
theorem Expr.listSteps_clearedList : ∀ es : List Expr, Expr.listSteps (Expr.clearedList es) = Expr.listSteps es
  | [] => rfl
  | e :: rest => by
    simp only [Expr.clearedList, Expr.listSteps, Expr.steps_cleared e, Expr.listSteps_clearedList rest]

/-- The steps of a statement do not look at its links. -/
theorem Stmt.steps_cleared : ∀ s : Stmt, s.cleared.steps = s.steps
  | .declaration _ _ => rfl
  | .increment target _ => by simp only [Stmt.cleared, Stmt.steps, Expr.steps_cleared target]
  | .decrement target _ => by simp only [Stmt.cleared, Stmt.steps, Expr.steps_cleared target]
  | .assign _ target value _ => by
    simp only [Stmt.cleared, Stmt.steps, Expr.steps_cleared target, Expr.steps_cleared value]
  | .expr value => by simp only [Stmt.cleared, Stmt.steps, Expr.steps_cleared value]
  | .label _ => rfl
  | .goto _ => rfl
  | .returning none _ => rfl
  | .returning (some value) _ => by simp only [Stmt.cleared, Stmt.steps, Expr.steps_cleared value]

/-- The steps of a scope do not look at its links. -/
theorem Scope.steps_cleared : ∀ s : Scope, s.cleared.steps = s.steps
  | .statement stmt => by simp only [Scope.cleared, Scope.steps, Stmt.steps_cleared stmt]
  | .block scopes _ => by simp only [Scope.cleared, Scope.steps, Scope.listSteps_clearedList scopes]
  | .conditional condition consequent none _ => by
    simp only [Scope.cleared, Scope.steps, Expr.steps_cleared condition, Scope.steps_cleared consequent]
  | .conditional condition consequent (some alternative) _ => by
    simp only [Scope.cleared, Scope.steps, Expr.steps_cleared condition, Scope.steps_cleared consequent,
      Scope.steps_cleared alternative]
  | .forLoop init condition step body _ => by
    simp only [Scope.cleared, Scope.steps, Stmt.steps_cleared init, Expr.steps_cleared condition,
      Stmt.steps_cleared step, Scope.steps_cleared body]
  | .whileLoop condition body _ => by
    simp only [Scope.cleared, Scope.steps, Expr.steps_cleared condition, Scope.steps_cleared body]
  | .forEach .. => rfl
  | .matching .. => rfl

/-- The steps of scopes do not look at their links. -/
theorem Scope.listSteps_clearedList : ∀ ss : List Scope, Scope.listSteps (Scope.clearedList ss) = Scope.listSteps ss
  | [] => rfl
  | s :: rest => by
    simp only [Scope.clearedList, Scope.listSteps, Scope.steps_cleared s, Scope.listSteps_clearedList rest]

end

/-- Filling a link does not show in what is declared once it is cleared. -/
theorem DeclKind.cleared_setLink (target : DeclId) (kind : DeclKind) (k : Nat) :
    (kind.setLink target k).cleared = kind.cleared := by
  cases kind with
  | constant type value =>
    cases type with
    | none => simp only [DeclKind.setLink, DeclKind.cleared, Expr.cleared_setLink]
    | some type =>
      rw [DeclKind.setLink]
      split
      · simp only [DeclKind.cleared, TypeExpr.cleared_setLink]
      · simp only [DeclKind.cleared, Expr.cleared_setLink]
  | mutable type value =>
    cases value with
    | none => simp only [DeclKind.setLink, DeclKind.cleared, TypeExpr.cleared_setLink]
    | some value =>
      rw [DeclKind.setLink]
      split
      · simp only [DeclKind.cleared, TypeExpr.cleared_setLink]
      · simp only [DeclKind.cleared, Expr.cleared_setLink]
  | enumeration members => rfl
  | record kind members => simp only [DeclKind.setLink, DeclKind.cleared, TypeExpr.clearedSlots_setSlotLink]
  | sum members => rfl

namespace Declaration

/-- The plan of a declaration does not look at its links or its mark. -/
theorem plan?_cleared (d : Declaration) : d.cleared.plan? = d.plan? := by
  obtain ⟨name, kind, s, mark⟩ := d
  cases kind with
  | constant type value =>
    cases type <;> simp only [cleared, DeclKind.cleared, plan?, Expr.steps_cleared, TypeExpr.steps_cleared]
  | mutable type value =>
    cases value <;>
      simp only [cleared, DeclKind.cleared, plan?, Expr.optionSteps, Expr.steps_cleared, TypeExpr.steps_cleared]
  | enumeration members => rfl
  | record kind members =>
    simp only [cleared, DeclKind.cleared, plan?, TypeExpr.slotSteps_clearedSlots, memberChecks_clearedSlots]
  | sum members => rfl

/-- Clearing keeps variables variables, and types types. -/
theorem isVariable_cleared (d : Declaration) : d.cleared.isVariable = d.isVariable := by
  obtain ⟨name, kind, s, mark⟩ := d
  cases kind with
  | constant type value => cases type <;> rfl
  | mutable type value => cases value <;> rfl
  | _ => rfl

/-- Clearing keeps functions functions. -/
theorem isFunction_cleared (d : Declaration) : d.cleared.isFunction = d.isFunction := by
  obtain ⟨name, kind, s, mark⟩ := d
  cases kind with
  | constant type value => cases type <;> cases value with
    | array count => cases count <;> rfl
    | _ => rfl
  | mutable type value => cases value <;> rfl
  | _ => rfl

/-- Clearing keeps the keyword of a declaration. -/
theorem keyword_cleared (d : Declaration) : d.cleared.kind.keyword = d.kind.keyword := by
  obtain ⟨name, kind, s, mark⟩ := d
  cases kind with
  | constant type value => cases type <;> rfl
  | mutable type value => cases value <;> rfl
  | _ => rfl

end Declaration

end DeclTree

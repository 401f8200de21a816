import DeclTree.Proofs.Agreement
import DeclTree.Proofs.Calls
import DeclTree.Proofs.Range
import DeclTree.Proofs.Sufficiency
import DeclTree.Proofs.Unlinked

/-!
# Compiling without resolving

A file that was read has no links, so that without resolution every named type that is rendered is reported as
unresolved. Whatever else generation comes to, a text or another error, it comes to after a successful resolution as
well: resolution changes links and marks only, and links are read for named types only. Along the syntax this is kept by
each function of the lowering, with the result without links on one side and the result with links on the other.
-/

namespace DeclTree

open Lowering

variable {hash : String → Nat}

/-- A result without links stands for the result with links unless it reports a type as unresolved. -/
def Decides {α : Type} (without linked : Except Error α) : Prop :=
  (∃ name span, without = .error (.unresolvedType name span)) ∨ linked = without

namespace Decides

variable {α β : Type}

/-- A result decides itself. -/
theorem refl (result : Except Error α) : Decides result result := .inr rfl

/-- Results in sequence decide if each of them does. -/
theorem bind {without linked : Except Error α} {next continuation : α → Except Error β} (h : Decides without linked)
    (hnext : ∀ a, Decides (next a) (continuation a)) : Decides (without >>= next) (linked >>= continuation) := by
  rcases h with ⟨name, span, rfl⟩ | rfl
  · exact .inl ⟨name, span, rfl⟩
  · cases linked with
    | error e => exact .inr rfl
    | ok a => exact hnext a

/-- A change of the value keeps the decision. -/
theorem map {without linked : Except Error α} (h : Decides without linked) (f : α → β) :
    Decides (without.map f) (linked.map f) := by
  rcases h with ⟨name, span, rfl⟩ | rfl
  · exact .inl ⟨name, span, rfl⟩
  · exact .refl _

end Decides

namespace TypeExpr

mutual

/-- The spelling of a type does not show its links. -/
theorem text_cleared : ∀ type : TypeExpr, type.cleared.text = type.text
  | primitive _ _ => rfl
  | pointer base _ => by rw [cleared, text, text, text_cleared base]
  | nullable base _ => by rw [cleared, text, text, text_cleared base]
  | array element _ => by rw [cleared, text, text, text_cleared element]
  | named _ _ => rfl
  | function ⟨params, result, _⟩ => by
    rw [cleared, text, text, slotTexts_clearedSlots params, text_cleared result]

/-- The texts of slots do not depend on links. -/
theorem slotTexts_clearedSlots : ∀ slots : List (Slot TypeExpr), slotTexts (clearedSlots slots) = slotTexts slots
  | [] => rfl
  | ⟨_, type, _⟩ :: rest => by rw [clearedSlots, slotTexts, slotTexts, text_cleared type, slotTexts_clearedSlots rest]

end

end TypeExpr

namespace Lowering

variable (now : SourceFile)

/-- The type name without links is that with links, unless a named type is reported. -/
theorem typeName_decides : ∀ type : TypeExpr, Decides (typeName now.cleared type.cleared) (typeName now type)
  | .primitive _ _ => .refl _
  | .pointer base _ => (typeName_decides base).map _
  | .nullable base _ => (typeName_decides base).map _
  | .array element _ => typeName_decides element
  | .named name _ => .inl ⟨name.name, name.span, rfl⟩
  | .function ⟨params, result, span⟩ => by
    rw [TypeExpr.cleared, typeName, typeName, ← TypeExpr.text_cleared (.function ⟨params, result, span⟩)]
    exact .refl _

mutual

/-- Lowering an expression without links gives the same as with links, unless a named type is reported. -/
theorem expr_decides : ∀ e : Expr, Decides (expr now.cleared e.cleared) (expr now e)
  | .paren inner _ => by
    rw [Expr.cleared, expr, expr]
    exact (expr_decides inner).bind fun _ => .refl _
  | .unary _ operand _ => by
    rw [Expr.cleared, expr, expr]
    exact (expr_decides operand).bind fun _ => .refl _
  | .binary left _ right _ => by
    rw [Expr.cleared, expr, expr]
    exact (expr_decides left).bind fun _ => (expr_decides right).bind fun _ => .refl _
  | .cast operand type _ => by
    rw [Expr.cleared, expr, expr]
    exact (typeName_decides now type).bind fun _ => (expr_decides operand).bind fun _ => .refl _
  | .field object _ _ => by
    rw [Expr.cleared, expr, expr]
    exact (expr_decides object).bind fun _ => .refl _
  | .index object position _ => by
    rw [Expr.cleared, expr, expr]
    exact (expr_decides object).bind fun _ => (expr_decides position).bind fun _ => .refl _
  | .function _ _ _ => .refl _
  | .call callee arguments _ => by
    rw [Expr.cleared, expr, expr]
    exact (expr_decides callee).bind fun _ => (exprs_decides arguments).bind fun _ => .refl _
  | .ident _ => .refl _
  | .literal _ _ => .refl _
  | .bool _ _ => .refl _
  | .array none _ elements _ => by
    rw [Expr.cleared, expr, expr]
    exact (exprs_decides elements).bind fun _ => .refl _
  | .array (some _) _ elements _ => by
    rw [Expr.cleared, expr, expr]
    exact (exprs_decides elements).bind fun _ => .refl _

/-- Lowering expressions in a row without links decides the result with links. -/
theorem exprs_decides : ∀ es : List Expr, Decides (exprs now.cleared (Expr.clearedList es)) (exprs now es)
  | [] => .refl _
  | e :: rest => by
    rw [Expr.clearedList, exprs, exprs]
    exact (expr_decides e).bind fun _ => (exprs_decides rest).bind fun _ => .refl _

end

/-- Lowering a value that may be absent without links decides the result with links. -/
theorem optionExpr_decides (value : Option Expr) :
    Decides (optionExpr now.cleared (value.map Expr.cleared)) (optionExpr now value) := by
  cases value with
  | none => exact .refl _
  | some e => exact (expr_decides now e).map some

/-- The extent of an array without links decides the one with links. -/
theorem extent_decides (count : Option Expr) :
    Decides (extent now.cleared (count.map Expr.cleared)) (extent now count) := by
  cases count with
  | none => exact .refl _
  | some e => exact (expr_decides now e).map C.Extent.sized

/-- Lowering a declarator without links decides the result with links; a nested array is refused in the same words. -/
theorem declarator_decides (type : TypeExpr) (name : String) (count : Option Expr) :
    Decides (declarator now.cleared type.cleared name (count.map Expr.cleared)) (declarator now type name count) := by
  have hsingle (type : TypeExpr) : Decides
      (do return ⟨← typeName now.cleared type.cleared, name, .single⟩ : Except Error C.Declarator)
      (do return ⟨← typeName now type, name, .single⟩) := (typeName_decides now type).bind fun _ => .refl _
  have harray (element : TypeExpr) : Decides
      (do let e ← extent now.cleared (count.map Expr.cleared)
          return ⟨← typeName now.cleared element.cleared, name, e⟩ : Except Error C.Declarator)
      (do let e ← extent now count
          return ⟨← typeName now element, name, e⟩) :=
    (extent_decides now count).bind fun _ => (typeName_decides now element).bind fun _ => .refl _
  cases type with
  | array element outer =>
    cases element with
    | array element inner =>
      rw [TypeExpr.cleared, TypeExpr.cleared, declarator, declarator,
        ← TypeExpr.text_cleared (.array (.array element inner) outer)]
      exact .refl _
    | _ => exact harray _
  | _ => exact hsingle _

/-- Lowering declarators in a row without links decides the result with links. -/
theorem declarators_decides (slots : List (Slot TypeExpr)) :
    Decides (declarators now.cleared (TypeExpr.clearedSlots slots)) (declarators now slots) := by
  induction slots with
  | nil => exact .refl _
  | cons slot rest ih =>
    rw [declarators, declarators] at ih ⊢
    rw [TypeExpr.clearedSlots, List.mapM_cons, List.mapM_cons]
    exact (declarator_decides now slot.type slot.name.name none).bind fun _ => ih.bind fun _ => .refl _

/-- Clearing an initial value clears the count that it spells out. -/
theorem arrayCount_cleared (e : Expr) : arrayCount e.cleared = (arrayCount e).map Expr.cleared := by
  cases e with
  | array count element elements span => cases count <;> rfl
  | _ => rfl

/-- Lowering a declaration without links decides the result with links. -/
theorem declaration_decides (d : Declaration) : Decides (declaration now.cleared d.cleared) (declaration now d) := by
  obtain ⟨name, kind, span, mark⟩ := d
  cases kind with
  | constant ascribed value =>
    cases ascribed with
    | none => exact .refl _
    | some type =>
      have hdeclarator := declarator_decides now type name.name (arrayCount value)
      rw [← arrayCount_cleared] at hdeclarator
      exact hdeclarator.bind fun _ => (expr_decides now value).bind fun _ => .refl _
  | mutable type value =>
    cases value with
    | none => exact (declarator_decides now type name.name none).bind fun _ => .refl _
    | some value =>
      have hdeclarator := declarator_decides now type name.name (arrayCount value)
      rw [← arrayCount_cleared] at hdeclarator
      exact hdeclarator.bind fun _ => (optionExpr_decides now (some value)).bind fun _ => .refl _
  | enumeration members => exact .refl _
  | record kind members => exact (declarators_decides now members).bind fun _ => .refl _
  | sum members => exact .refl _

/-- Lowering a simple statement without links decides the result with links. -/
theorem simple_decides (s : Stmt) : Decides (simple now.cleared s.cleared) (simple now s) := by
  cases s with
  | declaration id span =>
    rw [Stmt.cleared, simple, simple, declAt, declAt, SourceFile.decl?_cleared]
    cases now.decl? id with
    | none =>
      rw [SourceFile.cleared, List.length_map]
      exact .refl _
    | some d =>
      simp only [Option.map_some, Except.ok_bind, d.isFunction_cleared]
      split
      · exact .refl _
      · exact (declaration_decides now d).bind fun _ => .refl _
  | assign op target value span =>
    rw [Stmt.cleared, simple, simple]
    cases assignGlyph? op with
    | none => exact .refl _
    | some glyph => exact (expr_decides now target).bind fun _ => (expr_decides now value).bind fun _ => .refl _
  | returning value span =>
    cases value with
    | none => exact .refl _
    | some value => exact (optionExpr_decides now (some value)).map _
  | increment target => exact (expr_decides now target).map _
  | decrement target => exact (expr_decides now target).map _
  | expr value => exact (expr_decides now value).map _
  | label => exact .refl _
  | goto => exact .refl _

mutual

/-- Lowering a scope without links decides the result with links. -/
theorem statement_decides : ∀ s : Scope, Decides (statement now.cleared s.cleared) (statement now s)
  | .statement stmt => (simple_decides now stmt).map _
  | .block scopes _ => (statements_decides scopes).map _
  | .conditional condition consequent none _ => by
    rw [Scope.cleared, statement, statement]
    exact (expr_decides now condition).bind fun _ => (statement_decides consequent).bind fun _ => .refl _
  | .conditional condition consequent (some alternative) _ => by
    rw [Scope.cleared, statement, statement]
    exact (expr_decides now condition).bind fun _ => (statement_decides consequent).bind fun _ =>
      (statement_decides alternative).bind fun _ => .refl _
  | .forLoop init condition step body _ => by
    rw [Scope.cleared, statement, statement]
    exact (simple_decides now init).bind fun _ => (expr_decides now condition).bind fun _ =>
      (simple_decides now step).bind fun _ => (statement_decides body).bind fun _ => .refl _
  | .whileLoop condition body _ => by
    rw [Scope.cleared, statement, statement]
    exact (expr_decides now condition).bind fun _ => (statement_decides body).bind fun _ => .refl _
  | .forEach _ _ _ _ => .refl _
  | .matching _ _ _ => .refl _

/-- Lowering scopes in a row without links decides the result with links. -/
theorem statements_decides :
    ∀ ss : List Scope, Decides (statements now.cleared (Scope.clearedList ss)) (statements now ss)
  | [] => .refl _
  | s :: rest => by
    rw [Scope.clearedList, statements, statements]
    exact (statement_decides s).bind fun _ => (statements_decides rest).bind fun _ => .refl _

end

/-- Lowering the body of a function without links decides the result with links. -/
theorem body_decides (scope : Scope) : Decides (body now.cleared scope.cleared) (body now scope) := by
  cases scope with
  | block scopes _ => exact statements_decides now scopes
  | conditional _ _ alternative _ => cases alternative <;> exact (statement_decides now _).map _
  | forEach => exact .refl _
  | matching => exact .refl _
  | _ => exact (statement_decides now _).map _

/-- The result type of a function is found alike without links. -/
theorem resultType_cleared (ascribed : Option TypeExpr) (signature : Signature TypeExpr) :
    resultType (ascribed.map TypeExpr.cleared) signature.cleared = (resultType ascribed signature).cleared := by
  cases ascribed with
  | none => rfl
  | some type => cases type <;> rfl

/-- Lowering a function without links decides the result with links. -/
theorem function_decides (name : String) (ascribed : Option TypeExpr) (signature : Signature TypeExpr) (scope : Scope) :
    Decides (function now.cleared name (ascribed.map TypeExpr.cleared) signature.cleared scope.cleared).2
      (function now name ascribed signature scope).2 := by
  rw [function_snd, function_snd, resultType_cleared]
  exact (declarators_decides now signature.params).bind fun _ =>
    (typeName_decides now (resultType ascribed signature)).bind fun _ => (body_decides now scope).bind fun _ => .refl _

/-- Lowering an item without links decides the result with links. -/
theorem item_decides (d : Declaration) : Decides (item now.cleared d.cleared).2 (item now d).2 := by
  cases hfunction : d.isFunction with
  | false =>
    rw [item_snd _ (d.isFunction_cleared.trans hfunction), item_snd _ hfunction]
    exact (declaration_decides now d).map _
  | true =>
    obtain ⟨name, kind, span, mark⟩ := d
    cases kind with
    | constant ascribed value =>
      cases value with
      | function signature scope =>
        have hresult := function_decides now name.name ascribed signature scope
        cases ascribed <;> exact hresult.map _
      | _ => cases hfunction
    | _ => cases hfunction

/-- Lowering items in a row without links decides the result with links. -/
theorem items_decides (ds : List Declaration) :
    Decides (items now.cleared (ds.map Declaration.cleared)).2 (items now ds).2 := by
  induction ds with
  | nil => exact .refl _
  | cons d rest ih =>
    rw [List.map_cons, items_snd_cons, items_snd_cons]
    exact (item_decides now d).bind fun _ => ih.map _

/-- Clearing a file clears what is emitted. -/
theorem emissionOrder_cleared : emissionOrder now.cleared = (emissionOrder now).map Declaration.cleared :=
  emissionOrder_map rfl now.decl?_cleared Declaration.isVariable_cleared

end Lowering

/-- What is generated without links stands for what is generated with links. -/
theorem generate_decides (now : SourceFile) (banner : Bool) :
    Decides (generate now.cleared banner).2 (generate now banner).2 := by
  have hsnd (file : SourceFile) :
      (generate file banner).2 = (items file (emissionOrder file)).2.map (C.unitText banner) := by
    rw [generate]
    generalize items file (emissionOrder file) = outcome
    obtain ⟨events, _ | lowered⟩ := outcome <;> rfl
  rw [hsnd, hsnd, emissionOrder_cleared]
  exact (items_decides now (emissionOrder now)).map _

/-- A file without links in which a named type is rendered has no text. -/
theorem not_rendered_named {file : SourceFile} (hcleared : file.cleared = file) {banner : Bool}
    (htext : ∃ text, (generate file banner).2 = .ok text) (name : Ident) (link : Option DeclId) :
    ¬Rendered file (.type (.named name link)) := by
  intro hrendered
  obtain ⟨d, hd, hlink⟩ := hrendered.names.2 link List.mem_cons_self
  rw [← hcleared] at hd
  obtain ⟨e, -, rfl⟩ := List.mem_map.mp hd
  obtain rfl := e.unlinked_cleared link hlink
  cases (exists_text_iff file banner).mp htext _ hrendered

/-- Skipping resolution changes no outcome that it can decide. Unless the result without resolution reports a type as
unresolved, the result with resolution is the same, or it is the error of resolution. If the result without resolution
is a text, no named type is rendered; if it reports a type as unresolved, that is a named type that is rendered. -/
theorem skipping_resolution_decides (hash : String → Nat) (text : String) (file : SourceFile)
    (haccept : SourceFile.ofDocument text = .ok file) (banner : Bool) :
    ((∀ name span, (compile hash file ⟨false, banner⟩).result ≠ .error (.unresolvedType name span)) →
      (∃ error, (file.resolve hash).2.2 = some error ∧ (compile hash file ⟨true, banner⟩).result = .error error) ∨
        (compile hash file ⟨true, banner⟩).result = (compile hash file ⟨false, banner⟩).result) ∧
    (∀ unit, (compile hash file ⟨false, banner⟩).result = .ok unit →
      ∀ name link, ¬Rendered file (.type (.named name link))) ∧
    ∀ name span, (compile hash file ⟨false, banner⟩).result = .error (.unresolvedType name span) →
      ∃ ident, ident.name = name ∧ ident.span = span ∧ Rendered file (.type (.named ident none)) := by
  have hcleared := SourceFile.cleared_of_ofDocument haccept
  have hskipped : (compile hash file ⟨false, banner⟩).result = (generate file banner).2 := rfl
  rw [hskipped]
  refine ⟨fun hother => ?_, fun unit hunit => not_rendered_named hcleared ⟨unit, hunit⟩, fun name span herror => ?_⟩
  · rcases hresolve : file.resolve hash with ⟨now, events, _ | error⟩
    · rw [compile_of_resolve hresolve]
      have hnow : now.cleared = file := by
        have hadvances := (Call.resolveFile : Call hash).advances ⟨file, []⟩
        obtain rfl : now = _ := (congrArg Prod.fst hresolve).symm
        exact hadvances.cleared.trans hcleared
      rcases generate_decides now banner with ⟨name, span, hunresolved⟩ | hsame
      · rw [hnow] at hunresolved
        exact absurd hunresolved (hother name span)
      · rw [hnow] at hsame
        exact .inr hsame
    · exact .inl ⟨error, rfl, compile_of_resolve_error hresolve banner⟩
  · obtain ⟨f, hrendered, hobstacle⟩ := exists_rendered_obstacle (SourceFile.inRange_of_ofDocument haccept) herror
    cases hobstacle with
    | unlinked ident => exact ⟨ident, rfl, rfl, hrendered⟩

/-- A record and a variable. -/
def variableOf (type : TypeExpr) : SourceFile :=
  let here := Span.nowhere
  ⟨[⟨⟨"R", here⟩, .record .struct [], here, .untouched⟩, ⟨⟨"x", here⟩, .mutable type none, here, .untouched⟩], [0, 1]⟩

/-- A variable of a primitive type is compiled alike with and without resolution. Without resolution the type of a
variable of the record is reported, and it is rendered. -/
theorem variableOf_decided :
    (compile nameHash (variableOf (.primitive .i32 .nowhere)) ⟨true, true⟩).result =
      (compile nameHash (variableOf (.primitive .i32 .nowhere)) ⟨false, true⟩).result ∧
    (compile nameHash (variableOf (.named ⟨"R", .nowhere⟩ none)) ⟨false, true⟩).result =
      .error (.unresolvedType "R" .nowhere) ∧
    ∃ ident, ident.name = "R" ∧ Rendered (variableOf (.named ⟨"R", .nowhere⟩ none)) (.type (.named ident none)) := by
  have hprimitive : SourceFile.ofDocument (Document.ofSourceFile (variableOf (.primitive .i32 .nowhere))).compact =
      .ok (variableOf (.primitive .i32 .nowhere)) :=
    SourceFile.ofDocument_of_isTextOf (List.forall_mem_nil _) (by decide) (.inl rfl) (by decide) (by decide)
  have hnamed : SourceFile.ofDocument (Document.ofSourceFile (variableOf (.named ⟨"R", .nowhere⟩ none))).compact =
      .ok (variableOf (.named ⟨"R", .nowhere⟩ none)) :=
    SourceFile.ofDocument_of_isTextOf (List.forall_mem_nil _) (by decide) (.inl rfl) (by decide) (by decide)
  obtain ⟨hsame, -, -⟩ := skipping_resolution_decides nameHash _ _ hprimitive true
  obtain ⟨-, -, hreported⟩ := skipping_resolution_decides nameHash _ _ hnamed true
  constructor
  · have htext : (compile nameHash (variableOf (.primitive .i32 .nowhere)) ⟨false, true⟩).result.toOption.isSome =
        true := by
      decide +kernel
    have hresolved : ((variableOf (.primitive .i32 .nowhere)).resolve nameHash).2.2 = none := by decide +kernel
    rcases hsame fun name span herror => by simp [herror, Except.toOption] at htext with ⟨error, hfailed, -⟩ | hsame
    · simp [hresolved] at hfailed
    · exact hsame
  · obtain ⟨ident, hname, -, hrendered⟩ := hreported "R" .nowhere rfl
    exact ⟨rfl, ident, hname, hrendered⟩

end DeclTree

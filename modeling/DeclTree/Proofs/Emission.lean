import DeclTree.Lowering.Unit
import Mathlib.Data.List.Forall2

/-!
# What a successful generation consists of

The text of a file that is generated is the texts of its items in the order of emission, one for each top-level
declaration, and each of them is what lowering makes of that declaration.
-/

namespace Except

variable {ε α β : Type}

/-- Results in sequence succeed if each of them does. -/
theorem bind_eq_ok_iff {result : Except ε α} {next : α → Except ε β} {value : β} :
    (result >>= next) = .ok value ↔ ∃ first, result = .ok first ∧ next first = .ok value := by
  cases result <;> simp [bind, Except.bind]

/-- A changed result succeeds if the result does. -/
theorem map_eq_ok_iff {result : Except ε α} {change : α → β} {value : β} :
    result.map change = .ok value ↔ ∃ first, result = .ok first ∧ change first = value := by
  cases result <;> simp [Except.map]

end Except

namespace DeclTree

open Lowering

/-- The statement that a scope is lowered to, and the parts that it is made of. -/
inductive Lowered (file : SourceFile) : Scope → C.Statement → Prop where
  | simple {stmt : Stmt} {s : C.Simple} (hstmt : simple file stmt = .ok s) : Lowered file (.statement stmt) (.simple s)
  | block {scopes : List Scope} {span : Span} {body : List C.Statement} (hscopes : statements file scopes = .ok body) :
    Lowered file (.block scopes span) (.block body)
  | conditional {condition : Expr} {consequent : Scope} {span : Span} {c : C.Expr} {s : C.Statement}
    (hcondition : expr file condition = .ok c) (hconsequent : statement file consequent = .ok s) :
    Lowered file (.conditional condition consequent none span) (.conditional c s none)
  | alternative {condition : Expr} {consequent alternative : Scope} {span : Span} {c : C.Expr} {s a : C.Statement}
    (hcondition : expr file condition = .ok c) (hconsequent : statement file consequent = .ok s)
    (halternative : statement file alternative = .ok a) :
    Lowered file (.conditional condition consequent (some alternative) span) (.conditional c s (some a))
  | forLoop {init step : Stmt} {condition : Expr} {body : Scope} {span : Span} {i t : C.Simple} {c : C.Expr}
    {b : C.Statement} (hinit : Lowering.simple file init = .ok i) (hcondition : expr file condition = .ok c)
    (hstep : Lowering.simple file step = .ok t) (hbody : statement file body = .ok b) :
    Lowered file (.forLoop init condition step body span) (.forLoop i c t b)
  | whileLoop {condition : Expr} {body : Scope} {span : Span} {c : C.Expr} {b : C.Statement}
    (hcondition : expr file condition = .ok c) (hbody : statement file body = .ok b) :
    Lowered file (.whileLoop condition body span) (.whileLoop c b)

/-- A scope is lowered part by part. -/
theorem lowered_of_statement {file : SourceFile} {scope : Scope} {s : C.Statement} (h : statement file scope = .ok s) :
    Lowered file scope s := by
  cases scope with
  | statement stmt =>
    obtain ⟨_, hstmt, rfl⟩ := Except.map_eq_ok_iff.mp h
    exact .simple hstmt
  | block scopes _ =>
    obtain ⟨_, hscopes, rfl⟩ := Except.map_eq_ok_iff.mp h
    exact .block hscopes
  | conditional condition consequent alternative _ =>
    cases alternative with
    | none =>
      obtain ⟨_, hcondition, h⟩ := Except.bind_eq_ok_iff.mp h
      obtain ⟨_, hconsequent, ⟨⟩⟩ := Except.bind_eq_ok_iff.mp h
      exact .conditional hcondition hconsequent
    | some alternative =>
      obtain ⟨_, hcondition, h⟩ := Except.bind_eq_ok_iff.mp h
      obtain ⟨_, hconsequent, h⟩ := Except.bind_eq_ok_iff.mp h
      obtain ⟨_, halternative, ⟨⟩⟩ := Except.bind_eq_ok_iff.mp h
      exact .alternative hcondition hconsequent halternative
  | forLoop init condition step body _ =>
    obtain ⟨_, hinit, h⟩ := Except.bind_eq_ok_iff.mp h
    obtain ⟨_, hcondition, h⟩ := Except.bind_eq_ok_iff.mp h
    obtain ⟨_, hstep, h⟩ := Except.bind_eq_ok_iff.mp h
    obtain ⟨_, hbody, ⟨⟩⟩ := Except.bind_eq_ok_iff.mp h
    exact .forLoop hinit hcondition hstep hbody
  | whileLoop condition body _ =>
    obtain ⟨_, hcondition, h⟩ := Except.bind_eq_ok_iff.mp h
    obtain ⟨_, hbody, ⟨⟩⟩ := Except.bind_eq_ok_iff.mp h
    exact .whileLoop hcondition hbody
  | forEach _ _ _ _ => simp [statement] at h
  | matching _ _ _ => simp [statement] at h

/-- Scopes are lowered one after the other. -/
theorem statements_cons_eq_ok {file : SourceFile} {scope : Scope} {rest : List Scope} {lowered : List C.Statement}
    (h : statements file (scope :: rest) = .ok lowered) :
    ∃ s ss, lowered = s :: ss ∧ statement file scope = .ok s ∧ statements file rest = .ok ss := by
  obtain ⟨s, hs, h⟩ := Except.bind_eq_ok_iff.mp h
  obtain ⟨ss, hss, ⟨⟩⟩ := Except.bind_eq_ok_iff.mp h
  exact ⟨s, ss, rfl, hs, hss⟩

/-- An item is what lowering makes of a declaration. -/
def Emits (file : SourceFile) (d : Declaration) (item : C.Item) : Prop := (Lowering.item file d).2 = .ok item

/-- A function is lowered to a function, any other declaration to a declaration. -/
theorem Emits.cases {file : SourceFile} {d : Declaration} {item : C.Item} (h : Emits file d item) :
    (∃ ascribed signature scope span f, d.kind = .constant ascribed (.function signature scope span) ∧
      (function file d.name.name ascribed signature scope).2 = .ok f ∧ item = .function f) ∨
    (d.isFunction = false ∧ ∃ lowered, declaration file d = .ok lowered ∧ item = .declaration lowered) := by
  have hother (hfunction : d.isFunction = false)
      (hitem : (Lowering.item file d).2 = (declaration file d).map C.Item.declaration) :
      d.isFunction = false ∧ ∃ lowered, declaration file d = .ok lowered ∧ item = .declaration lowered := by
    obtain ⟨lowered, hlowered, rfl⟩ := Except.map_eq_ok_iff.mp (hitem.symm.trans h)
    exact ⟨hfunction, lowered, hlowered, rfl⟩
  cases hkind : d.kind with
  | constant ascribed value =>
    cases value with
    | function signature scope span =>
      rw [Emits, Lowering.item, hkind] at h
      obtain ⟨f, hf, rfl⟩ := Except.map_eq_ok_iff.mp h
      exact .inl ⟨ascribed, signature, scope, span, f, rfl, hf, rfl⟩
    | _ =>
      exact .inr (hother (by rw [Declaration.isFunction, hkind]; rfl) (by rw [Lowering.item, hkind]))
  | _ => exact .inr (hother (by rw [Declaration.isFunction, hkind]; rfl) (by rw [Lowering.item, hkind]))

/-- Declarations that are lowered one after the other give one item each. -/
theorem emits_of_items {file : SourceFile} {ds : List Declaration} {lowered : List C.Item}
    (h : (items file ds).2 = .ok lowered) : List.Forall₂ (Emits file) ds lowered := by
  induction ds generalizing lowered with
  | nil =>
    obtain rfl := Except.ok.inj h
    exact .nil
  | cons d rest ih =>
    rw [items] at h
    split at h
    · simp at h
    · next events first hfirst =>
      obtain ⟨others, hothers, rfl⟩ := Except.map_eq_ok_iff.mp h
      exact .cons (by rw [Emits, hfirst]) (ih hothers)

/-- The text that is generated is that of the items of the file in the order of emission. -/
theorem emits_of_generate {file : SourceFile} {banner : Bool} {text : String}
    (h : (generate file banner).2 = .ok text) :
    ∃ lowered, text = C.unitText banner lowered ∧ List.Forall₂ (Emits file) (emissionOrder file) lowered := by
  rw [generate] at h
  split at h
  · simp at h
  · next events lowered hitems =>
    exact ⟨lowered, (Except.ok.inj h).symm, emits_of_items (by rw [hitems])⟩

end DeclTree

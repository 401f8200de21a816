import DeclTree.Proofs.Growth
import DeclTree.Proofs.Positions
import DeclTree.Proofs.Rendering
import Mathlib.Tactic.MkIffOfInductiveProp

/-!
# What has no C text

An obstacle is a construct that C cannot say: it is a scope, a statement, an expression, a declaration, a declarator or
a type. In a file whose positions and links lie in its arena, generation succeeds exactly if no obstacle is rendered,
and if it fails, its error is that of an obstacle that is rendered. What is not rendered, such as a declaration that no
item leads to, or the element type and the count of an array literal, is never in the way.
-/

namespace DeclTree

open Lowering

/-- The positions that a file names and the links of its types lie in its arena. -/
structure SourceFile.InRange (file : SourceFile) : Prop where
  ids : ∀ id ∈ file.ids, id < file.declarations.length
  links : ∀ d ∈ file.declarations, ∀ id, some id ∈ d.links → id < file.declarations.length

/-- A fragment that stops generation by itself, and the error that it is reported as. -/
inductive Obstacle (file : SourceFile) : Fragment → Error → Prop where
  | forEach (element : Ident) (iterable : Expr) (body : Scope) (span : Span) :
    Obstacle file (.scope (.forEach element iterable body span)) (.unsupported .forEach span)
  | matching (subject : Expr) (arms : List (Arm Scope)) (span : Span) :
    Obstacle file (.scope (.matching subject arms span)) (.unsupported .matching span)
  | logicalAssignment {op : AssignOp} (target value : Expr) (span : Span) (hop : op = .and ∨ op = .or) :
    Obstacle file (.stmt (.assign op target value span)) (.unsupported .logicalAssignment span)
  | functionLiteral (signature : Signature TypeExpr) (body : Scope) (span : Span) :
    Obstacle file (.expr (.function signature body span)) (.unsupported .functionLiteral span)
  | localFunction {id : DeclId} {d : Declaration} (span : Span) (hdecl : file.decl? id = some d)
    (hfunction : d.isFunction = true) :
    Obstacle file (.stmt (.declaration id span)) (.unsupported (.localFunction d.name.name) span)
  | sum {d : Declaration} {members : List (Slot (Option TypeExpr))} (hkind : d.kind = .sum members) :
    Obstacle file (.declaration d) (.unsupportedKind "sum" d.name.name d.span)
  | untyped {d : Declaration} {value : Expr} (hkind : d.kind = .constant none value)
    (hfunction : d.isFunction = false) : Obstacle file (.declaration d) (.missingType d.name.name d.span)
  | nonFiniteSingle {x : Binary .single} (span : Span) (hfinite : x.isFinite = false) :
    Obstacle file (.expr (.literal (.f32 x) span)) (.unsupported (.nonFinite x.nonFiniteText) span)
  | nonFiniteDouble {x : Binary .double} (span : Span) (hfinite : x.isFinite = false) :
    Obstacle file (.expr (.literal (.f64 x) span)) (.unsupported (.nonFinite x.nonFiniteText) span)
  | nestedArray (element : TypeExpr) (inner outer : Span) (count : Option Expr) :
    Obstacle file (.declarator (.array (.array element inner) outer) count)
      (.unsupported (.nestedArray (TypeExpr.array (.array element inner) outer).text) inner)
  | functionType (signature : Signature TypeExpr) :
    Obstacle file (.type (.function signature))
      (.unsupported (.functionType (TypeExpr.function signature).text) signature.span)
  | unlinked (name : Ident) : Obstacle file (.type (.named name none)) (.unresolvedType name.name name.span)
  | linkedToSum {name : Ident} {id : DeclId} {d : Declaration} {members : List (Slot (Option TypeExpr))}
    (hdecl : file.decl? id = some d) (hkind : d.kind = .sum members) :
    Obstacle file (.type (.named name (some id))) (.unsupported (.sumType name.name) name.span)
  | linkedToVariable {name : Ident} {id : DeclId} {d : Declaration} (hdecl : file.decl? id = some d)
    (hvariable : d.isVariable = true) : Obstacle file (.type (.named name (some id))) (.notAType name.name name.span)

/-- The links of slots, slot by slot. -/
theorem TypeExpr.slotLinks_eq_flatMap (slots : List (Slot TypeExpr)) :
    TypeExpr.slotLinks slots = slots.flatMap fun slot => slot.type.links := by
  induction slots with
  | nil => rfl
  | cons slot rest ih => rw [TypeExpr.slotLinks, ih, List.flatMap_cons]

/-- The links of expressions in a row, expression by expression. -/
theorem Expr.listLinks_eq_flatMap (es : List Expr) : Expr.listLinks es = es.flatMap Expr.links := by
  induction es with
  | nil => rfl
  | cons e rest ih => rw [Expr.listLinks, ih, List.flatMap_cons]

/-- The links of scopes in a row, scope by scope. -/
theorem Scope.listLinks_eq_flatMap (scopes : List Scope) : Scope.listLinks scopes = scopes.flatMap Scope.links := by
  induction scopes with
  | nil => rfl
  | cons s rest ih => rw [Scope.listLinks, ih, List.flatMap_cons]

/-- The steps of scopes in a row, scope by scope. -/
theorem Scope.listSteps_eq_flatMap (scopes : List Scope) : Scope.listSteps scopes = scopes.flatMap Scope.steps := by
  induction scopes with
  | nil => rfl
  | cons s rest ih => rw [Scope.listSteps, ih, List.flatMap_cons]

namespace Fragment

/-- The positions that declaration statements in a fragment name. -/
def ids : Fragment → List DeclId
  | declaration d => d.kind.ids
  | declarator _ count => count.toList.flatMap Expr.ids
  | type _ => []
  | expr e => e.ids
  | stmt s => s.ids
  | scope s => s.ids

/-- The links of the types in a fragment. -/
def links : Fragment → List (Option DeclId)
  | declaration d => d.links
  | declarator t count => t.links ++ count.toList.flatMap Expr.links
  | type t => t.links
  | expr e => e.links
  | stmt s => s.links
  | scope s => s.links

/-- The steps of resolving the statements that the text of a fragment is written from. They stand in the body of a
function only. -/
def steps : Fragment → List Step
  | declaration d =>
    match d.kind with
    | .constant _ (.function _ body _) => body.steps
    | _ => []
  | declarator .. => []
  | type _ => []
  | expr _ => []
  | stmt s => s.steps
  | scope s => s.steps

/-- What a part of a fragment names, the fragment names, and the statements of the part are statements of the
fragment. -/
@[mk_iff] structure Covers (f part : Fragment) : Prop where
  ids : part.ids ⊆ f.ids
  links : part.links ⊆ f.links
  steps : part.steps ⊆ f.steps

/-- The parts of a type are covered by it. -/
theorem covers_typeParts (t : TypeExpr) : ∀ part ∈ t.parts, Covers (type t) part := by
  cases t <;> simp [TypeExpr.parts, TypeExpr.links, ids, links, steps, covers_iff]

/-- The parts of a declarator are covered by it, the count of an array among them. -/
theorem covers_declaratorParts (t : TypeExpr) (count : Option Expr) :
    ∀ part ∈ t.declaratorParts count, Covers (declarator t count) part := by
  rw [TypeExpr.declaratorParts.eq_def]
  split
  · simp
  · cases count <;> simp [TypeExpr.links, ids, links, steps, covers_iff]
  · simp [ids, links, steps, covers_iff]

/-- What one value gives is among what all values give. -/
theorem subset_flatMap {α β : Type} {f : α → List β} {l : List α} {a : α} (h : a ∈ l) : f a ⊆ l.flatMap f :=
  fun _ hx => List.mem_flatMap.mpr ⟨a, h, hx⟩

/-- The parts of an expression are covered by it. The count of an array literal is no part. -/
theorem covers_exprParts (e : Expr) : ∀ part ∈ e.parts, Covers (expr e) part := by
  cases e with
  | call callee arguments =>
    simp only [Expr.parts, List.forall_mem_cons, List.forall_mem_map, covers_iff, ids, links, Expr.ids, Expr.links,
      Expr.listIds_eq_flatMap, Expr.listLinks_eq_flatMap]
    exact ⟨by simp [steps], fun e he => ⟨List.subset_append_of_subset_right _ (subset_flatMap he),
      List.subset_append_of_subset_right _ (subset_flatMap he), List.nil_subset _⟩⟩
  | array count element elements =>
    simp only [Expr.parts, List.forall_mem_map, covers_iff, ids, links]
    intro e he
    have hids : e.ids ⊆ Expr.listIds elements := Expr.listIds_eq_flatMap elements ▸ subset_flatMap he
    have hlinks : e.links ⊆ Expr.listLinks elements := Expr.listLinks_eq_flatMap elements ▸ subset_flatMap he
    cases count with
    | none => exact ⟨hids, List.subset_append_of_subset_right _ hlinks, List.nil_subset _⟩
    | some count =>
      exact ⟨List.subset_append_of_subset_right _ hids,
        List.subset_append_of_subset_right _ (List.subset_append_of_subset_right _ hlinks), List.nil_subset _⟩
  | _ => simp [Expr.parts, Expr.ids, Expr.links, ids, links, steps, covers_iff]

/-- Scopes in a row take the steps of each of them. -/
theorem subset_blockSteps {scopes : List Scope} {s : Scope} (h : s ∈ scopes) (span : Span) :
    s.steps ⊆ (Scope.block scopes span).steps := by
  rw [Scope.steps, Scope.listSteps_eq_flatMap]
  exact List.subset_append_of_subset_left _ (List.subset_append_of_subset_right _ (subset_flatMap h))

/-- The parts of a scope are covered by it. A loop over elements and a match have no parts. -/
theorem covers_scopeParts (s : Scope) : ∀ part ∈ s.parts, Covers (scope s) part := by
  cases s with
  | block scopes span =>
    simp only [Scope.parts, List.forall_mem_map, covers_iff, ids, links, Scope.ids, Scope.links,
      Scope.listIds_eq_flatMap, Scope.listLinks_eq_flatMap]
    exact fun s hs => ⟨subset_flatMap hs, subset_flatMap hs, subset_blockSteps hs span⟩
  | conditional condition consequent alternative =>
    cases alternative <;> simp [Scope.parts, Scope.ids, Scope.links, Scope.steps, ids, links, steps, covers_iff]
  | forLoop =>
    simp +contextual [Scope.parts, Scope.ids, Scope.links, Scope.steps, ids, links, steps, covers_iff, List.subset_def]
  | _ => simp [Scope.parts, Scope.ids, Scope.links, Scope.steps, ids, links, steps, covers_iff]

/-- The count of an array literal names no more than the literal does. -/
theorem arrayCount_subset (value : Expr) :
    (arrayCount value).toList.flatMap Expr.ids ⊆ value.ids ∧
      (arrayCount value).toList.flatMap Expr.links ⊆ value.links := by
  cases value with
  | array count => cases count <;> simp [arrayCount, Expr.ids, Expr.links]
  | _ => simp [arrayCount]

/-- The result type of a function is part of its ascribed type or of its signature. -/
theorem resultType_subset (ascribed : Option TypeExpr) (signature : Signature TypeExpr) (body : Scope) (span : Span) :
    (resultType ascribed signature).links ⊆ (DeclKind.constant ascribed (.function signature body span)).links := by
  rw [resultType.eq_def]
  split
  · next annotated =>
    obtain ⟨params, result, span⟩ := annotated
    simp [DeclKind.links, TypeExpr.links]
  · simp [DeclKind.links]
  · simp [DeclKind.links, Expr.links, Signature.links]

/-- The outermost scopes of a body are covered by it. -/
theorem covers_outermost {body s : Scope} (h : s ∈ body.outermost) : Covers (scope body) (scope s) := by
  cases body with
  | block scopes span => exact covers_scopeParts (.block scopes span) _ (List.mem_map_of_mem h)
  | _ =>
    obtain rfl := List.mem_singleton.mp h
    exact ⟨List.Subset.refl _, List.Subset.refl _, List.Subset.refl _⟩

/-- The links of a slot are among those of all slots. -/
theorem slot_subset {slots : List (Slot TypeExpr)} {slot : Slot TypeExpr} (h : slot ∈ slots) :
    (declarator slot.type none).links ⊆ TypeExpr.slotLinks slots := by
  intro link hlink
  rw [TypeExpr.slotLinks_eq_flatMap]
  exact List.mem_flatMap.mpr ⟨slot, h, by simpa [links] using hlink⟩

/-- The links of the value of a constant are among those of the constant. -/
theorem value_subset (ascribed : Option TypeExpr) (value : Expr) :
    value.links ⊆ (DeclKind.constant ascribed value).links := by
  cases ascribed <;> simp [DeclKind.links]

/-- What the declarator of a variable names, the variable does. -/
theorem declarator_subset (t : TypeExpr) (value : Expr) :
    (declarator t (arrayCount value)).links ⊆ t.links ++ value.links :=
  List.append_subset.mpr ⟨List.subset_append_left _ _,
    List.subset_append_of_subset_right _ (arrayCount_subset value).2⟩

/-- The parts of a declaration are covered by it. -/
theorem covers_declParts (d : Declaration) : ∀ part ∈ d.kind.parts, Covers (declaration d) part := by
  obtain ⟨name, kind, span, mark⟩ := d
  cases kind with
  | constant ascribed value =>
    cases value with
    | function signature body _ =>
      have hvalue := value_subset ascribed (.function signature body ‹_›)
      simp only [DeclKind.parts, List.forall_mem_append, List.forall_mem_cons, List.forall_mem_map]
      refine ⟨fun slot hslot => ⟨by simp [ids], ?_, List.nil_subset _⟩,
        ⟨by simp [ids], resultType_subset ascribed signature body _, List.nil_subset _⟩,
        fun s hs => ⟨(covers_outermost hs).ids, ?_, (covers_outermost hs).steps⟩⟩
      · refine List.Subset.trans (slot_subset hslot) (List.Subset.trans ?_ hvalue)
        simp [Expr.links, Signature.links]
      · exact List.Subset.trans (covers_outermost hs).links
          (List.Subset.trans (List.subset_append_right _ _) hvalue)
    | _ =>
      cases ascribed with
      | none => simp [DeclKind.parts]
      | some t =>
        simp only [DeclKind.parts, List.forall_mem_cons]
        exact ⟨⟨(arrayCount_subset _).1, declarator_subset t _, List.nil_subset _⟩,
          ⟨List.Subset.refl _, value_subset (some t) _, List.nil_subset _⟩, by simp⟩
  | mutable t value =>
    cases value with
    | none => simp [DeclKind.parts, ids, links, steps, covers_iff, Declaration.links, DeclKind.links]
    | some value =>
      simp only [DeclKind.parts, Option.bind_some, List.forall_mem_cons, Option.toList_some, List.map_singleton]
      exact ⟨⟨(arrayCount_subset value).1, declarator_subset t value, List.nil_subset _⟩,
        ⟨List.Subset.refl _, List.subset_append_right _ _, List.nil_subset _⟩, by simp⟩
  | record kind members =>
    simp only [DeclKind.parts, List.forall_mem_map]
    exact fun slot hslot => ⟨by simp [ids], slot_subset hslot, List.nil_subset _⟩
  | enumeration => simp [DeclKind.parts]
  | sum => simp [DeclKind.parts]

/-- What a statement is written from is covered by it, unless the statement is a declaration. -/
theorem covers_stmtParts (file : SourceFile) (s : Stmt) :
    ∀ part ∈ s.parts file,
      (∃ id span d, s = .declaration id span ∧ file.decl? id = some d ∧ d.isFunction = false ∧ part = declaration d) ∨
        Covers (stmt s) part := by
  cases s with
  | declaration id span =>
    intro part hpart
    obtain ⟨d, hd, hpart⟩ := List.mem_flatMap.mp hpart
    cases hfunction : d.isFunction with
    | true => simp [hfunction] at hpart
    | false =>
      exact .inl ⟨id, span, d, rfl, Option.mem_toList.mp hd, hfunction, by simpa [hfunction] using hpart⟩
  | assign op target value =>
    cases op <;> simp [Stmt.parts, Stmt.ids, Stmt.links, ids, links, steps, covers_iff]
  | returning value => cases value <;> simp [Stmt.parts, Stmt.ids, Stmt.links, ids, links, steps, covers_iff]
  | _ => simp [Stmt.parts, Stmt.ids, Stmt.links, ids, links, steps, covers_iff]

/-- A part is covered by the fragment that it is a part of, unless that is a declaration statement. -/
theorem covers_of_mem_parts {file : SourceFile} {f part : Fragment} (h : part ∈ f.parts file) :
    (∃ id span d, f = .stmt (.declaration id span) ∧ file.decl? id = some d ∧ d.isFunction = false ∧
      part = declaration d) ∨ Covers f part := by
  cases f with
  | declaration d => exact .inr (covers_declParts d part h)
  | declarator t count => exact .inr (covers_declaratorParts t count part h)
  | type t => exact .inr (covers_typeParts t part h)
  | expr e => exact .inr (covers_exprParts e part h)
  | stmt s =>
    exact (covers_stmtParts file s part h).imp_left fun ⟨id, span, d, hs, hd⟩ => ⟨id, span, d, congrArg stmt hs, hd⟩
  | scope s => exact .inr (covers_scopeParts s part h)

/-- What a fragment names lies in the arena of a file. -/
structure InRange (file : SourceFile) (f : Fragment) : Prop where
  ids : ∀ id ∈ f.ids, id < file.declarations.length
  links : ∀ id, some id ∈ f.links → id < file.declarations.length

end Fragment

/-- What a rendered fragment names, the file names. -/
theorem Rendered.names {file : SourceFile} {f : Fragment} (hf : Rendered file f) :
    (∀ id ∈ f.ids, id ∈ file.ids) ∧ ∀ link ∈ f.links, ∃ d ∈ file.declarations, link ∈ d.links := by
  have hdeclaration {d : Declaration} (hd : d ∈ file.declarations) :
      (∀ id ∈ d.kind.ids, id ∈ file.ids) ∧ ∀ link ∈ d.links, ∃ d ∈ file.declarations, link ∈ d.links :=
    ⟨fun id hid => List.mem_append_right _ (List.mem_flatMap.mpr ⟨d, hd, hid⟩), fun link hlink => ⟨d, hd, hlink⟩⟩
  induction hf with
  | item _ hdecl => exact hdeclaration (List.mem_of_getElem? hdecl)
  | part _ hpart ih =>
    rcases Fragment.covers_of_mem_parts hpart with ⟨_, _, d, -, hd, -, rfl⟩ | hcovers
    · exact hdeclaration (List.mem_of_getElem? hd)
    · exact ⟨fun id hid => ih.1 id (hcovers.ids hid), fun link hlink => ih.2 link (hcovers.links hlink)⟩

/-- What is rendered of a file in range is in range. -/
theorem Rendered.inRange {file : SourceFile} (h : file.InRange) {f : Fragment} (hf : Rendered file f) :
    f.InRange file := by
  refine ⟨fun id hid => h.ids id (hf.names.1 id hid), fun id hid => ?_⟩
  obtain ⟨d, hd, hlink⟩ := hf.names.2 _ hid
  exact h.links d hd id hlink

namespace Fragment

/-- An obstacle stops the work. -/
theorem obstacle?_of_obstacle {file : SourceFile} {f : Fragment} {e : Error} (h : Obstacle file f e) :
    f.obstacle? file = some e := by
  cases h with
  | logicalAssignment _ _ _ hop => rcases hop with rfl | rfl <;> rfl
  | localFunction _ hdecl hfunction => simp [obstacle?, hdecl, hfunction]
  | sum hkind => simp [obstacle?, hkind, DeclKind.keyword]
  | @untyped d value hkind hfunction =>
    obtain ⟨name, kind, span, mark⟩ := d
    subst hkind
    cases value with
    | function => cases hfunction
    | _ => rfl
  | nonFiniteSingle _ hfinite => simp [obstacle?, literal, hfinite]
  | nonFiniteDouble _ hfinite => simp [obstacle?, literal, hfinite]
  | linkedToSum hdecl hkind => simp [obstacle?, namedType, declAt, hdecl, Except.ok_bind, hkind]
  | @linkedToVariable name id d hdecl hvariable =>
    rw [obstacle?, namedType, declAt, hdecl, Except.ok_bind]
    obtain ⟨_, kind, span, mark⟩ := d
    cases kind with
    | constant => rfl
    | mutable => rfl
    | _ => cases hvariable
  | _ => rfl

/-- A named type whose link lies in the arena is refused for what it is linked to. -/
theorem obstacle_of_namedType {file : SourceFile} {name : Ident} {link : Option DeclId} {e : Error}
    (hrange : ∀ id, link = some id → id < file.declarations.length)
    (h : (namedType file name link).failure? = some e) : Obstacle file (type (.named name link)) e := by
  cases link with
  | none =>
    cases h
    exact .unlinked name
  | some id =>
    obtain ⟨d, hdecl⟩ := SourceFile.exists_decl? (hrange id rfl)
    rw [namedType, declAt, hdecl, Except.ok_bind] at h
    obtain ⟨_, kind, span, mark⟩ := d
    cases kind with
    | constant =>
      cases h
      exact .linkedToVariable hdecl rfl
    | mutable =>
      cases h
      exact .linkedToVariable hdecl rfl
    | record kind => cases kind <;> cases h
    | enumeration => cases h
    | sum =>
      cases h
      exact .linkedToSum hdecl rfl

/-- A fragment in range that stops the work is an obstacle. -/
theorem obstacle_of_obstacle? {file : SourceFile} {f : Fragment} {e : Error} (hrange : f.InRange file)
    (h : f.obstacle? file = some e) : Obstacle file f e := by
  cases f with
  | declaration d =>
    obtain ⟨name, kind, span, mark⟩ := d
    cases kind with
    | constant ascribed value =>
      cases value with
      | function => cases h
      | _ =>
        cases ascribed with
        | none =>
          cases h
          exact .untyped rfl rfl
        | some t => cases h
    | sum =>
      cases h
      exact .sum rfl
    | _ => cases h
  | declarator t count =>
    cases t with
    | array element outer =>
      cases element with
      | array =>
        cases h
        exact .nestedArray ..
      | _ => cases h
    | _ => cases h
  | type t =>
    cases t with
    | named name link =>
      exact obstacle_of_namedType (fun id hlink => hrange.links id (by simp [links, TypeExpr.links, hlink])) h
    | function =>
      cases h
      exact .functionType _
    | _ => cases h
  | expr e =>
    cases e with
    | function =>
      cases h
      exact .functionLiteral ..
    | literal value span =>
      cases value with
      | f32 x =>
        cases hfinite : x.isFinite <;> simp [obstacle?, literal, hfinite] at h
        exact h ▸ .nonFiniteSingle span hfinite
      | f64 x =>
        cases hfinite : x.isFinite <;> simp [obstacle?, literal, hfinite] at h
        exact h ▸ .nonFiniteDouble span hfinite
      | _ => cases h
    | _ => cases h
  | stmt s =>
    cases s with
    | declaration id span =>
      obtain ⟨d, hdecl⟩ := SourceFile.exists_decl? (hrange.ids id (List.mem_singleton_self id))
      cases hfunction : d.isFunction <;> simp [obstacle?, hdecl, hfunction] at h
      exact h ▸ .localFunction span hdecl hfunction
    | assign op =>
      cases op with
      | and =>
        cases h
        exact .logicalAssignment _ _ _ (.inl rfl)
      | or =>
        cases h
        exact .logicalAssignment _ _ _ (.inr rfl)
      | _ => cases h
    | _ => cases h
  | scope s =>
    cases s with
    | forEach =>
      cases h
      exact .forEach ..
    | matching =>
      cases h
      exact .matching ..
    | _ => cases h

end Fragment

/-- The error of a file in range that has no text is that of an obstacle that is rendered. -/
theorem exists_rendered_obstacle {file : SourceFile} (hrange : file.InRange) {banner : Bool} {e : Error}
    (h : (generate file banner).2 = .error e) : ∃ f, Rendered file f ∧ Obstacle file f e := by
  obtain ⟨f, hf, hobstacle⟩ := exists_obstacle_of_generate h
  exact ⟨f, hf, Fragment.obstacle_of_obstacle? (hf.inRange hrange) hobstacle⟩

/-- Generation fails on obstacles and on nothing else. A file whose positions and links lie in its arena, whatever its
marks and links are, has a text exactly if nothing that is rendered is an obstacle, and if it has none, the error is
that of an obstacle that is rendered. -/
theorem generation_fails_on_obstacles_only (file : SourceFile) (hrange : file.InRange) (banner : Bool) :
    ((∃ text, (generate file banner).2 = .ok text) ↔ ∀ f e, Rendered file f → ¬Obstacle file f e) ∧
      ∀ e, (generate file banner).2 = .error e → ∃ f, Rendered file f ∧ Obstacle file f e := by
  refine ⟨⟨fun htext f e hf hobstacle => ?_, fun hclear => ?_⟩, fun e => exists_rendered_obstacle hrange⟩
  · have hnone := (exists_text_iff file banner).mp htext f hf
    rw [Fragment.obstacle?_of_obstacle hobstacle] at hnone
    cases hnone
  · cases hresult : (generate file banner).2 with
    | ok text => exact ⟨text, rfl⟩
    | error e =>
      obtain ⟨f, hf, hobstacle⟩ := exists_rendered_obstacle hrange hresult
      exact absurd hobstacle (hclear f e hf)

/-- A linked record and a function with a loop around a statement. Next to them stand a variable that is linked to the
record, and a sum that no item leads to. -/
def looping (body : Scope) : SourceFile :=
  let here := Span.nowhere
  ⟨[⟨⟨"P", here⟩, .record .struct [⟨⟨"next", here⟩, .pointer (.named ⟨"P", here⟩ (some 0)) here, here⟩], here, .closed⟩,
    ⟨⟨"f", here⟩, .constant none (.function ⟨[], .primitive .void here, here⟩
      (.whileLoop (.bool true here) body here) here), here, .untouched⟩,
    ⟨⟨"x", here⟩, .mutable (.named ⟨"P", here⟩ (some 0)) none, here, .opened⟩,
    ⟨⟨"S", here⟩, .sum [], here, .untouched⟩], [0, 1]⟩

/-- The function with the loop is in range if the body of the loop is. -/
theorem looping_inRange {body : Scope} (hids : ∀ id ∈ body.ids, id < 4) (hlinks : body.links = []) :
    (looping body).InRange := by
  have hids' : (looping body).ids = 0 :: 1 :: body.ids := by
    simp [looping, SourceFile.ids, DeclKind.ids, Expr.ids, Scope.ids]
  refine ⟨?_, ?_⟩
  · rw [hids']
    simpa [looping] using hids
  · simp [looping, Declaration.links, DeclKind.links, TypeExpr.slotLinks, TypeExpr.links, Expr.links, Signature.links,
      Scope.links, hlinks]

/-- The body of the loop is rendered. -/
theorem looping_renders (body : Scope) : Rendered (looping body) (.scope body) := by
  have hfunction := Rendered.item (List.mem_cons_of_mem 0 (List.mem_singleton_self 1))
    (rfl : (looping body).decl? 1 = some _)
  have hloop : Rendered (looping body) (.scope (.whileLoop (.bool true .nowhere) body .nowhere)) :=
    hfunction.part (List.mem_cons_of_mem _ (List.mem_singleton_self _))
  exact hloop.part (List.mem_cons_of_mem _ (List.mem_singleton_self _))

/-- With the variable declared in the loop nothing that is rendered is an obstacle; with a for-each loop there the file
has no text. -/
theorem looping_obstacles :
    (∀ f e, Rendered (looping (.statement (.declaration 2 .nowhere))) f →
      ¬Obstacle (looping (.statement (.declaration 2 .nowhere))) f e) ∧
    ¬∃ text,
      (generate (looping (.forEach ⟨"y", .nowhere⟩ (.bool true .nowhere) (.block [] .nowhere) .nowhere)) true).2 =
        .ok text := by
  refine ⟨?_, fun htext => ?_⟩
  · have hok : (generate (looping (.statement (.declaration 2 .nowhere))) true).2.failure?.isNone = true := by
      decide +kernel
    exact (generation_fails_on_obstacles_only _ (looping_inRange (by decide) rfl) true).1.mp
      (Except.failure?_eq_none_iff.mp (Option.isNone_iff_eq_none.mp hok))
  · exact (generation_fails_on_obstacles_only _ (looping_inRange (by decide) rfl) true).1.mp htext _ _
      (looping_renders _) (.forEach _ _ _ _)

end DeclTree

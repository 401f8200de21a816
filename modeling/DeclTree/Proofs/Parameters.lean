import DeclTree.Document.Validate
import DeclTree.Proofs.Containment

/-!
# Declarations kept apart from parameters

The checks of a function literal look at the declarations that stand directly in its body. All of them are among the
positions that the declaration around the literal names.
-/

namespace DeclTree

/-- The declarations that steps keep apart from parameters are among the given ones. -/
def AvoidsWithin (ids : List DeclId) (steps : List Step) : Prop :=
  ∀ names id span, .avoid names id span ∈ steps → id ∈ ids

namespace AvoidsWithin

variable {ids others : List DeclId} {steps more : List Step}

/-- Steps in a row keep apart from parameters what each part does. -/
theorem append (first : AvoidsWithin ids steps) (second : AvoidsWithin others more) :
    AvoidsWithin (ids ++ others) (steps ++ more) := by
  intro names id span h
  rcases List.mem_append.mp h with h | h
  · exact List.mem_append_left _ (first names id span h)
  · exact List.mem_append_right _ (second names id span h)

/-- Steps that only link keep nothing apart. -/
theorem ofLinks (h : ∀ step ∈ steps, ∃ name reach, step = .link name reach) (ids : List DeclId) :
    AvoidsWithin ids steps := by
  intro names id span hmem
  obtain ⟨_, _, heq⟩ := h _ hmem
  simp at heq

/-- No steps keep anything apart from parameters. -/
theorem nil (ids : List DeclId) : AvoidsWithin ids [] := ofLinks (by simp) ids

/-- The steps of a type keep nothing apart from parameters. -/
theorem type (type : TypeExpr) (reach : Reach) (ids : List DeclId) : AvoidsWithin ids (type.steps reach) := by
  refine ofLinks (fun step hstep => ?_) ids
  obtain ⟨name, -, r, rfl, -⟩ := TypeExpr.eq_link_of_mem_steps type reach hstep
  exact ⟨name, r, rfl⟩

/-- The steps of slots keep nothing apart from parameters. -/
theorem slots (slots : List (Slot TypeExpr)) (reach : Reach) (ids : List DeclId) :
    AvoidsWithin ids (TypeExpr.slotSteps slots reach) := by
  refine ofLinks (fun step hstep => ?_) ids
  obtain ⟨name, -, r, rfl, -⟩ := TypeExpr.eq_link_of_mem_slotSteps slots reach hstep
  exact ⟨name, r, rfl⟩

/-- Steps in a scope of their own keep apart from parameters what they do without it. -/
theorem enclosed (h : AvoidsWithin ids steps) : AvoidsWithin ids ([.enter] ++ steps ++ [.leave]) := by
  intro names id span hmem
  exact h names id span (by simpa using hmem)

end AvoidsWithin

/-- A scope is a declaration statement exactly when it declares directly. -/
theorem Scope.declared?_eq_some {scope : Scope} {id : DeclId} {span : Span} :
    scope.declared? = some (id, span) ↔ scope = .statement (.declaration id span) := by
  constructor
  · intro h
    unfold declared? at h
    split at h
    · obtain ⟨rfl, rfl⟩ := Prod.mk.inj (Option.some_inj.mp h)
      rfl
    · simp at h
  · rintro rfl
    rfl

/-- What stands directly in a body is named in it. -/
theorem Scope.mem_ids_of_outermost {body : Scope} {id : DeclId} {span : Span}
    (h : .statement (.declaration id span) ∈ body.outermost) : id ∈ body.ids := by
  have hlist : ∀ scopes : List Scope, Scope.statement (.declaration id span) ∈ scopes → id ∈ Scope.listIds scopes := by
    intro scopes
    induction scopes with
    | nil => simp
    | cons scope rest ih =>
      intro hmem
      rw [Scope.listIds]
      rcases List.mem_cons.mp hmem with rfl | hmem
      · exact List.mem_append_left _ (by simp [Scope.ids, Stmt.ids])
      · exact List.mem_append_right _ (ih hmem)
  cases body with
  | block scopes s => exact hlist scopes h
  | statement stmt =>
    obtain rfl := Scope.statement.inj (List.mem_singleton.mp h)
    exact List.mem_singleton_self _
  | _ => simp [Scope.outermost] at h

/-- The checks of a function literal look at declarations that its body names. -/
theorem AvoidsWithin.checks (signature : Signature TypeExpr) (body : Scope) :
    AvoidsWithin body.ids (signature.checks body) := by
  intro names id span h
  rcases List.mem_append.mp h with h | h
  · split at h <;> simp at h
  · obtain ⟨⟨t, s⟩, hmem, heq⟩ := List.mem_map.mp h
    obtain ⟨-, rfl, rfl⟩ := Step.avoid.inj heq
    obtain ⟨scope, hscope, hdeclared⟩ := List.mem_filterMap.mp hmem
    rw [Scope.declared?_eq_some] at hdeclared
    exact Scope.mem_ids_of_outermost (hdeclared ▸ hscope)

mutual

/-- What an expression keeps apart from parameters is named in it. -/
theorem Expr.avoids : ∀ e : Expr, AvoidsWithin e.ids e.steps
  | .paren inner _ => inner.avoids
  | .unary _ operand _ => operand.avoids
  | .binary left _ right _ => left.avoids.append right.avoids
  | .cast operand type _ => (AvoidsWithin.type type .byValue []).append operand.avoids
  | .field object _ _ => object.avoids
  | .index object position _ => object.avoids.append position.avoids
  | .function signature body _ => by
    intro names id span h
    simp only [Expr.steps, List.append_assoc, List.mem_append] at h
    rcases h with h | h | h
    · rcases List.mem_append.mp h with h | h
      · exact AvoidsWithin.slots signature.params .indirect _ names id span h
      · exact AvoidsWithin.type signature.result .indirect _ names id span h
    · exact AvoidsWithin.checks signature body names id span h
    · exact body.avoids.enclosed names id span (by simpa using h)
  | .call callee arguments _ => callee.avoids.append (Expr.listAvoids arguments)
  | .ident _ => .nil _
  | .literal _ _ => .nil _
  | .bool _ _ => .nil _
  | .array none element elements _ => (AvoidsWithin.type element .byValue []).append (Expr.listAvoids elements)
  | .array (some count) element elements _ =>
    ((AvoidsWithin.type element .byValue []).append count.avoids).append (Expr.listAvoids elements)

/-- What expressions keep apart from parameters is named in them. -/
theorem Expr.listAvoids : ∀ es : List Expr, AvoidsWithin (Expr.listIds es) (Expr.listSteps es)
  | [] => .nil _
  | e :: rest => e.avoids.append (Expr.listAvoids rest)

/-- What a statement keeps apart from parameters is named in it. -/
theorem Stmt.avoids : ∀ s : Stmt, AvoidsWithin s.ids s.steps
  | .declaration _ _ => fun _ _ _ h => by simp [Stmt.steps] at h
  | .increment target _ => target.avoids
  | .decrement target _ => target.avoids
  | .assign _ target value _ => target.avoids.append value.avoids
  | .expr value => value.avoids
  | .label _ => .nil _
  | .goto _ => .nil _
  | .returning none _ => .nil _
  | .returning (some value) _ => value.avoids

/-- What a scope keeps apart from parameters is named in it. -/
theorem Scope.avoids : ∀ s : Scope, AvoidsWithin s.ids s.steps
  | .statement stmt => stmt.avoids
  | .block scopes _ => (Scope.listAvoids scopes).enclosed
  | .conditional condition consequent none _ => condition.avoids.append consequent.avoids
  | .conditional condition consequent (some alternative) _ =>
    (condition.avoids.append consequent.avoids).append alternative.avoids
  | .forLoop init condition step body _ => by
    have hall := (((init.avoids.append condition.avoids).append step.avoids).append body.avoids).enclosed
    simpa only [Scope.steps, Scope.ids, List.append_assoc] using hall
  | .whileLoop condition body _ => condition.avoids.append body.avoids
  | .forEach .. => fun _ _ _ h => by simp [Scope.steps] at h
  | .matching .. => fun _ _ _ h => by simp [Scope.steps] at h

/-- What scopes keep apart from parameters is named in them. -/
theorem Scope.listAvoids : ∀ ss : List Scope, AvoidsWithin (Scope.listIds ss) (Scope.listSteps ss)
  | [] => .nil _
  | s :: rest => s.avoids.append (Scope.listAvoids rest)

end

/-- A plan keeps apart from parameters only what its declaration names. -/
theorem Declaration.plan?_avoids {d : Declaration} {plan : List Step} (h : d.plan? = some plan) :
    AvoidsWithin d.kind.ids plan := by
  rw [plan?] at h
  split at h
  · next value hkind =>
    obtain rfl := Option.some_inj.mp h
    exact hkind ▸ value.avoids
  · next type value hkind =>
    obtain rfl := Option.some_inj.mp h
    exact hkind ▸ (AvoidsWithin.type type .byValue []).append value.avoids
  · next type value hkind =>
    obtain rfl := Option.some_inj.mp h
    rw [hkind]
    cases value with
    | none => exact (AvoidsWithin.type type .byValue []).append (.nil _)
    | some value => exact (AvoidsWithin.type type .byValue []).append value.avoids
  · next kind members hkind =>
    obtain rfl := Option.some_inj.mp h
    intro names id span hmem
    rcases List.mem_append.mp hmem with hmem | hmem
    · exact AvoidsWithin.slots members .byValue _ names id span hmem
    · rw [memberChecks] at hmem
      split at hmem <;> simp at hmem
  · simp at h
  · simp at h

end DeclTree

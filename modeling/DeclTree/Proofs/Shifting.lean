import DeclTree.Proofs.Filling

/-!
# Scopes around a declaration

What is found in a declaration does not depend on the scopes around it: they only stand around the environment of each
node. A declaration statement is found in a scope of the declaration itself, never in one of those around it.
-/

namespace DeclTree

/-- A node with further scopes around its environment. -/
def within (outer : Env) (node : Env × LexicalNode) : Env × LexicalNode := (node.1 ++ outer, node.2)

namespace TypeExpr

mutual

/-- The nodes of a type in a larger environment are those in the smaller one, shifted. -/
theorem nodes_append (inner outer : Env) : ∀ (type : TypeExpr) (reach : Reach),
    type.nodes (inner ++ outer) reach = (type.nodes inner reach).map (within outer)
  | primitive _ _, _ => rfl
  | pointer base _, _ => base.nodes_append inner outer .indirect
  | nullable base _, _ => base.nodes_append inner outer .indirect
  | array element _, reach => element.nodes_append inner outer reach
  | named _ _, _ => rfl
  | function ⟨params, result, _⟩, _ => by
    rw [nodes, nodes, List.map_append, slotNodes_append inner outer params, result.nodes_append inner outer]

/-- The nodes of slots in a larger environment are those in the smaller one, shifted. -/
theorem slotNodes_append (inner outer : Env) : ∀ (slots : List (Slot TypeExpr)) (reach : Reach),
    slotNodes (inner ++ outer) slots reach = (slotNodes inner slots reach).map (within outer)
  | [], _ => rfl
  | ⟨_, type, _⟩ :: rest, reach => by
    rw [slotNodes, slotNodes, List.map_append, type.nodes_append inner outer, slotNodes_append inner outer rest]

end

end TypeExpr

/-- The nodes of a signature in a larger environment are those in the smaller one, shifted. -/
theorem Signature.nodes_append (inner outer : Env) (signature : Signature TypeExpr) :
    signature.nodes (inner ++ outer) = (signature.nodes inner).map (within outer) := by
  rw [nodes, nodes, List.map_append, TypeExpr.slotNodes_append, TypeExpr.nodes_append]

mutual

/-- The nodes of an expression in a larger environment are those in the smaller one, shifted. -/
theorem Expr.nodes_append (inner outer : Env) :
    ∀ e : Expr, e.nodes (inner ++ outer) = (e.nodes inner).map (within outer)
  | .paren e _ => e.nodes_append inner outer
  | .unary _ operand _ => operand.nodes_append inner outer
  | .binary left _ right _ => by
    rw [Expr.nodes, Expr.nodes, List.map_append, left.nodes_append inner outer, right.nodes_append inner outer]
  | .cast operand type _ => by
    rw [Expr.nodes, Expr.nodes, List.map_append, type.nodes_append inner outer, operand.nodes_append inner outer]
  | .field object _ _ => object.nodes_append inner outer
  | .index object position _ => by
    rw [Expr.nodes, Expr.nodes, List.map_append, object.nodes_append inner outer, position.nodes_append inner outer]
  | .function signature body _ => by
    rw [Expr.nodes, Expr.nodes, List.map_append, List.map_append, signature.nodes_append inner outer,
      body.nodes_append [] inner outer]
    rfl
  | .call callee arguments _ => by
    rw [Expr.nodes, Expr.nodes, List.map_append, callee.nodes_append inner outer,
      Expr.listNodes_append inner outer arguments]
  | .ident _ => rfl
  | .literal _ _ => rfl
  | .bool _ _ => rfl
  | .array none element elements _ => by
    rw [Expr.nodes, Expr.nodes, List.map_append, element.nodes_append inner outer,
      Expr.listNodes_append inner outer elements]
  | .array (some count) element elements _ => by
    rw [Expr.nodes, Expr.nodes, List.map_append, List.map_append, element.nodes_append inner outer,
      count.nodes_append inner outer, Expr.listNodes_append inner outer elements]

/-- The nodes of expressions in a larger environment are those in the smaller one, shifted. -/
theorem Expr.listNodes_append (inner outer : Env) :
    ∀ es : List Expr, Expr.listNodes (inner ++ outer) es = (Expr.listNodes inner es).map (within outer)
  | [] => rfl
  | e :: rest => by
    rw [Expr.listNodes, Expr.listNodes, List.map_append, e.nodes_append inner outer,
      Expr.listNodes_append inner outer rest]

/-- A statement declares in the innermost scope, so that there must be one. -/
theorem Stmt.nodes_append (scope : List DeclId) (inner outer : Env) :
    ∀ s : Stmt, s.nodes (scope :: (inner ++ outer)) = (s.nodes (scope :: inner)).map (within outer)
  | .declaration _ _ => rfl
  | .increment target _ => target.nodes_append (scope :: inner) outer
  | .decrement target _ => target.nodes_append (scope :: inner) outer
  | .assign _ target value _ => by
    have htarget := target.nodes_append (scope :: inner) outer
    have hvalue := value.nodes_append (scope :: inner) outer
    rw [List.cons_append] at htarget hvalue
    rw [Stmt.nodes, Stmt.nodes, List.map_append, htarget, hvalue]
  | .expr value => value.nodes_append (scope :: inner) outer
  | .label _ => rfl
  | .goto _ => rfl
  | .returning none _ => rfl
  | .returning (some value) _ => value.nodes_append (scope :: inner) outer

/-- The nodes of a scope below its own names are those in the smaller environment, shifted. -/
theorem Scope.nodes_append (scope : List DeclId) (inner outer : Env) :
    ∀ s : Scope, s.nodes (scope :: (inner ++ outer)) = (s.nodes (scope :: inner)).map (within outer)
  | .statement stmt => stmt.nodes_append scope inner outer
  | .block scopes _ => Scope.listNodes_append [] (scope :: inner) outer scopes
  | .conditional condition consequent none _ => by
    have hcondition := condition.nodes_append (scope :: inner) outer
    rw [List.cons_append] at hcondition
    rw [Scope.nodes, Scope.nodes, List.map_append, hcondition, consequent.nodes_append scope inner outer]
  | .conditional condition consequent (some alternative) _ => by
    have hcondition := condition.nodes_append (scope :: inner) outer
    rw [List.cons_append] at hcondition
    rw [Scope.nodes, Scope.nodes, List.map_append, List.map_append, hcondition,
      consequent.nodes_append scope inner outer, Env.declare, Env.declare,
      alternative.nodes_append (scope ++ consequent.declares) inner outer]
  | .forLoop init condition step body _ => by
    have hinit := init.nodes_append [] (scope :: inner) outer
    have hcondition := condition.nodes_append (init.declares :: scope :: inner) outer
    have hstep := step.nodes_append init.declares (scope :: inner) outer
    have hbody := body.nodes_append (init.declares ++ step.declares) (scope :: inner) outer
    simp only [List.cons_append] at hinit hcondition hstep hbody
    rw [Scope.nodes, Scope.nodes, List.map_append, List.map_append, List.map_append, hinit, hcondition, hstep, hbody]
  | .whileLoop condition body _ => by
    have hcondition := condition.nodes_append (scope :: inner) outer
    rw [List.cons_append] at hcondition
    rw [Scope.nodes, Scope.nodes, List.map_append, hcondition, body.nodes_append scope inner outer]
  | .forEach _ _ _ _ => rfl
  | .matching _ _ _ => rfl

/-- The nodes of scopes in a row below their own names are those in the smaller environment, shifted. -/
theorem Scope.listNodes_append (scope : List DeclId) (inner outer : Env) :
    ∀ ss : List Scope, Scope.listNodes (scope :: (inner ++ outer)) ss =
      (Scope.listNodes (scope :: inner) ss).map (within outer)
  | [] => rfl
  | s :: rest => by
    rw [Scope.listNodes, Scope.listNodes, List.map_append, s.nodes_append scope inner outer, Env.declare, Env.declare,
      Scope.listNodes_append (scope ++ s.declares) inner outer rest]

end

namespace DeclKind

/-- The scopes around a declaration stand around the environment of each of its nodes. -/
theorem nodes_eq_map (env : Env) (kind : DeclKind) : kind.nodes env = (kind.nodes []).map (within env) := by
  have hexpr (e : Expr) : e.nodes env = (e.nodes []).map (within env) := e.nodes_append [] env
  have htype (type : TypeExpr) : type.nodes env .byValue = (type.nodes [] .byValue).map (within env) :=
    type.nodes_append [] env .byValue
  cases kind with
  | constant type value => cases type <;> simp [nodes, hexpr, htype]
  | mutable type value => cases value <;> simp [nodes, hexpr, htype]
  | enumeration members => rfl
  | record kind members => exact TypeExpr.slotNodes_append [] env members .byValue
  | sum members => rfl

/-- The nodes of what is declared stand in the environment, below scopes of their own that do not depend on it. -/
theorem mem_nodes_iff {env inner : Env} {kind : DeclKind} {node : LexicalNode} :
    (inner, node) ∈ kind.nodes env ↔ ∃ own, inner = own ++ env ∧ (own, node) ∈ kind.nodes [] := by
  rw [nodes_eq_map, List.mem_map]
  constructor
  · rintro ⟨⟨own, found⟩, hmem, heq⟩
    obtain ⟨rfl, rfl⟩ := Prod.mk.inj heq
    exact ⟨own, rfl, hmem⟩
  · rintro ⟨own, rfl, hmem⟩
    exact ⟨(own, node), hmem, rfl⟩

end DeclKind

/-- Shifting nodes shifts the names in them. -/
theorem nodeSites_within (outer : Env) (nodes : List (Env × LexicalNode)) :
    nodeSites (nodes.map (within outer)) =
      (nodeSites nodes).map fun site => { site with env := site.env ++ outer } := by
  induction nodes with
  | nil => rfl
  | cons node rest ih =>
    obtain ⟨env, node⟩ := node
    cases node with
    | named name reach link => exact congrArg _ ih
    | _ => exact ih

/-- A declaration statement stands in a scope of the declaration in which it is found. -/
theorem Declaration.ne_nil_of_declaration {d : Declaration} {own : Env} {id : DeclId} {span : Span}
    (h : (own, .declaration id span) ∈ d.kind.nodes []) : own ≠ [] := by
  rintro rfl
  -- With an empty scope around the declaration, that scope would hold what is declared.
  have hnode : ([[]], .declaration id span) ∈ d.kind.nodes [[]] := DeclKind.mem_nodes_iff.mpr ⟨[], rfl, h⟩
  cases hplan : d.plan? with
  | none =>
    rcases plan?_eq_none_iff.mp hplan with ⟨members, hkind⟩ | ⟨members, hkind⟩ <;> simp [hkind, DeclKind.nodes] at h
  | some plan =>
    obtain ⟨done, rest, -, hinner⟩ := exists_split_of_node hplan hnode (List.mem_singleton_self _)
    cases hplace : done.foldl Env.after [[]] <;> simp [hplace, Env.after, Env.declare] at hinner

end DeclTree

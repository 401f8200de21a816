import DeclTree.Document.Validate
import DeclTree.Proofs.Tracing
import DeclTree.Resolution.Links

/-!
# What the nodes of a declaration say

The links of the nodes of a declaration are the links of the declaration in the order of their numbers, and the
declarations that its nodes name are among the positions that it names.
-/

namespace DeclTree

/-- The links of nodes, in order. -/
def nodeLinks (nodes : List (Env × LexicalNode)) : List (Option DeclId) :=
  nodes.filterMap fun
    | (_, .named _ _ link) => some link
    | _ => none

/-- The declarations that nodes name, in order. -/
def nodeIds (nodes : List (Env × LexicalNode)) : List DeclId :=
  nodes.filterMap fun
    | (_, .declaration id _) => some id
    | _ => none

/-- The links of nodes in a row are those of each part. -/
@[simp] theorem nodeLinks_append (nodes others : List (Env × LexicalNode)) :
    nodeLinks (nodes ++ others) = nodeLinks nodes ++ nodeLinks others := List.filterMap_append

/-- The positions that nodes in a row name are those of each part. -/
@[simp] theorem nodeIds_append (nodes others : List (Env × LexicalNode)) :
    nodeIds (nodes ++ others) = nodeIds nodes ++ nodeIds others := List.filterMap_append

namespace TypeExpr

mutual

/-- The nodes of a type are its links. -/
theorem nodeLinks_nodes (env : Env) :
    ∀ (type : TypeExpr) (reach : Reach), nodeLinks (type.nodes env reach) = type.links
  | primitive _ _, _ => rfl
  | pointer base _, _ => nodeLinks_nodes env base .indirect
  | nullable base _, _ => nodeLinks_nodes env base .indirect
  | array element _, reach => nodeLinks_nodes env element reach
  | named _ _, _ => rfl
  | function ⟨params, result, _⟩, _ => by
    simp only [nodes, links, nodeLinks_append, nodeLinks_slotNodes env params, nodeLinks_nodes env result]

/-- The nodes of slots are their links. -/
theorem nodeLinks_slotNodes (env : Env) :
    ∀ (slots : List (Slot TypeExpr)) (reach : Reach), nodeLinks (slotNodes env slots reach) = slotLinks slots
  | [], _ => rfl
  | ⟨_, type, _⟩ :: rest, _ => by
    simp only [slotNodes, slotLinks, nodeLinks_append, nodeLinks_nodes env type, nodeLinks_slotNodes env rest]

end

mutual

/-- Nothing is declared in a type. -/
theorem nodeIds_nodes (env : Env) : ∀ (type : TypeExpr) (reach : Reach), nodeIds (type.nodes env reach) = []
  | primitive _ _, _ => rfl
  | pointer base _, _ => nodeIds_nodes env base .indirect
  | nullable base _, _ => nodeIds_nodes env base .indirect
  | array element _, reach => nodeIds_nodes env element reach
  | named _ _, _ => rfl
  | function ⟨params, result, _⟩, _ => by
    simp only [nodes, nodeIds_append, nodeIds_slotNodes env params, nodeIds_nodes env result, List.append_nil]

/-- Nothing is declared in the types of slots. -/
theorem nodeIds_slotNodes (env : Env) :
    ∀ (slots : List (Slot TypeExpr)) (reach : Reach), nodeIds (slotNodes env slots reach) = []
  | [], _ => rfl
  | ⟨_, type, _⟩ :: rest, _ => by
    simp only [slotNodes, nodeIds_append, nodeIds_nodes env type, nodeIds_slotNodes env rest, List.append_nil]

end

end TypeExpr

/-- The nodes of a signature hold its links. -/
theorem Signature.nodeLinks_nodes (env : Env) (signature : Signature TypeExpr) :
    nodeLinks (signature.nodes env) = signature.links := by
  simp only [nodes, links, nodeLinks_append, TypeExpr.nodeLinks_slotNodes, TypeExpr.nodeLinks_nodes]

/-- The nodes of a signature name no positions. -/
theorem Signature.nodeIds_nodes (env : Env) (signature : Signature TypeExpr) :
    nodeIds (signature.nodes env) = [] := by
  simp only [nodes, nodeIds_append, TypeExpr.nodeIds_slotNodes, TypeExpr.nodeIds_nodes, List.append_nil]

mutual

/-- The links of the nodes of an expression are its links. -/
theorem Expr.nodeLinks_nodes (env : Env) : ∀ e : Expr, nodeLinks (e.nodes env) = e.links
  | .paren inner _ => inner.nodeLinks_nodes env
  | .unary _ operand _ => operand.nodeLinks_nodes env
  | .binary left _ right _ => by
    simp only [Expr.nodes, Expr.links, nodeLinks_append, left.nodeLinks_nodes, right.nodeLinks_nodes]
  | .cast operand type _ => by
    simp only [Expr.nodes, Expr.links, nodeLinks_append, TypeExpr.nodeLinks_nodes, operand.nodeLinks_nodes]
  | .field object _ _ => object.nodeLinks_nodes env
  | .index object position _ => by
    simp only [Expr.nodes, Expr.links, nodeLinks_append, object.nodeLinks_nodes, position.nodeLinks_nodes]
  | .function signature body _ => by
    have hnone : nodeLinks [(env, LexicalNode.function signature body)] = [] := rfl
    simp only [Expr.nodes, Expr.links, nodeLinks_append, Signature.nodeLinks_nodes, hnone, body.nodeLinks_nodes,
      List.append_nil]
  | .call callee arguments _ => by
    simp only [Expr.nodes, Expr.links, nodeLinks_append, callee.nodeLinks_nodes, Expr.nodeLinks_listNodes env arguments]
  | .ident _ => rfl
  | .literal _ _ => rfl
  | .bool _ _ => rfl
  | .array none element elements _ => by
    simp only [Expr.nodes, Expr.links, nodeLinks_append, TypeExpr.nodeLinks_nodes,
      Expr.nodeLinks_listNodes env elements]
  | .array (some count) element elements _ => by
    simp only [Expr.nodes, Expr.links, nodeLinks_append, TypeExpr.nodeLinks_nodes, count.nodeLinks_nodes,
      Expr.nodeLinks_listNodes env elements, List.append_assoc]

/-- The links of the nodes of expressions are their links. -/
theorem Expr.nodeLinks_listNodes (env : Env) : ∀ es : List Expr, nodeLinks (Expr.listNodes env es) = Expr.listLinks es
  | [] => rfl
  | e :: rest => by
    simp only [Expr.listNodes, Expr.listLinks, nodeLinks_append, e.nodeLinks_nodes, Expr.nodeLinks_listNodes env rest]

/-- The links of the nodes of a statement are its links. -/
theorem Stmt.nodeLinks_nodes (env : Env) : ∀ s : Stmt, nodeLinks (s.nodes env) = s.links
  | .declaration _ _ => rfl
  | .increment target _ => target.nodeLinks_nodes env
  | .decrement target _ => target.nodeLinks_nodes env
  | .assign _ target value _ => by
    simp only [Stmt.nodes, Stmt.links, nodeLinks_append, target.nodeLinks_nodes, value.nodeLinks_nodes]
  | .expr value => value.nodeLinks_nodes env
  | .label _ => rfl
  | .goto _ => rfl
  | .returning none _ => rfl
  | .returning (some value) _ => value.nodeLinks_nodes env

/-- The links of the nodes of a scope are its links. -/
theorem Scope.nodeLinks_nodes (env : Env) : ∀ s : Scope, nodeLinks (s.nodes env) = s.links
  | .statement stmt => stmt.nodeLinks_nodes env
  | .block scopes _ => Scope.nodeLinks_listNodes ([] :: env) scopes
  | .conditional condition consequent none _ => by
    simp only [Scope.nodes, Scope.links, nodeLinks_append, condition.nodeLinks_nodes, consequent.nodeLinks_nodes]
  | .conditional condition consequent (some alternative) _ => by
    simp only [Scope.nodes, Scope.links, nodeLinks_append, condition.nodeLinks_nodes, consequent.nodeLinks_nodes,
      alternative.nodeLinks_nodes, List.append_assoc]
  | .forLoop init condition step body _ => by
    simp only [Scope.nodes, Scope.links, nodeLinks_append, init.nodeLinks_nodes, condition.nodeLinks_nodes,
      step.nodeLinks_nodes, body.nodeLinks_nodes, List.append_assoc]
  | .whileLoop condition body _ => by
    simp only [Scope.nodes, Scope.links, nodeLinks_append, condition.nodeLinks_nodes, body.nodeLinks_nodes]
  | .forEach .. => rfl
  | .matching .. => rfl

/-- The links of the nodes of scopes are their links. -/
theorem Scope.nodeLinks_listNodes (env : Env) :
    ∀ ss : List Scope, nodeLinks (Scope.listNodes env ss) = Scope.listLinks ss
  | [] => rfl
  | s :: rest => by
    simp only [Scope.listNodes, Scope.listLinks, nodeLinks_append, s.nodeLinks_nodes, Scope.nodeLinks_listNodes _ rest]

end

/-- The links of the nodes of a declaration are its links. -/
theorem DeclKind.nodeLinks_nodes (env : Env) (kind : DeclKind) : nodeLinks (kind.nodes env) = kind.links := by
  cases kind with
  | constant type value =>
    cases type <;> simp only [nodes, links, nodeLinks_append, TypeExpr.nodeLinks_nodes, Expr.nodeLinks_nodes]
  | mutable type value =>
    cases value <;> simp only [nodes, links, nodeLinks_append, TypeExpr.nodeLinks_nodes, Expr.nodeLinks_nodes]
  | enumeration _ => rfl
  | record _ members => exact TypeExpr.nodeLinks_slotNodes env members .byValue
  | sum _ => rfl

mutual

/-- What the nodes of an expression name is among the positions that it names. -/
theorem Expr.nodeIds_nodes (env : Env) : ∀ e : Expr, (nodeIds (e.nodes env)).Sublist e.ids
  | .paren inner _ => inner.nodeIds_nodes env
  | .unary _ operand _ => operand.nodeIds_nodes env
  | .binary left _ right _ => by
    rw [Expr.nodes, Expr.ids, nodeIds_append]
    exact (left.nodeIds_nodes env).append (right.nodeIds_nodes env)
  | .cast operand type _ => by
    rw [Expr.nodes, Expr.ids, nodeIds_append, TypeExpr.nodeIds_nodes]
    exact operand.nodeIds_nodes env
  | .field object _ _ => object.nodeIds_nodes env
  | .index object position _ => by
    rw [Expr.nodes, Expr.ids, nodeIds_append]
    exact (object.nodeIds_nodes env).append (position.nodeIds_nodes env)
  | .function signature body _ => by
    rw [Expr.nodes, Expr.ids, nodeIds_append, nodeIds_append, Signature.nodeIds_nodes]
    exact body.nodeIds_nodes _
  | .call callee arguments _ => by
    rw [Expr.nodes, Expr.ids, nodeIds_append]
    exact (callee.nodeIds_nodes env).append (Expr.nodeIds_listNodes env arguments)
  | .ident _ => .slnil
  | .literal _ _ => .slnil
  | .bool _ _ => .slnil
  | .array none element elements _ => by
    rw [Expr.nodes, Expr.ids, nodeIds_append, TypeExpr.nodeIds_nodes]
    exact Expr.nodeIds_listNodes env elements
  | .array (some count) element elements _ => by
    rw [Expr.nodes, Expr.ids, nodeIds_append, nodeIds_append, TypeExpr.nodeIds_nodes]
    exact (count.nodeIds_nodes env).append (Expr.nodeIds_listNodes env elements)

/-- What the nodes of expressions name is among the positions that they name. -/
theorem Expr.nodeIds_listNodes (env : Env) :
    ∀ es : List Expr, (nodeIds (Expr.listNodes env es)).Sublist (Expr.listIds es)
  | [] => .slnil
  | e :: rest => by
    rw [Expr.listNodes, Expr.listIds, nodeIds_append]
    exact (e.nodeIds_nodes env).append (Expr.nodeIds_listNodes env rest)

/-- What the nodes of a statement name is among the positions that it names. -/
theorem Stmt.nodeIds_nodes (env : Env) : ∀ s : Stmt, (nodeIds (s.nodes env)).Sublist s.ids
  | .declaration _ _ => .refl _
  | .increment target _ => target.nodeIds_nodes env
  | .decrement target _ => target.nodeIds_nodes env
  | .assign _ target value _ => by
    rw [Stmt.nodes, Stmt.ids, nodeIds_append]
    exact (target.nodeIds_nodes env).append (value.nodeIds_nodes env)
  | .expr value => value.nodeIds_nodes env
  | .label _ => .slnil
  | .goto _ => .slnil
  | .returning none _ => .slnil
  | .returning (some value) _ => value.nodeIds_nodes env

/-- What the nodes of a scope name is among the positions that it names. -/
theorem Scope.nodeIds_nodes (env : Env) : ∀ s : Scope, (nodeIds (s.nodes env)).Sublist s.ids
  | .statement stmt => stmt.nodeIds_nodes env
  | .block scopes _ => Scope.nodeIds_listNodes ([] :: env) scopes
  | .conditional condition consequent none _ => by
    rw [Scope.nodes, Scope.ids, nodeIds_append]
    exact (condition.nodeIds_nodes env).append (consequent.nodeIds_nodes env)
  | .conditional condition consequent (some alternative) _ => by
    rw [Scope.nodes, Scope.ids, nodeIds_append, nodeIds_append]
    exact ((condition.nodeIds_nodes env).append (consequent.nodeIds_nodes env)).append (alternative.nodeIds_nodes _)
  | .forLoop init condition step body _ => by
    rw [Scope.nodes, Scope.ids, nodeIds_append, nodeIds_append, nodeIds_append]
    exact (((init.nodeIds_nodes _).append (condition.nodeIds_nodes _)).append (step.nodeIds_nodes _)).append
      (body.nodeIds_nodes _)
  | .whileLoop condition body _ => by
    rw [Scope.nodes, Scope.ids, nodeIds_append]
    exact (condition.nodeIds_nodes env).append (body.nodeIds_nodes env)
  | .forEach .. => List.nil_sublist _
  | .matching .. => List.nil_sublist _

/-- What the nodes of scopes name is among the positions that they name. -/
theorem Scope.nodeIds_listNodes (env : Env) :
    ∀ ss : List Scope, (nodeIds (Scope.listNodes env ss)).Sublist (Scope.listIds ss)
  | [] => .slnil
  | s :: rest => by
    rw [Scope.listNodes, Scope.listIds, nodeIds_append]
    exact (s.nodeIds_nodes env).append (Scope.nodeIds_listNodes _ rest)

end

/-- What the nodes of a declaration name is among the positions that it names. -/
theorem DeclKind.nodeIds_nodes (env : Env) (kind : DeclKind) : (nodeIds (kind.nodes env)).Sublist kind.ids := by
  cases kind with
  | constant type value =>
    cases type with
    | none => exact value.nodeIds_nodes env
    | some type =>
      rw [nodes, nodeIds_append, TypeExpr.nodeIds_nodes]
      exact value.nodeIds_nodes env
  | mutable type value =>
    cases value with
    | none =>
      rw [nodes, TypeExpr.nodeIds_nodes]
      exact List.nil_sublist _
    | some value =>
      rw [nodes, nodeIds_append, TypeExpr.nodeIds_nodes]
      exact value.nodeIds_nodes env
  | enumeration _ => exact .slnil
  | record _ members =>
    rw [nodes, TypeExpr.nodeIds_slotNodes]
    exact .slnil
  | sum _ => exact .slnil

end DeclTree

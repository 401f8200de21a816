import DeclTree.Resolution.Links

/-!
# Filling links

Filling a link changes that link and no other: the list of links of a tree with one link filled is the old list with one
entry replaced. A number behind the last link fills nothing.
-/

namespace DeclTree

namespace TypeExpr

mutual

/-- Filling a link replaces one entry of the list of links. -/
theorem links_setLink (target : DeclId) :
    ∀ (type : TypeExpr) (k : Nat), (type.setLink target k).links = type.links.set k (some target)
  | primitive _ _, _ => rfl
  | pointer base _, k => by simp only [setLink, links, links_setLink target base k]
  | nullable base _, k => by simp only [setLink, links, links_setLink target base k]
  | array element _, k => by simp only [setLink, links, links_setLink target element k]
  | named name link, k => by cases k <;> simp [setLink, links]
  | function ⟨params, result, s⟩, k => by
    rw [setLink, links, List.set_append]
    split
    · rw [links, slotLinks_setSlotLink target params k]
    · rw [links, links_setLink target result]

/-- Filling a link of slots replaces one entry of their list of links. -/
theorem slotLinks_setSlotLink (target : DeclId) :
    ∀ (slots : List (Slot TypeExpr)) (k : Nat),
      slotLinks (setSlotLink target slots k) = (slotLinks slots).set k (some target)
  | [], _ => rfl
  | ⟨name, type, s⟩ :: rest, k => by
    rw [setSlotLink, slotLinks, List.set_append]
    split
    · rw [slotLinks, links_setLink target type]
    · rw [slotLinks, slotLinks_setSlotLink target rest]

end

end TypeExpr

/-- Filling a link of a signature replaces one entry of its list of links. -/
theorem Signature.links_setLink (target : DeclId) (signature : Signature TypeExpr) (k : Nat) :
    (signature.setLink target k).links = signature.links.set k (some target) := by
  simp only [Signature.setLink, Signature.links, List.set_append]
  split
  · rw [TypeExpr.slotLinks_setSlotLink]
  · rw [TypeExpr.links_setLink]

mutual

/-- Filling a link of an expression replaces one entry of its list of links. -/
theorem Expr.links_setLink (target : DeclId) :
    ∀ (e : Expr) (k : Nat), (e.setLink target k).links = e.links.set k (some target)
  | .paren inner _, k => by simp only [Expr.setLink, Expr.links, Expr.links_setLink target inner k]
  | .unary _ operand _, k => by simp only [Expr.setLink, Expr.links, Expr.links_setLink target operand k]
  | .binary left _ right _, k => by
    rw [Expr.setLink, Expr.links, List.set_append]
    split
    · rw [Expr.links, Expr.links_setLink target left]
    · rw [Expr.links, Expr.links_setLink target right]
  | .cast operand type _, k => by
    rw [Expr.setLink, Expr.links, List.set_append]
    split
    · rw [Expr.links, TypeExpr.links_setLink]
    · rw [Expr.links, Expr.links_setLink target operand]
  | .field object _ _, k => by simp only [Expr.setLink, Expr.links, Expr.links_setLink target object k]
  | .index object position _, k => by
    rw [Expr.setLink, Expr.links, List.set_append]
    split
    · rw [Expr.links, Expr.links_setLink target object]
    · rw [Expr.links, Expr.links_setLink target position]
  | .function signature body _, k => by
    rw [Expr.setLink, Expr.links, List.set_append]
    split
    · rw [Expr.links, Signature.links_setLink]
    · rw [Expr.links, Scope.links_setLink target body]
  | .call callee arguments _, k => by
    rw [Expr.setLink, Expr.links, List.set_append]
    split
    · rw [Expr.links, Expr.links_setLink target callee]
    · rw [Expr.links, Expr.listLinks_setListLink target arguments]
  | .ident _, _ => rfl
  | .literal _ _, _ => rfl
  | .bool _ _, _ => rfl
  | .array none element elements _, k => by
    rw [Expr.setLink, Expr.links, List.set_append]
    split
    · rw [Expr.links, TypeExpr.links_setLink]
    · rw [Expr.links, Expr.listLinks_setListLink target elements]
  | .array (some count) element elements _, k => by
    rw [Expr.setLink, Expr.links, List.set_append, List.set_append]
    split
    · rw [Expr.links, TypeExpr.links_setLink]
    · split
      · rw [Expr.links, Expr.links_setLink target count]
      · rw [Expr.links, Expr.listLinks_setListLink target elements]

/-- Filling a link of expressions replaces one entry of their list of links. -/
theorem Expr.listLinks_setListLink (target : DeclId) :
    ∀ (es : List Expr) (k : Nat),
      Expr.listLinks (Expr.setListLink target es k) = (Expr.listLinks es).set k (some target)
  | [], _ => rfl
  | e :: rest, k => by
    rw [Expr.setListLink, Expr.listLinks, List.set_append]
    split
    · rw [Expr.listLinks, Expr.links_setLink target e]
    · rw [Expr.listLinks, Expr.listLinks_setListLink target rest]

/-- Filling a link of a statement replaces one entry of its list of links. -/
theorem Stmt.links_setLink (target : DeclId) :
    ∀ (s : Stmt) (k : Nat), (s.setLink target k).links = s.links.set k (some target)
  | .declaration _ _, _ => rfl
  | .increment e _, k => by simp only [Stmt.setLink, Stmt.links, Expr.links_setLink target e k]
  | .decrement e _, k => by simp only [Stmt.setLink, Stmt.links, Expr.links_setLink target e k]
  | .assign _ left value _, k => by
    rw [Stmt.setLink, Stmt.links, List.set_append]
    split
    · rw [Stmt.links, Expr.links_setLink target left]
    · rw [Stmt.links, Expr.links_setLink target value]
  | .expr value, k => by simp only [Stmt.setLink, Stmt.links, Expr.links_setLink target value k]
  | .label _, _ => rfl
  | .goto _, _ => rfl
  | .returning none _, _ => rfl
  | .returning (some value) _, k => by simp only [Stmt.setLink, Stmt.links, Expr.links_setLink target value k]

/-- Filling a link of a scope replaces one entry of its list of links. -/
theorem Scope.links_setLink (target : DeclId) :
    ∀ (s : Scope) (k : Nat), (s.setLink target k).links = s.links.set k (some target)
  | .statement stmt, k => by simp only [Scope.setLink, Scope.links, Stmt.links_setLink target stmt k]
  | .block scopes _, k => by simp only [Scope.setLink, Scope.links, Scope.listLinks_setListLink target scopes k]
  | .conditional condition consequent none _, k => by
    rw [Scope.setLink, Scope.links, List.set_append]
    split
    · rw [Scope.links, Expr.links_setLink target condition]
    · rw [Scope.links, Scope.links_setLink target consequent]
  | .conditional condition consequent (some alternative) _, k => by
    rw [Scope.setLink, Scope.links, List.set_append, List.set_append]
    split
    · rw [Scope.links, Expr.links_setLink target condition]
    · split
      · rw [Scope.links, Scope.links_setLink target consequent]
      · rw [Scope.links, Scope.links_setLink target alternative]
  | .forLoop init condition step body _, k => by
    rw [Scope.setLink, Scope.links, List.set_append, List.set_append, List.set_append]
    split
    · rw [Scope.links, Stmt.links_setLink target init]
    · split
      · rw [Scope.links, Expr.links_setLink target condition]
      · split
        · rw [Scope.links, Stmt.links_setLink target step]
        · rw [Scope.links, Scope.links_setLink target body]
  | .whileLoop condition body _, k => by
    rw [Scope.setLink, Scope.links, List.set_append]
    split
    · rw [Scope.links, Expr.links_setLink target condition]
    · rw [Scope.links, Scope.links_setLink target body]
  | .forEach .., _ => rfl
  | .matching .., _ => rfl

/-- Filling a link of scopes replaces one entry of their list of links. -/
theorem Scope.listLinks_setListLink (target : DeclId) :
    ∀ (ss : List Scope) (k : Nat),
      Scope.listLinks (Scope.setListLink target ss k) = (Scope.listLinks ss).set k (some target)
  | [], _ => rfl
  | s :: rest, k => by
    rw [Scope.setListLink, Scope.listLinks, List.set_append]
    split
    · rw [Scope.listLinks, Scope.links_setLink target s]
    · rw [Scope.listLinks, Scope.listLinks_setListLink target rest]

end

/-- Filling a link of what is declared replaces one entry of its list of links. -/
theorem DeclKind.links_setLink (target : DeclId) (kind : DeclKind) (k : Nat) :
    (kind.setLink target k).links = kind.links.set k (some target) := by
  cases kind with
  | constant type value =>
    cases type with
    | none => exact Expr.links_setLink target value k
    | some type =>
      rw [DeclKind.setLink, DeclKind.links, List.set_append]
      split
      · rw [DeclKind.links, TypeExpr.links_setLink]
      · rw [DeclKind.links, Expr.links_setLink]
  | mutable type value =>
    cases value with
    | none => exact TypeExpr.links_setLink target type k
    | some value =>
      rw [DeclKind.setLink, DeclKind.links, List.set_append]
      split
      · rw [DeclKind.links, TypeExpr.links_setLink]
      · rw [DeclKind.links, Expr.links_setLink]
  | enumeration members => rfl
  | record kind members => exact TypeExpr.slotLinks_setSlotLink target members k
  | sum members => rfl

end DeclTree

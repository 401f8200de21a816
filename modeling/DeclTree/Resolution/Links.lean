import DeclTree.Syntax.Declaration

/-!
# The links of a declaration

The links of the named types of a declaration, numbered in the order in which its plan fills them: `links` lists them
and `setLink` fills one. A for-each loop or a match is refused before any type in it is linked, so what they contain is
not numbered, and neither are the types of a sum.
-/

namespace DeclTree

namespace TypeExpr

mutual

/-- The links of a type. -/
def links : TypeExpr → List (Option DeclId)
  | primitive _ _ => []
  | pointer base _ => base.links
  | nullable base _ => base.links
  | array element _ => element.links
  | named _ link => [link]
  | function ⟨params, result, _⟩ => slotLinks params ++ result.links

/-- The links of the types of slots. -/
def slotLinks : List (Slot TypeExpr) → List (Option DeclId)
  | [] => []
  | ⟨_, type, _⟩ :: rest => type.links ++ slotLinks rest

end

mutual

/-- Fill a link of a type. -/
def setLink (target : DeclId) : TypeExpr → Nat → TypeExpr
  | primitive p s, _ => primitive p s
  | pointer base s, k => pointer (base.setLink target k) s
  | nullable base s, k => nullable (base.setLink target k) s
  | array element s, k => array (element.setLink target k) s
  | named name link, k => named name (if k = 0 then some target else link)
  | function ⟨params, result, s⟩, k =>
    if k < (slotLinks params).length then function ⟨setSlotLink target params k, result, s⟩
    else function ⟨params, result.setLink target (k - (slotLinks params).length), s⟩

/-- Fill a link of the types of slots. -/
def setSlotLink (target : DeclId) : List (Slot TypeExpr) → Nat → List (Slot TypeExpr)
  | [], _ => []
  | ⟨name, type, s⟩ :: rest, k =>
    if k < type.links.length then ⟨name, type.setLink target k, s⟩ :: rest
    else ⟨name, type, s⟩ :: setSlotLink target rest (k - type.links.length)

end

end TypeExpr

namespace Signature

/-- The links of a signature: parameters first, then the result. -/
def links (signature : Signature TypeExpr) : List (Option DeclId) :=
  TypeExpr.slotLinks signature.params ++ signature.result.links

/-- Fill a link of a signature. -/
def setLink (target : DeclId) (signature : Signature TypeExpr) (k : Nat) : Signature TypeExpr :=
  let before := (TypeExpr.slotLinks signature.params).length
  if k < before then { signature with params := TypeExpr.setSlotLink target signature.params k }
  else { signature with result := signature.result.setLink target (k - before) }

end Signature

mutual

/-- The links of an expression. -/
def Expr.links : Expr → List (Option DeclId)
  | .paren inner _ => inner.links
  | .unary _ operand _ => operand.links
  | .binary left _ right _ => left.links ++ right.links
  | .cast operand type _ => type.links ++ operand.links
  | .field object _ _ => object.links
  | .index object position _ => object.links ++ position.links
  | .function signature body _ => signature.links ++ body.links
  | .call callee arguments _ => callee.links ++ Expr.listLinks arguments
  | .ident _ => []
  | .literal _ _ => []
  | .bool _ _ => []
  | .array none element elements _ => element.links ++ Expr.listLinks elements
  | .array (some count) element elements _ => element.links ++ (count.links ++ Expr.listLinks elements)

/-- The links of expressions, in order. -/
def Expr.listLinks : List Expr → List (Option DeclId)
  | [] => []
  | e :: rest => e.links ++ Expr.listLinks rest

/-- The links of a statement. -/
def Stmt.links : Stmt → List (Option DeclId)
  | .declaration _ _ => []
  | .increment target _ => target.links
  | .decrement target _ => target.links
  | .assign _ target value _ => target.links ++ value.links
  | .expr value => value.links
  | .label _ => []
  | .goto _ => []
  | .returning none _ => []
  | .returning (some value) _ => value.links

/-- The links of a scope. -/
def Scope.links : Scope → List (Option DeclId)
  | .statement stmt => stmt.links
  | .block scopes _ => Scope.listLinks scopes
  | .conditional condition consequent none _ => condition.links ++ consequent.links
  | .conditional condition consequent (some alternative) _ =>
    condition.links ++ (consequent.links ++ alternative.links)
  | .forLoop init condition step body _ => init.links ++ (condition.links ++ (step.links ++ body.links))
  | .whileLoop condition body _ => condition.links ++ body.links
  | .forEach .. => []
  | .matching .. => []

/-- The links of scopes, in order. -/
def Scope.listLinks : List Scope → List (Option DeclId)
  | [] => []
  | scope :: rest => scope.links ++ Scope.listLinks rest

end

mutual

/-- Fill a link of an expression. -/
def Expr.setLink (target : DeclId) : Expr → Nat → Expr
  | .paren inner s, k => .paren (inner.setLink target k) s
  | .unary op operand s, k => .unary op (operand.setLink target k) s
  | .binary left op right s, k =>
    if k < left.links.length then .binary (left.setLink target k) op right s
    else .binary left op (right.setLink target (k - left.links.length)) s
  | .cast operand type s, k =>
    if k < type.links.length then .cast operand (type.setLink target k) s
    else .cast (operand.setLink target (k - type.links.length)) type s
  | .field object name s, k => .field (object.setLink target k) name s
  | .index object position s, k =>
    if k < object.links.length then .index (object.setLink target k) position s
    else .index object (position.setLink target (k - object.links.length)) s
  | .function signature body s, k =>
    if k < signature.links.length then .function (signature.setLink target k) body s
    else .function signature (body.setLink target (k - signature.links.length)) s
  | .call callee arguments s, k =>
    if k < callee.links.length then .call (callee.setLink target k) arguments s
    else .call callee (Expr.setListLink target arguments (k - callee.links.length)) s
  | .ident name, _ => .ident name
  | .literal value s, _ => .literal value s
  | .bool value s, _ => .bool value s
  | .array none element elements s, k =>
    if k < element.links.length then .array none (element.setLink target k) elements s
    else .array none element (Expr.setListLink target elements (k - element.links.length)) s
  | .array (some count) element elements s, k =>
    if k < element.links.length then .array (some count) (element.setLink target k) elements s
    else if k - element.links.length < count.links.length then
      .array (some (count.setLink target (k - element.links.length))) element elements s
    else
      .array (some count) element
        (Expr.setListLink target elements (k - element.links.length - count.links.length)) s

/-- Fill a link of expressions. -/
def Expr.setListLink (target : DeclId) : List Expr → Nat → List Expr
  | [], _ => []
  | e :: rest, k =>
    if k < e.links.length then e.setLink target k :: rest
    else e :: Expr.setListLink target rest (k - e.links.length)

/-- Fill a link of a statement. -/
def Stmt.setLink (target : DeclId) : Stmt → Nat → Stmt
  | .declaration id s, _ => .declaration id s
  | .increment e s, k => .increment (e.setLink target k) s
  | .decrement e s, k => .decrement (e.setLink target k) s
  | .assign op left value s, k =>
    if k < left.links.length then .assign op (left.setLink target k) value s
    else .assign op left (value.setLink target (k - left.links.length)) s
  | .expr value, k => .expr (value.setLink target k)
  | .label name, _ => .label name
  | .goto name, _ => .goto name
  | .returning none s, _ => .returning none s
  | .returning (some value) s, k => .returning (some (value.setLink target k)) s

/-- Fill a link of a scope. -/
def Scope.setLink (target : DeclId) : Scope → Nat → Scope
  | .statement stmt, k => .statement (stmt.setLink target k)
  | .block scopes s, k => .block (Scope.setListLink target scopes k) s
  | .conditional condition consequent none s, k =>
    if k < condition.links.length then .conditional (condition.setLink target k) consequent none s
    else .conditional condition (consequent.setLink target (k - condition.links.length)) none s
  | .conditional condition consequent (some alternative) s, k =>
    if k < condition.links.length then
      .conditional (condition.setLink target k) consequent (some alternative) s
    else if k - condition.links.length < consequent.links.length then
      .conditional condition (consequent.setLink target (k - condition.links.length)) (some alternative) s
    else
      .conditional condition consequent
        (some (alternative.setLink target (k - condition.links.length - consequent.links.length))) s
  | .forLoop init condition step body s, k =>
    if k < init.links.length then .forLoop (init.setLink target k) condition step body s
    else if k - init.links.length < condition.links.length then
      .forLoop init (condition.setLink target (k - init.links.length)) step body s
    else if k - init.links.length - condition.links.length < step.links.length then
      .forLoop init condition (step.setLink target (k - init.links.length - condition.links.length)) body s
    else
      .forLoop init condition step
        (body.setLink target (k - init.links.length - condition.links.length - step.links.length)) s
  | .whileLoop condition body s, k =>
    if k < condition.links.length then .whileLoop (condition.setLink target k) body s
    else .whileLoop condition (body.setLink target (k - condition.links.length)) s
  | .forEach element iterable body s, _ => .forEach element iterable body s
  | .matching subject arms s, _ => .matching subject arms s

/-- Fill a link of scopes. -/
def Scope.setListLink (target : DeclId) : List Scope → Nat → List Scope
  | [], _ => []
  | scope :: rest, k =>
    if k < scope.links.length then scope.setLink target k :: rest
    else scope :: Scope.setListLink target rest (k - scope.links.length)

end

namespace DeclKind

/-- The links of what is declared. -/
def links : DeclKind → List (Option DeclId)
  | constant none value => value.links
  | constant (some type) value => type.links ++ value.links
  | mutable type none => type.links
  | mutable type (some value) => type.links ++ value.links
  | record _ members => TypeExpr.slotLinks members
  | enumeration _ => []
  | sum _ => []

/-- Fill a link of what is declared. -/
def setLink (target : DeclId) : DeclKind → Nat → DeclKind
  | constant none value, k => constant none (value.setLink target k)
  | constant (some type) value, k =>
    if k < type.links.length then constant (some (type.setLink target k)) value
    else constant (some type) (value.setLink target (k - type.links.length))
  | mutable type none, k => mutable (type.setLink target k) none
  | mutable type (some value), k =>
    if k < type.links.length then mutable (type.setLink target k) (some value)
    else mutable type (some (value.setLink target (k - type.links.length)))
  | record kind members, k => record kind (TypeExpr.setSlotLink target members k)
  | enumeration members, _ => enumeration members
  | sum members, _ => sum members

end DeclKind

/-- The links of a declaration. -/
def Declaration.links (d : Declaration) : List (Option DeclId) := d.kind.links

/-- Fill a link of a declaration of the file. -/
def SourceFile.setLink (file : SourceFile) (owner : DeclId) (k : Nat) (target : DeclId) : SourceFile :=
  file.update owner fun d => { d with kind := d.kind.setLink target k }

end DeclTree

import DeclTree.Lowering.Statement

/-!
# The words of a file

The words of a file are the names that are written anywhere in it, reached from the items or not. Here is which words
are identifiers of C.
-/

namespace DeclTree

/-- Whether a character can start an identifier. C leaves open which characters beyond ASCII can; here all of them
may. -/
def isNameStart (c : Char) : Bool := c.isAlpha || c == '_' || 128 ≤ c.toNat

/-- Whether a character can stand in an identifier. -/
def isNameChar (c : Char) : Bool := isNameStart c || c.isDigit

/-- Whether a name is an identifier of C. -/
def isIdentifier (name : String) : Bool :=
  match name.toList with
  | [] => false
  | first :: rest => isNameStart first && rest.all isNameChar

/-- The characters of an identifier can stand in names. -/
theorem isNameChar_of_isIdentifier {name : String} (h : isIdentifier name) : ∀ c ∈ name.toList, isNameChar c := by
  unfold isIdentifier at h
  split at h
  · simp at h
  · next first rest hname =>
    rw [Bool.and_eq_true, List.all_eq_true] at h
    rw [hname]
    exact List.forall_mem_cons.mpr ⟨by rw [isNameChar, h.1, Bool.true_or], h.2⟩

mutual

/-- The names in a type. -/
def TypeExpr.words : TypeExpr → List String
  | .primitive _ _ => []
  | .pointer base _ => base.words
  | .nullable base _ => base.words
  | .array element _ => element.words
  | .named name _ => [name.name]
  | .function ⟨params, result, _⟩ => TypeExpr.slotWords params ++ result.words

/-- The names of slots and the names in their types. -/
def TypeExpr.slotWords : List (Slot TypeExpr) → List String
  | [] => []
  | ⟨name, type, _⟩ :: rest => name.name :: (type.words ++ TypeExpr.slotWords rest)

end

/-- The names in a signature. -/
def Signature.words (signature : Signature TypeExpr) : List String :=
  TypeExpr.slotWords signature.params ++ signature.result.words

/-- The names in a type that may be absent. -/
def TypeExpr.optionWords : Option TypeExpr → List String
  | none => []
  | some type => type.words

mutual

/-- The names in an expression. -/
def Expr.words : Expr → List String
  | .paren inner _ => inner.words
  | .unary _ operand _ => operand.words
  | .binary left _ right _ => left.words ++ right.words
  | .cast operand type _ => operand.words ++ type.words
  | .field object name _ => object.words ++ [name.name]
  | .index object position _ => object.words ++ position.words
  | .function signature body _ => signature.words ++ body.words
  | .call callee arguments _ => callee.words ++ Expr.listWords arguments
  | .ident name => [name.name]
  | .literal _ _ => []
  | .bool _ _ => []
  | .array none element elements _ => element.words ++ Expr.listWords elements
  | .array (some count) element elements _ => count.words ++ element.words ++ Expr.listWords elements

/-- The names in expressions. -/
def Expr.listWords : List Expr → List String
  | [] => []
  | e :: rest => e.words ++ Expr.listWords rest

/-- The names in a statement. What it declares has its names in the arena. -/
def Stmt.words : Stmt → List String
  | .declaration _ _ => []
  | .increment target _ => target.words
  | .decrement target _ => target.words
  | .assign _ target value _ => target.words ++ value.words
  | .expr value => value.words
  | .label name => [name.name]
  | .goto name => [name.name]
  | .returning none _ => []
  | .returning (some value) _ => value.words

/-- The names in a scope. -/
def Scope.words : Scope → List String
  | .statement stmt => stmt.words
  | .block scopes _ => Scope.listWords scopes
  | .conditional condition consequent none _ => condition.words ++ consequent.words
  | .conditional condition consequent (some alternative) _ =>
    condition.words ++ consequent.words ++ alternative.words
  | .forLoop init condition step body _ => init.words ++ condition.words ++ step.words ++ body.words
  | .whileLoop condition body _ => condition.words ++ body.words
  | .forEach element iterable body _ => element.name :: (iterable.words ++ body.words)
  | .matching subject arms _ => subject.words ++ Scope.armWords arms

/-- The names in scopes. -/
def Scope.listWords : List Scope → List String
  | [] => []
  | scope :: rest => scope.words ++ Scope.listWords rest

/-- The names in the cases of a match. -/
def Scope.armWords : List (Arm Scope) → List String
  | [] => []
  | ⟨name, scopes, _⟩ :: rest => name.name :: (Scope.listWords scopes ++ Scope.armWords rest)

end

/-- The names in an expression that may be absent. -/
def Expr.optionWords : Option Expr → List String
  | none => []
  | some e => e.words

/-- The names in what is declared. -/
def DeclKind.words : DeclKind → List String
  | .constant type value => TypeExpr.optionWords type ++ value.words
  | .mutable type value => type.words ++ Expr.optionWords value
  | .enumeration members => members.map (·.name)
  | .record _ members => TypeExpr.slotWords members
  | .sum members => members.flatMap fun slot => slot.name.name :: TypeExpr.optionWords slot.type

/-- The name of a declaration and the names in what it declares. -/
def Declaration.words (d : Declaration) : List String := d.name.name :: d.kind.words

/-- The names in a file. -/
def SourceFile.words (file : SourceFile) : List String := file.declarations.flatMap Declaration.words

/-- The count that an array literal spells out has its names from the literal. -/
theorem Expr.words_arrayCount (e : Expr) : Expr.optionWords (Lowering.arrayCount e) ⊆ e.words := by
  cases e with
  | array count element elements span =>
    cases count with
    | none => exact List.nil_subset _
    | some count =>
      rw [Expr.words, List.append_assoc]
      exact List.subset_append_left _ _
  | _ => exact List.nil_subset _

/-- The result type of a function has its names from the annotation or from the signature. -/
theorem words_resultType (ascribed : Option TypeExpr) (signature : Signature TypeExpr) :
    (Lowering.resultType ascribed signature).words ⊆ TypeExpr.optionWords ascribed ++ signature.words := by
  cases ascribed with
  | none => exact List.subset_append_right _ _
  | some type =>
    cases type with
    | function annotated =>
      exact List.subset_append_of_subset_left _ (List.subset_append_right _ _)
    | _ => exact List.subset_append_left _ _

/-- The scopes that stand directly in the body of a function have their names from the body. -/
theorem Scope.words_outermost (scope : Scope) : Scope.listWords scope.outermost ⊆ scope.words := by
  cases scope with
  | block scopes _ => exact List.Subset.refl _
  | _ => exact List.append_subset.mpr ⟨List.Subset.refl _, List.nil_subset _⟩

/-- A declaration of the arena has its names from the file. -/
theorem SourceFile.words_of_decl? {file : SourceFile} {id : DeclId} {d : Declaration} (hdecl : file.decl? id = some d) :
    d.words ⊆ file.words := fun _ hname =>
  List.mem_flatMap.mpr ⟨d, List.mem_of_getElem? hdecl, hname⟩

end DeclTree

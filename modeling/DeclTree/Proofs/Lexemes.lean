import DeclTree.Proofs.ControlFlow

/-!
# The lexemes of a text

What is printed, cut into lexemes that remember what they stand for. The use of a tag remembers the declaration that the
named type is linked to, the definition of a tag the declaration that it is printed for. Of the rest only the braces of
blocks and the parts of a for loop are kept apart; the braces of a record or of an initial value hold no definitions.

The lexemes are read off the tree. Where the tree can be lowered they spell what is printed for it.
-/

namespace DeclTree.C

/-- A lexeme of the text. -/
inductive Lexeme where
  | plain (text : String)
  /-- The use of a tag, with the declaration that is linked. -/
  | use (kind : TagKind) (tag : String) (link : DeclId)
  /-- The start of the definition of a tag, with the declaration that is printed. -/
  | define (kind : TagKind) (tag : String) (id : DeclId)
  | openBrace
  | closeBrace
  /-- The start of a for loop. -/
  | openHeader
  /-- The end of what stands in parentheses in a for loop. -/
  | closeHeader
  /-- The end of a for loop, which spells nothing. -/
  | endLoop
deriving DecidableEq

/-- What a lexeme spells. -/
def Lexeme.text : Lexeme → String
  | plain text => text
  | use kind tag _ | define kind tag _ => kind.keyword ++ " " ++ tag
  | openBrace => "\x7b"
  | closeBrace => "\x7d"
  | openHeader => "for ("
  | closeHeader => ")"
  | endLoop => ""

/-- What a row of lexemes spells. -/
def Lexeme.spell (lexemes : List Lexeme) : String := String.join (lexemes.map Lexeme.text)

/-- No lexemes spell nothing. -/
@[simp] theorem Lexeme.spell_nil : spell [] = "" := rfl

/-- Lexemes are spelled one after the other. -/
@[simp] theorem Lexeme.spell_cons (lexeme : Lexeme) (rest : List Lexeme) :
    spell (lexeme :: rest) = lexeme.text ++ spell rest := String.join_cons

/-- Rows of lexemes are spelled one after the other. -/
@[simp] theorem Lexeme.spell_append (first second : List Lexeme) :
    spell (first ++ second) = spell first ++ spell second := by
  rw [spell, List.map_append, String.join_append, spell, spell]

/-- No tokens spell nothing. -/
@[simp] theorem Token.spell_nil : spell [] = "" := rfl

/-- Tokens are spelled one after the other. -/
@[simp] theorem Token.spell_cons (token : Token) (rest : List Token) :
    spell (token :: rest) = token.text ++ spell rest := String.join_cons

/-- Rows of tokens are spelled one after the other. -/
@[simp] theorem Token.spell_append (first second : List Token) :
    spell (first ++ second) = spell first ++ spell second := by
  rw [spell, List.map_append, String.join_append, spell, spell]

/-- No pieces spell nothing. -/
@[simp] theorem Piece.spell_nil : spell [] = "" := rfl

/-- Pieces are spelled one after the other. -/
@[simp] theorem Piece.spell_cons (piece : Piece) (rest : List Piece) :
    spell (piece :: rest) = piece.text ++ spell rest := String.join_cons

/-- Rows of pieces are spelled one after the other. -/
@[simp] theorem Piece.spell_append (first second : List Piece) :
    spell (first ++ second) = spell first ++ spell second := by
  rw [spell, List.map_append, String.join_append, spell, spell]

/-- A pointer is a star behind the type. -/
theorem TypeName.text_pointer (type : TypeName) : type.pointer.text = type.text ++ " *" := by
  simp [text, tokens, pointer, List.replicate_succ', Token.text, String.append_assoc]

end DeclTree.C

namespace DeclTree

open C (Lexeme)

/-- The kind of tag that C gives to what is declared. -/
def DeclKind.tagKind? : DeclKind → Option C.TagKind
  | .record .struct _ => some .struct
  | .record .union _ => some .union
  | .enumeration _ => some .enum
  | .constant .. | .mutable .. | .sum _ => none

/-- The kind of tag that C gives to the declaration at a position. -/
def SourceFile.tagKindAt? (file : SourceFile) (id : DeclId) : Option C.TagKind :=
  (file.decl? id).bind fun d => d.kind.tagKind?

/-- The lexemes of a type name. -/
def TypeExpr.lexemes (file : SourceFile) : TypeExpr → List Lexeme
  | .primitive p _ => [.plain (C.TypeName.text ⟨.primitive p, 0⟩)]
  | .pointer base _ => base.lexemes file ++ [.plain " *"]
  | .nullable base _ => base.lexemes file ++ [.plain " *"]
  | .array element _ => element.lexemes file
  | .named name link =>
    (link.bind fun id => (file.tagKindAt? id).map fun kind => Lexeme.use kind name.name id).toList
  | .function _ => []

mutual

/-- The lexemes of an expression. -/
def Expr.lexemes (file : SourceFile) : Expr → List Lexeme
  | .paren inner _ => .plain "(" :: (inner.lexemes file ++ [.plain ")"])
  | .unary op operand _ => .plain (C.unaryGlyph op) :: operand.lexemes file
  | .binary left op right _ =>
    left.lexemes file ++ .plain (" " ++ C.binaryGlyph op ++ " ") :: right.lexemes file
  | .cast operand type _ => .plain "(" :: (type.lexemes file ++ .plain ")" :: operand.lexemes file)
  | .field object name _ => object.lexemes file ++ [.plain ("." ++ name.name)]
  | .index object position _ =>
    object.lexemes file ++ .plain "[" :: (position.lexemes file ++ [.plain "]"])
  | .function .. => []
  | .call callee arguments _ =>
    callee.lexemes file ++ .plain "(" :: (Expr.listLexemes file arguments ++ [.plain ")"])
  | .ident name => [.plain name.name]
  | .literal value _ => [.plain (C.literalText value)]
  | .bool value _ => [.plain (if value then "1" else "0")]
  | .array _ _ elements _ => .plain "\x7b" :: (Expr.listLexemes file elements ++ [.plain "\x7d"])

/-- The lexemes of expressions with commas between. -/
def Expr.listLexemes (file : SourceFile) : List Expr → List Lexeme
  | [] => []
  | e :: rest => e.lexemes file ++ Expr.moreLexemes file rest

/-- The lexemes of expressions with a comma before each. -/
def Expr.moreLexemes (file : SourceFile) : List Expr → List Lexeme
  | [] => []
  | e :: rest => .plain "," :: .plain " " :: (e.lexemes file ++ Expr.moreLexemes file rest)

end

/-- The lexemes of an extent, given the count that is written in it. -/
def extentLexemes (file : SourceFile) : Option Expr → List Lexeme
  | none => [.plain "[]"]
  | some count => .plain "[" :: (count.lexemes file ++ [.plain "]"])

/-- The lexemes of a declarator. -/
def declaratorLexemes (file : SourceFile) (type : TypeExpr) (name : String) (count : Option Expr) : List Lexeme :=
  match type with
  | .array element _ => element.lexemes file ++ .plain (" " ++ name) :: extentLexemes file count
  | type => type.lexemes file ++ [.plain (" " ++ name)]

/-- The lexemes of a member of a record, a line of its own. -/
def memberLexemes (file : SourceFile) (level : Nat) (slot : Slot TypeExpr) : List Lexeme :=
  .plain (C.indentation level) :: (declaratorLexemes file slot.type slot.name.name none ++ [.plain ";\n"])

/-- The lexemes of an initial value. -/
def initialLexemes (file : SourceFile) : Option Expr → List Lexeme
  | none => []
  | some value => .plain " = " :: value.lexemes file

/-- The lexemes of the definition of a tag, given what stands in its braces. -/
def definitionLexemes (level : Nat) (kind : C.TagKind) (tag : String) (id : DeclId) (members : List Lexeme) :
    List Lexeme :=
  .define kind tag id :: .plain " \x7b\n" :: (members ++ [.plain (C.indentation level ++ "\x7d")])

/-- The lexemes of a declaration that is not a function. -/
def Declaration.lexemes (file : SourceFile) (level : Nat) (id : DeclId) (d : Declaration) : List Lexeme :=
  match d.kind with
  | .constant none _ => []
  | .constant (some type) value =>
    declaratorLexemes file type d.name.name (Lowering.arrayCount value) ++ initialLexemes file (some value)
  | .mutable type value =>
    declaratorLexemes file type d.name.name (value.bind Lowering.arrayCount) ++ initialLexemes file value
  | .enumeration members =>
    definitionLexemes level .enum d.name.name id
      [.plain (",\n".intercalate (members.map (C.indentation (level + 1) ++ ·.name))
        ++ if members.isEmpty then "" else "\n")]
  | .record .struct members =>
    definitionLexemes level .struct d.name.name id (members.flatMap (memberLexemes file (level + 1)))
  | .record .union members =>
    definitionLexemes level .union d.name.name id (members.flatMap (memberLexemes file (level + 1)))
  | .sum _ => []

/-- The lexemes of a statement without its terminator. -/
def Stmt.lexemes (file : SourceFile) (level : Nat) : Stmt → List Lexeme
  | .declaration id _ => ((file.decl? id).map (Declaration.lexemes file level id)).getD []
  | .increment target _ => .plain "++" :: target.lexemes file
  | .decrement target _ => .plain "--" :: target.lexemes file
  | .assign op target value _ =>
    target.lexemes file ++ .plain (" " ++ (Lowering.assignGlyph? op).getD "" ++ " ") :: value.lexemes file
  | .expr value => value.lexemes file
  | .label name => [.plain (name.name ++ ":")]
  | .goto name => [.plain ("goto " ++ name.name)]
  | .returning none _ => [.plain "return"]
  | .returning (some value) _ => .plain "return " :: value.lexemes file

/-- The lexemes of a body behind a header, from those of the scope at each level. -/
def bodyLexemes (level : Nat) (isBlock : Bool) (lexemes : Nat → List Lexeme) : List Lexeme :=
  if isBlock then .plain " " :: lexemes level
  else .plain ("\n" ++ C.indentation (level + 1)) :: lexemes (level + 1)

/-- The lexemes of a block from those of the lines in it. -/
def blockLexemes (level : Nat) (lines : List Lexeme) : List Lexeme :=
  .openBrace :: .plain "\n" :: (lines ++ [.plain (C.indentation level), .closeBrace, .plain "\n\n"])

/-- The lexemes of the first branch of a conditional that has an `else`: it always stands in braces. -/
def branchLexemes (level : Nat) (isBlock : Bool) (lexemes : Nat → List Lexeme) : List Lexeme :=
  .plain " " ::
    if isBlock then lexemes level else blockLexemes level (.plain (C.indentation (level + 1)) :: lexemes (level + 1))

/-- The lexemes of what stands behind an `else`. -/
def elseLexemes (level : Nat) (isBlock isConditional : Bool) (lexemes : Nat → List Lexeme) : List Lexeme :=
  .plain (C.indentation level ++ "else") ::
    if isConditional then .plain " " :: lexemes level else bodyLexemes level isBlock lexemes

mutual

/-- The lexemes of a scope behind the indentation of its first line. -/
def Scope.lexemes (file : SourceFile) : Scope → Nat → List Lexeme
  | .statement stmt, level => stmt.lexemes file level ++ [.plain ";\n"]
  | .block scopes _, level => blockLexemes level (Scope.lineLexemes file scopes (level + 1))
  | .conditional condition consequent none _, level =>
    .plain "if (" :: (condition.lexemes file ++ .plain ")" ::
      bodyLexemes level consequent.isBlock fun n => consequent.lexemes file n)
  | .conditional condition consequent (some alternative) _, level =>
    .plain "if (" :: (condition.lexemes file ++ .plain ")" ::
      ((branchLexemes level consequent.isBlock fun n => consequent.lexemes file n)
        ++ elseLexemes level alternative.isBlock alternative.isConditional fun n => alternative.lexemes file n))
  | .forLoop init condition step body _, level =>
    .openHeader :: (init.lexemes file level ++ .plain "; " :: (condition.lexemes file ++ .plain "; " ::
      (step.lexemes file level ++ .closeHeader ::
        ((bodyLexemes level body.isBlock fun n => body.lexemes file n) ++ [.endLoop]))))
  | .whileLoop condition body _, level =>
    .plain "while (" :: (condition.lexemes file ++ .plain ")" ::
      bodyLexemes level body.isBlock fun n => body.lexemes file n)
  | .forEach .., _ => []
  | .matching .., _ => []

/-- The lexemes of scopes that each start a line. -/
def Scope.lineLexemes (file : SourceFile) : List Scope → Nat → List Lexeme
  | [], _ => []
  | scope :: rest, level =>
    .plain (C.indentation level) :: (scope.lexemes file level ++ Scope.lineLexemes file rest level)

end

/-- The lexemes of a function in front of its body. -/
def headLexemes (file : SourceFile) (name : String) (ascribed : Option TypeExpr) (signature : Signature TypeExpr) :
    List Lexeme :=
  (Lowering.resultType ascribed signature).lexemes file ++ .plain (" " ++ name ++ "(") ::
    ([Lexeme.plain ", "].intercalate
      (signature.params.map fun slot => declaratorLexemes file slot.type slot.name.name none) ++ [.plain ") "])

/-- The lexemes of the body of a function, its braces included. -/
def Scope.functionLexemes (file : SourceFile) (scope : Scope) : List Lexeme :=
  blockLexemes 0 (Scope.lineLexemes file scope.outermost 1)

/-- The lexemes of an item. -/
def SourceFile.itemLexemes (file : SourceFile) (id : DeclId) : List Lexeme :=
  match file.decl? id with
  | none => []
  | some d =>
    match d.kind with
    | .constant ascribed (.function signature scope _) =>
      headLexemes file d.name.name ascribed signature ++ scope.functionLexemes file
    | _ => d.lexemes file 0 id ++ [.plain ";\n\n"]

namespace SourceFile

variable {file : SourceFile} {id : DeclId} {d : Declaration}

/-- A function is printed as its head and its body. -/
theorem itemLexemes_of_function {ascribed : Option TypeExpr} {signature : Signature TypeExpr} {scope : Scope}
    {span : Span} (hdecl : file.decl? id = some d)
    (hkind : d.kind = .constant ascribed (.function signature scope span)) :
    file.itemLexemes id = headLexemes file d.name.name ascribed signature ++ scope.functionLexemes file := by
  simp only [itemLexemes, hdecl, hkind]

/-- An item that is no function is printed as its declaration, with a semicolon and a blank line behind it. -/
theorem itemLexemes_of_not_function (hdecl : file.decl? id = some d) (hfunction : d.isFunction = false) :
    file.itemLexemes id = d.lexemes file 0 id ++ [.plain ";\n\n"] := by
  simp only [itemLexemes, hdecl]
  split
  · next hkind => simp [Declaration.isFunction, DeclKind.isFunction, hkind] at hfunction
  · rfl

end SourceFile

section Spelling

variable {file : SourceFile}

open Lowering

/-- A declaration that is looked up is the one at the position. -/
theorem declAt_eq_ok {id : DeclId} {d : Declaration} (h : declAt file id = .ok d) : file.decl? id = some d := by
  rw [declAt] at h
  split at h
  · next hdecl => rw [hdecl, Except.ok.inj h]
  · simp at h

/-- A named type takes the kind of the declaration that it is linked to. -/
theorem namedType_eq_ok {name : Ident} {link : Option DeclId} {t : C.TypeName} (h : namedType file name link = .ok t) :
    ∃ id kind, link = some id ∧ file.tagKindAt? id = some kind ∧ t = ⟨.tagged kind name.name, 0⟩ := by
  cases link with
  | none => cases h
  | some id =>
    obtain ⟨d, hdecl, h⟩ := Except.bind_eq_ok_iff.mp h
    have hkind : file.tagKindAt? id = d.kind.tagKind? := by
      rw [SourceFile.tagKindAt?, declAt_eq_ok hdecl, Option.bind_some]
    cases hd : d.kind with
    | constant _ _ | mutable _ _ | sum _ => simp [hd] at h
    | enumeration _ =>
      rw [hd] at h hkind
      cases h
      exact ⟨id, .enum, rfl, hkind, rfl⟩
    | record kind _ =>
      rw [hd] at h hkind
      cases kind with
      | struct =>
        cases h
        exact ⟨id, .struct, rfl, hkind, rfl⟩
      | union =>
        cases h
        exact ⟨id, .union, rfl, hkind, rfl⟩

/-- The lexemes of a type spell its name. -/
theorem TypeExpr.spell_lexemes : ∀ (type : TypeExpr) {t : C.TypeName}, typeName file type = .ok t →
    Lexeme.spell (type.lexemes file) = t.text
  | .primitive p _, t, h => by
    cases h
    simp [lexemes, Lexeme.text]
  | .pointer base _, t, h => by
    obtain ⟨b, hb, rfl⟩ := Except.map_eq_ok_iff.mp h
    simp [lexemes, base.spell_lexemes hb, Lexeme.text, C.TypeName.text_pointer]
  | .nullable base _, t, h => by
    obtain ⟨b, hb, rfl⟩ := Except.map_eq_ok_iff.mp h
    simp [lexemes, base.spell_lexemes hb, Lexeme.text, C.TypeName.text_pointer]
  | .array element _, t, h => element.spell_lexemes h
  | .named name link, t, h => by
    obtain ⟨id, kind, rfl, hkind, rfl⟩ := namedType_eq_ok h
    simp [lexemes, hkind, Lexeme.text, C.TypeName.text, C.TypeName.tokens, C.Token.text, String.append_assoc]
  | .function _, t, h => by simp [typeName] at h

/-- A literal that is lowered is printed as it is. -/
theorem literal_eq_ok {value : Literal} {span : Span} {c : C.Expr} (h : literal value span = .ok c) :
    c = .literal value := by
  unfold literal at h
  split at h
  · split at h <;> simp_all
  · split at h <;> simp_all
  · exact (Except.ok.inj h).symm

mutual

/-- The lexemes of an expression spell its text. -/
theorem Expr.spell_lexemes : ∀ (e : Expr) {c : C.Expr}, expr file e = .ok c →
    Lexeme.spell (e.lexemes file) = c.text
  | .paren inner _, _, h => by
    obtain ⟨i, hi, ⟨⟩⟩ := Except.bind_eq_ok_iff.mp h
    simp [Expr.lexemes, inner.spell_lexemes hi, Lexeme.text, C.Expr.text, C.Expr.tokens, C.Token.text]
  | .unary op operand _, _, h => by
    obtain ⟨o, ho, ⟨⟩⟩ := Except.bind_eq_ok_iff.mp h
    simp [Expr.lexemes, operand.spell_lexemes ho, Lexeme.text, C.Expr.text, C.Expr.tokens, C.Token.text]
  | .binary left op right _, _, h => by
    obtain ⟨l, hl, h⟩ := Except.bind_eq_ok_iff.mp h
    obtain ⟨r, hr, ⟨⟩⟩ := Except.bind_eq_ok_iff.mp h
    simp [Expr.lexemes, left.spell_lexemes hl, right.spell_lexemes hr, Lexeme.text, C.Expr.text, C.Expr.tokens,
      C.Token.text, String.append_assoc]
  | .cast operand type _, _, h => by
    obtain ⟨t, ht, h⟩ := Except.bind_eq_ok_iff.mp h
    obtain ⟨o, ho, ⟨⟩⟩ := Except.bind_eq_ok_iff.mp h
    simp [Expr.lexemes, type.spell_lexemes ht, operand.spell_lexemes ho, Lexeme.text, C.Expr.text, C.Expr.tokens,
      C.Token.text, C.TypeName.text]
  | .field object name _, _, h => by
    obtain ⟨o, ho, ⟨⟩⟩ := Except.bind_eq_ok_iff.mp h
    simp [Expr.lexemes, object.spell_lexemes ho, Lexeme.text, C.Expr.text, C.Expr.tokens, C.Token.text]
  | .index object position _, _, h => by
    obtain ⟨o, ho, h⟩ := Except.bind_eq_ok_iff.mp h
    obtain ⟨p, hp, ⟨⟩⟩ := Except.bind_eq_ok_iff.mp h
    simp [Expr.lexemes, object.spell_lexemes ho, position.spell_lexemes hp, Lexeme.text, C.Expr.text, C.Expr.tokens,
      C.Token.text]
  | .function .., _, h => by simp [expr] at h
  | .call callee arguments _, _, h => by
    obtain ⟨c, hc, h⟩ := Except.bind_eq_ok_iff.mp h
    obtain ⟨as, has, ⟨⟩⟩ := Except.bind_eq_ok_iff.mp h
    simp [Expr.lexemes, callee.spell_lexemes hc, (Expr.spell_listLexemes arguments has).1, Lexeme.text, C.Expr.text,
      C.Expr.tokens, C.Token.text]
  | .ident name, _, h => by
    cases h
    simp [Expr.lexemes, Lexeme.text, C.Expr.text, C.Expr.tokens, C.Token.text]
  | .literal value span, _, h => by
    obtain rfl := literal_eq_ok h
    simp [Expr.lexemes, Lexeme.text, C.Expr.text, C.Expr.tokens, C.Token.text]
  | .bool value _, _, h => by
    cases h
    simp [Expr.lexemes, Lexeme.text, C.Expr.text, C.Expr.tokens, C.Token.text]
  | .array _ _ elements _, _, h => by
    obtain ⟨es, hes, ⟨⟩⟩ := Except.bind_eq_ok_iff.mp h
    simp [Expr.lexemes, (Expr.spell_listLexemes elements hes).1, Lexeme.text, C.Expr.text, C.Expr.tokens, C.Token.text]

/-- The lexemes of expressions spell their texts, with commas between or a comma before each. -/
theorem Expr.spell_listLexemes : ∀ (es : List Expr) {cs : List C.Expr}, exprs file es = .ok cs →
    Lexeme.spell (Expr.listLexemes file es) = C.Token.spell (C.Expr.listTokens cs) ∧
    Lexeme.spell (Expr.moreLexemes file es) = C.Token.spell (C.Expr.moreTokens cs)
  | [], _, h => by
    cases h
    exact ⟨rfl, rfl⟩
  | e :: rest, _, h => by
    obtain ⟨c, hc, h⟩ := Except.bind_eq_ok_iff.mp h
    obtain ⟨cs, hcs, ⟨⟩⟩ := Except.bind_eq_ok_iff.mp h
    have hfirst := e.spell_lexemes hc
    have hrest := (Expr.spell_listLexemes rest hcs).2
    constructor
    · simp [Expr.listLexemes, C.Expr.listTokens, hfirst, hrest, C.Expr.text]
    · simp [Expr.moreLexemes, C.Expr.moreTokens, hfirst, hrest, C.Expr.text, Lexeme.text, C.Token.text]

end

/-- The lexemes of a declarator spell its text. -/
theorem spell_declaratorLexemes {type : TypeExpr} {name : String} {count : Option Expr} {d : C.Declarator}
    (h : declarator file type name count = .ok d) : Lexeme.spell (declaratorLexemes file type name count) = d.text := by
  unfold declarator at h
  split at h
  · cases h
  · next element _ _ =>
    obtain ⟨extent, hextent, h⟩ := Except.bind_eq_ok_iff.mp h
    obtain ⟨t, ht, ⟨⟩⟩ := Except.bind_eq_ok_iff.mp h
    cases count with
    | none =>
      cases hextent
      simp [declaratorLexemes, extentLexemes, element.spell_lexemes ht, Lexeme.text, C.Declarator.text,
        String.append_assoc]
    | some count =>
      obtain ⟨c, hc, rfl⟩ := Except.map_eq_ok_iff.mp hextent
      simp [declaratorLexemes, extentLexemes, element.spell_lexemes ht, count.spell_lexemes hc, Lexeme.text,
        C.Declarator.text, String.append_assoc]
  · next hnested harray =>
    obtain ⟨t, ht, ⟨⟩⟩ := Except.bind_eq_ok_iff.mp h
    have hlexemes : declaratorLexemes file type name count = type.lexemes file ++ [.plain (" " ++ name)] := by
      cases type with
      | array element span => exact absurd rfl (harray element span)
      | _ => rfl
    simp [hlexemes, type.spell_lexemes ht, Lexeme.text, C.Declarator.text, String.append_assoc]

/-- The lexemes of slots that are lowered one after the other spell their texts. -/
theorem declarators_cons_eq_ok {slot : Slot TypeExpr} {rest : List (Slot TypeExpr)} {ds : List C.Declarator}
    (h : declarators file (slot :: rest) = .ok ds) :
    ∃ d others, ds = d :: others ∧ declarator file slot.type slot.name.name none = .ok d ∧
      declarators file rest = .ok others := by
  rw [declarators, List.mapM_cons] at h
  obtain ⟨d, hd, h⟩ := Except.bind_eq_ok_iff.mp h
  obtain ⟨others, hothers, ⟨⟩⟩ := Except.bind_eq_ok_iff.mp h
  exact ⟨d, others, rfl, hd, hothers⟩

/-- The lexemes of members spell their lines. -/
theorem spell_memberLexemes (level : Nat) {slots : List (Slot TypeExpr)} {ds : List C.Declarator}
    (h : declarators file slots = .ok ds) :
    Lexeme.spell (slots.flatMap (memberLexemes file level)) =
      String.join (ds.map fun m => C.indentation level ++ m.text ++ ";\n") := by
  induction slots generalizing ds with
  | nil =>
    cases h
    rfl
  | cons slot rest ih =>
    obtain ⟨d, others, rfl, hd, hothers⟩ := declarators_cons_eq_ok h
    simp [memberLexemes, spell_declaratorLexemes hd, ih hothers, Lexeme.text, String.append_assoc]

/-- The lexemes of an initial value spell it behind an equals sign. -/
theorem spell_initialLexemes {value : Option Expr} {initial : Option C.Expr} (h : optionExpr file value = .ok initial) :
    Lexeme.spell (initialLexemes file value) = (initial.map fun v => " = " ++ v.text).getD "" := by
  cases value with
  | none =>
    cases h
    rfl
  | some value =>
    obtain ⟨v, hv, rfl⟩ := Except.map_eq_ok_iff.mp h
    simp [initialLexemes, value.spell_lexemes hv, Lexeme.text]

/-- The lexemes of a declaration spell its text. -/
theorem Declaration.spell_lexemes {d : Declaration} (level : Nat) (id : DeclId) {lowered : C.Declaration}
    (h : declaration file d = .ok lowered) : Lexeme.spell (d.lexemes file level id) = lowered.text level := by
  unfold declaration at h
  unfold Declaration.lexemes
  split at h
  · cases h
  · next type value hkind =>
    obtain ⟨c, hc, h⟩ := Except.bind_eq_ok_iff.mp h
    obtain ⟨v, hv, ⟨⟩⟩ := Except.bind_eq_ok_iff.mp h
    simp [hkind, initialLexemes, spell_declaratorLexemes hc, value.spell_lexemes hv, Lexeme.text, C.Declaration.text,
      String.append_assoc]
  · next type value hkind =>
    obtain ⟨c, hc, h⟩ := Except.bind_eq_ok_iff.mp h
    obtain ⟨v, hv, ⟨⟩⟩ := Except.bind_eq_ok_iff.mp h
    cases v <;>
      simp [hkind, spell_declaratorLexemes hc, spell_initialLexemes hv, C.Declaration.text, String.append_assoc]
  · next members hkind =>
    cases h
    simp [hkind, definitionLexemes, Lexeme.text, C.TagKind.keyword, C.Declaration.text, String.append_assoc,
      Function.comp_def]
  · next kind members hkind =>
    obtain ⟨ds, hds, ⟨⟩⟩ := Except.bind_eq_ok_iff.mp h
    cases kind <;>
      simp [hkind, definitionLexemes, spell_memberLexemes (level + 1) hds, Lexeme.text, C.TagKind.keyword,
        RecordKind.keyword, C.Declaration.text, String.append_assoc]
  · cases h

/-- A statement that declares something is lowered like the declaration, which is not a function. -/
theorem simple_declaration_eq_ok {id : DeclId} {span : Span} {s : C.Simple}
    (h : simple file (.declaration id span) = .ok s) :
    ∃ d lowered, file.decl? id = some d ∧ d.isFunction = false ∧ declaration file d = .ok lowered ∧
      s = .declaration lowered := by
  obtain ⟨d, hdecl, h⟩ := Except.bind_eq_ok_iff.mp h
  cases hfunction : d.isFunction with
  | true =>
    rw [hfunction] at h
    cases h
  | false =>
    rw [hfunction] at h
    obtain ⟨lowered, hlowered, ⟨⟩⟩ := Except.bind_eq_ok_iff.mp h
    exact ⟨d, lowered, declAt_eq_ok hdecl, hfunction, hlowered, rfl⟩

/-- The lexemes of a statement spell its text. -/
theorem Stmt.spell_lexemes (stmt : Stmt) (level : Nat) {s : C.Simple} (h : simple file stmt = .ok s) :
    Lexeme.spell (stmt.lexemes file level) = s.text level := by
  cases stmt with
  | declaration id span =>
    obtain ⟨d, lowered, hdecl, -, hlowered, rfl⟩ := simple_declaration_eq_ok h
    simp [Stmt.lexemes, hdecl, Declaration.spell_lexemes level id hlowered, C.Simple.text]
  | increment target _ =>
    obtain ⟨t, ht, rfl⟩ := Except.map_eq_ok_iff.mp h
    simp [Stmt.lexemes, target.spell_lexemes ht, Lexeme.text, C.Simple.text]
  | decrement target _ =>
    obtain ⟨t, ht, rfl⟩ := Except.map_eq_ok_iff.mp h
    simp [Stmt.lexemes, target.spell_lexemes ht, Lexeme.text, C.Simple.text]
  | assign op target value _ =>
    rw [simple] at h
    cases hglyph : assignGlyph? op with
    | none => simp [hglyph] at h
    | some glyph =>
      rw [hglyph] at h
      obtain ⟨t, ht, h⟩ := Except.bind_eq_ok_iff.mp h
      obtain ⟨v, hv, ⟨⟩⟩ := Except.bind_eq_ok_iff.mp h
      simp [Stmt.lexemes, hglyph, target.spell_lexemes ht, value.spell_lexemes hv, Lexeme.text, C.Simple.text,
        String.append_assoc]
  | expr value =>
    obtain ⟨v, hv, rfl⟩ := Except.map_eq_ok_iff.mp h
    exact value.spell_lexemes hv
  | label name =>
    cases h
    simp [Stmt.lexemes, Lexeme.text, C.Simple.text]
  | goto name =>
    cases h
    simp [Stmt.lexemes, Lexeme.text, C.Simple.text]
  | returning value _ =>
    obtain ⟨v, hv, rfl⟩ := Except.map_eq_ok_iff.mp h
    cases value with
    | none =>
      cases hv
      simp [Stmt.lexemes, Lexeme.text, C.Simple.text]
    | some value =>
      obtain ⟨v, hvalue, rfl⟩ := Except.map_eq_ok_iff.mp hv
      simp [Stmt.lexemes, value.spell_lexemes hvalue, Lexeme.text, C.Simple.text]

end Spelling

section Layout

open C

variable {lexemes : Nat → List Lexeme} {pieces : Nat → List Piece}

/-- A body is spelled as it is laid out. -/
theorem spell_bodyLexemes (level : Nat) (isBlock : Bool) (h : ∀ n, Lexeme.spell (lexemes n) = Piece.spell (pieces n)) :
    Lexeme.spell (bodyLexemes level isBlock lexemes) = Piece.spell (Statement.bodyPieces level isBlock pieces) := by
  cases isBlock <;> simp [bodyLexemes, Statement.bodyPieces, h, Lexeme.text, Piece.text, String.append_assoc]

/-- A block is spelled as it is laid out. -/
theorem spell_blockLexemes (level : Nat) {lines : List Lexeme} {linePieces : List Piece}
    (h : Lexeme.spell lines = Piece.spell linePieces) :
    Lexeme.spell (blockLexemes level lines) = Piece.spell (Statement.blockPieces level linePieces) := by
  simp [blockLexemes, Statement.blockPieces, h, Lexeme.text, Piece.text]

/-- The first branch before an `else` is spelled as it is laid out. -/
theorem spell_branchLexemes (level : Nat) (isBlock : Bool)
    (h : ∀ n, Lexeme.spell (lexemes n) = Piece.spell (pieces n)) :
    Lexeme.spell (branchLexemes level isBlock lexemes) = Piece.spell (if isBlock then .blank :: pieces level
      else .blank :: Statement.blockPieces level (.indent (level + 1) :: pieces (level + 1))) := by
  cases isBlock with
  | true => simp [branchLexemes, h, Lexeme.text, Piece.text]
  | false =>
    have hline : Lexeme.spell (.plain (indentation (level + 1)) :: lexemes (level + 1)) =
        Piece.spell (.indent (level + 1) :: pieces (level + 1)) := by simp [h, Lexeme.text, Piece.text]
    simp [branchLexemes, spell_blockLexemes level hline, Lexeme.text, Piece.text]

/-- What stands behind an `else` is spelled as it is laid out. -/
theorem spell_elseLexemes (level : Nat) (isBlock isConditional : Bool)
    (h : ∀ n, Lexeme.spell (lexemes n) = Piece.spell (pieces n)) :
    Lexeme.spell (elseLexemes level isBlock isConditional lexemes) = Piece.spell ([.indent level, .otherwise] ++
      if isConditional then .blank :: pieces level else Statement.bodyPieces level isBlock pieces) := by
  cases isConditional <;>
    simp [elseLexemes, spell_bodyLexemes level isBlock h, h, Lexeme.text, Piece.text, String.append_assoc]

end Layout

mutual

/-- The lexemes of a scope spell what is printed for it. -/
theorem Scope.spell_lexemes {file : SourceFile} : ∀ (scope : Scope) (level : Nat) {s : C.Statement},
    Lowering.statement file scope = .ok s → Lexeme.spell (scope.lexemes file level) = C.Piece.spell (s.pieces level)
  | .statement stmt, level, _, h => by
    obtain ⟨hstmt⟩ := lowered_of_statement h
    simp [Scope.lexemes, stmt.spell_lexemes level hstmt, Lexeme.text, C.Statement.pieces, C.Piece.text,
      String.append_assoc]
  | .block scopes _, level, _, h => by
    cases lowered_of_statement h with
    | block hscopes => exact spell_blockLexemes level (Scope.spell_lineLexemes scopes (level + 1) hscopes)
  | .conditional condition consequent none _, level, _, h => by
    cases lowered_of_statement h with
    | conditional hcondition hconsequent =>
      have hbody := spell_bodyLexemes level consequent.isBlock fun n => consequent.spell_lexemes n hconsequent
      simp [Scope.lexemes, condition.spell_lexemes hcondition, hbody, (lowered_of_statement hconsequent).shape,
        Lexeme.text, C.Statement.pieces, C.Piece.text, String.append_assoc]
  | .conditional condition consequent (some alternative) _, level, _, h => by
    cases lowered_of_statement h with
    | alternative hcondition hconsequent halternative =>
      have hbranch := spell_branchLexemes level consequent.isBlock fun n => consequent.spell_lexemes n hconsequent
      have helse := spell_elseLexemes level alternative.isBlock alternative.isConditional
        fun n => alternative.spell_lexemes n halternative
      simp [Scope.lexemes, condition.spell_lexemes hcondition, hbranch, helse, (lowered_of_statement hconsequent).shape,
        (lowered_of_statement halternative).shape, Lexeme.text, C.Statement.pieces, C.Piece.text, String.append_assoc]
  | .forLoop init condition step body _, level, _, h => by
    cases lowered_of_statement h with
    | forLoop hinit hcondition hstep hbody =>
      have hlast := spell_bodyLexemes level body.isBlock fun n => body.spell_lexemes n hbody
      simp [Scope.lexemes, init.spell_lexemes level hinit, condition.spell_lexemes hcondition,
        step.spell_lexemes level hstep, hlast, (lowered_of_statement hbody).shape, Lexeme.text, C.Statement.pieces,
        C.Piece.text, String.append_assoc]
  | .whileLoop condition body _, level, _, h => by
    cases lowered_of_statement h with
    | whileLoop hcondition hbody =>
      have hlast := spell_bodyLexemes level body.isBlock fun n => body.spell_lexemes n hbody
      simp [Scope.lexemes, condition.spell_lexemes hcondition, hlast, (lowered_of_statement hbody).shape, Lexeme.text,
        C.Statement.pieces, C.Piece.text, String.append_assoc]
  | .forEach .., _, _, h => by cases h
  | .matching .., _, _, h => by cases h

/-- The lexemes of scopes spell what is printed for them. -/
theorem Scope.spell_lineLexemes {file : SourceFile} : ∀ (scopes : List Scope) (level : Nat) {ss : List C.Statement},
    Lowering.statements file scopes = .ok ss →
    Lexeme.spell (Scope.lineLexemes file scopes level) = C.Piece.spell (C.Statement.linePieces ss level)
  | [], level, _, h => by
    cases h
    rfl
  | scope :: rest, level, _, h => by
    obtain ⟨s, ss, rfl, hs, hss⟩ := statements_cons_eq_ok h
    simp [Scope.lineLexemes, scope.spell_lexemes level hs, Scope.spell_lineLexemes rest level hss, Lexeme.text,
      C.Statement.linePieces, C.Piece.text]

end

section Units

open Lowering

variable {file : SourceFile}

/-- Lexemes with a row between every two of them spell their texts with the row's text between. -/
theorem spell_intercalate (mark : List Lexeme) (rows : List (List Lexeme)) :
    Lexeme.spell (mark.intercalate rows) = (Lexeme.spell mark).intercalate (rows.map Lexeme.spell) := by
  induction rows with
  | nil => rfl
  | cons row rest ih =>
    cases rest with
    | nil => simp
    | cons next rest =>
      rw [List.intercalate_cons_cons, List.map_cons, List.map_cons, String.intercalate_cons_cons, ← List.map_cons, ← ih]
      simp [String.append_assoc]

/-- The lexemes of parameters spell their texts. -/
theorem spell_params {slots : List (Slot TypeExpr)} {ds : List C.Declarator} (h : declarators file slots = .ok ds) :
    slots.map (fun slot => Lexeme.spell (declaratorLexemes file slot.type slot.name.name none)) =
      ds.map C.Declarator.text := by
  induction slots generalizing ds with
  | nil =>
    cases h
    rfl
  | cons slot rest ih =>
    obtain ⟨d, others, rfl, hd, hothers⟩ := declarators_cons_eq_ok h
    rw [List.map_cons, List.map_cons, spell_declaratorLexemes hd, ih hothers]

/-- The lexemes of a function spell its text. -/
theorem spell_function {name : String} {ascribed : Option TypeExpr} {signature : Signature TypeExpr} {scope : Scope}
    {f : C.Function} (h : (function file name ascribed signature scope).2 = .ok f) :
    Lexeme.spell (headLexemes file name ascribed signature ++ scope.functionLexemes file) = f.text := by
  have hbody := spell_blockLexemes 0 (Scope.spell_lineLexemes scope.outermost 1
    (statements_of_body (body_of_function h)))
  unfold function at h
  split at h
  · cases h
  · next params hparams =>
    obtain ⟨result, hresult, h⟩ := Except.bind_eq_ok_iff.mp h
    obtain ⟨_, -, ⟨⟩⟩ := Except.bind_eq_ok_iff.mp h
    simp [headLexemes, Scope.functionLexemes, TypeExpr.spell_lexemes _ hresult, spell_intercalate, Function.comp_def,
      spell_params hparams, hbody, Lexeme.text, C.Function.text, String.append_assoc]

/-- The lexemes of an item spell its text. -/
theorem spell_itemLexemes {id : DeclId} {d : Declaration} {item : C.Item} (hdecl : file.decl? id = some d)
    (h : Emits file d item) : Lexeme.spell (file.itemLexemes id) = item.text := by
  rcases h.cases with ⟨ascribed, signature, scope, span, f, hkind, hf, rfl⟩ | ⟨hfunction, lowered, hlowered, rfl⟩
  · rw [SourceFile.itemLexemes_of_function hdecl hkind]
    exact spell_function hf
  · rw [SourceFile.itemLexemes_of_not_function hdecl hfunction]
    simp [Declaration.spell_lexemes 0 id hlowered, Lexeme.text, C.Item.text]

end Units

end DeclTree

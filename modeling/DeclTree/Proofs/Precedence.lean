import DeclTree.Proofs.ExprGrammar
import DeclTree.Proofs.JsonTokens
import DeclTree.Proofs.Lexemes

/-!
# Expressions parse back

Parentheses are printed where the tree has them and nowhere else, so what is printed can be read as the tree only if the
tree respects the precedence of C: no operand binds less than its place asks for. If it does, the tokens that are
printed have exactly one derivation in C's grammar, and that is the tree. What cannot be seen in the text is not read
back: a constant is known by its text, and the type of a cast by the words that name it in C.
-/

namespace DeclTree

open C (Symbol Tree Token Derives DerivesList DerivesMore IsTypeName)

/-- Whether a literal is written with a minus in front. The least integer of 64 bits is written in parentheses. -/
def Literal.hasMinus : Literal → Bool
  | .string _ | .char _ | .u8 _ | .u16 _ | .u32 _ | .u64 _ => false
  | .i8 n => n.toInt < 0
  | .i16 n => n.toInt < 0
  | .i32 n => n.toInt < 0
  | .i64 n => n.toInt < 0 && n ≠ Int64.minValue
  | .f32 x => x.negative
  | .f64 x => x.negative

/-- The level at which an expression binds. -/
def Expr.level : Expr → Nat
  | .binary _ op _ _ => op.level
  | .unary .. | .cast .. => C.unaryLevel
  | .field .. | .index .. | .call .. => C.postfixLevel
  | .literal value _ => if value.hasMinus then C.unaryLevel else C.primaryLevel
  | .paren .. | .function .. | .ident _ | .bool .. | .array .. => C.primaryLevel

mutual

/-- Every operand binds as tightly as its place asks for. The count of an array literal has no place in the text. -/
def Expr.RespectsPrecedence : Expr → Prop
  | .paren inner _ => inner.RespectsPrecedence
  | .unary _ operand _ => C.unaryLevel ≤ operand.level ∧ operand.RespectsPrecedence
  | .binary left op right _ =>
    (op.level ≤ left.level ∧ left.RespectsPrecedence) ∧ op.level < right.level ∧ right.RespectsPrecedence
  | .cast operand _ _ => C.unaryLevel ≤ operand.level ∧ operand.RespectsPrecedence
  | .field object _ _ => C.postfixLevel ≤ object.level ∧ object.RespectsPrecedence
  | .index object position _ =>
    (C.postfixLevel ≤ object.level ∧ object.RespectsPrecedence) ∧ position.RespectsPrecedence
  | .call callee arguments _ =>
    (C.postfixLevel ≤ callee.level ∧ callee.RespectsPrecedence) ∧ Expr.AllRespectPrecedence arguments
  | .array _ _ elements _ => Expr.AllRespectPrecedence elements
  | .function .. | .ident _ | .literal .. | .bool .. => True

/-- All the expressions respect the precedence. -/
def Expr.AllRespectPrecedence : List Expr → Prop
  | [] => True
  | e :: rest => e.RespectsPrecedence ∧ Expr.AllRespectPrecedence rest

end

/-- The symbols that name a type in C. -/
def TypeExpr.symbols (file : SourceFile) : TypeExpr → List Symbol
  | .primitive p _ => p.cWords.map .keyword
  | .pointer base _ => base.symbols file ++ [.mark "*"]
  | .nullable base _ => base.symbols file ++ [.mark "*"]
  | .array element _ => element.symbols file
  | .named name link =>
    ((link.bind file.tagKindAt?).map fun kind => [.keyword kind.keyword, .identifier name.name]).getD []
  | .function _ => []

mutual

/-- The tree of an expression. A function literal has no text, and so no tree. -/
def Expr.tree (file : SourceFile) : Expr → Tree
  | .paren inner _ => .paren (inner.tree file)
  | .unary op operand _ => .unary op (operand.tree file)
  | .binary left op right _ => .binary (left.tree file) op (right.tree file)
  | .cast operand type _ => .cast (type.symbols file) (operand.tree file)
  | .field object name _ => .field (object.tree file) name.name
  | .index object position _ => .index (object.tree file) (position.tree file)
  | .function .. => .constant ""
  | .call callee arguments _ => .call (callee.tree file) (Expr.trees file arguments)
  | .ident name => .ident name.name
  | .literal value _ => .constant (C.literalText value)
  | .bool value _ => .constant (if value then "1" else "0")
  | .array _ _ elements _ => .braces (Expr.trees file elements)

/-- The trees of expressions. -/
def Expr.trees (file : SourceFile) : List Expr → List Tree
  | [] => []
  | e :: rest => e.tree file :: Expr.trees file rest

end

namespace C

/-- What a token is to the grammar; blanks are nothing. -/
def Token.symbol? : Token → Option Symbol
  | operator s | punctuator s => some (.mark s)
  | keyword s => some (.keyword s)
  | identifier s => some (.identifier s)
  | constant s => some (.constant s)
  | blank => none

/-- The symbols of a row of tokens. -/
def Token.symbols (tokens : List Token) : List Symbol := tokens.filterMap Token.symbol?

/-- No tokens have no symbols. -/
@[simp] theorem Token.symbols_nil : symbols [] = [] := rfl

/-- Blanks have no symbol, and every other token has one. -/
@[simp] theorem Token.symbols_cons (token : Token) (rest : List Token) :
    symbols (token :: rest) = token.symbol?.toList ++ symbols rest := by
  rw [symbols, List.filterMap_cons]
  cases token.symbol? <;> rfl

/-- The symbols of tokens in a row are those of each part. -/
@[simp] theorem Token.symbols_append (first second : List Token) :
    symbols (first ++ second) = symbols first ++ symbols second := List.filterMap_append ..

/-- The symbols of words with blanks between them are the words. -/
theorem Token.symbols_words (words : List String) :
    symbols ((words.map Token.keyword).intersperse .blank) = words.map .keyword := by
  induction words with
  | nil => rfl
  | cons word rest ih =>
    cases rest with
    | nil => rfl
    | cons next rest =>
      rw [List.map_cons, List.map_cons, List.intersperse_cons_cons, ← List.map_cons, symbols_cons, symbols_cons, ih]
      rfl

/-- A pointer type is printed with a star behind it. -/
theorem TypeName.tokens_pointer (type : TypeName) :
    type.pointer.tokens = type.tokens ++ [.blank, .punctuator "*"] := by
  simp [tokens, pointer, List.replicate_succ']

/-- A unary operator is read back from its glyph. -/
theorem unaryOf?_unaryGlyph (op : UnaryOp) : unaryOf? (unaryGlyph op) = some op := by cases op <;> rfl

/-- A binary operator is read back from its glyph. -/
theorem binaryOf?_binaryGlyph (op : BinaryOp) : binaryOf? (binaryGlyph op) = some op := by cases op <;> rfl

/-- Whether a text has a sign is decided by its first character. -/
theorem hasSign_append {text : String} {c : Char} {rest : List Char} (h : text.toList = c :: rest) (more : String) :
    hasSign (text ++ more) = hasSign text := by
  rw [hasSign, hasSign, String.toList_append, h]
  rfl

/-- A number starts with a digit. -/
theorem exists_toString_nat (n : Nat) : ∃ c rest, (toString n).toList = c :: rest ∧ c ≠ '-' := by
  obtain ⟨first, rest, hdigits, -⟩ := Digit.exists_toDigits n
  have hdigit : ∀ d : Digit, d.char ≠ '-' := by decide
  exact ⟨first.char, rest.map Digit.char, by rw [Numeral.toList_toString, hdigits, List.map_cons], hdigit first⟩

/-- A natural number has no sign. -/
theorem hasSign_toString_nat (n : Nat) (more : String) : hasSign (toString n ++ more) = false := by
  obtain ⟨c, rest, hn, hc⟩ := exists_toString_nat n
  rw [hasSign_append hn, hasSign, hn]
  simpa using hc

/-- A text behind a minus has a sign. -/
theorem hasSign_minus (more : String) : hasSign ("-" ++ more) = true := by
  rw [hasSign, String.toList_append]
  rfl

/-- An integer constant has a sign if the integer is negative. -/
theorem hasSign_intText (n : Int) (type : Primitive) : hasSign (intText n type) = decide (n < 0) := by
  cases n with
  | ofNat n => exact hasSign_toString_nat n type.suffix
  | negSucc n =>
    have htext : intText (Int.negSucc n) type = "-" ++ (toString (n + 1) ++ type.suffix) := String.append_assoc ..
    rw [htext, hasSign_minus, decide_eq_true (Int.negSucc_lt_zero n)]

/-- A decimal has a sign if it is negative. -/
theorem hasSign_numeral (n : Numeral) (more : String) : hasSign (n.text ++ more) = n.negative := by
  rw [Numeral.text]
  cases n.negative with
  | true =>
    simp only [if_true, String.append_assoc]
    exact hasSign_minus _
  | false =>
    simp only [Bool.false_eq_true, if_false, String.empty_append, String.append_assoc]
    exact hasSign_toString_nat _ _

/-- The decimal of a floating-point value is negative if the sign of the value is set. -/
theorem negative_numeral {f : Format} (layout : FloatLayout) (x : Binary f) :
    (x.numeral layout).negative = x.negative := by
  have hlayout (digits : List Digit) (e : Int) : (layout.numeral x.negative digits e).negative = x.negative := by
    unfold FloatLayout.numeral
    split
    · split <;> rfl
    · rfl
  unfold Binary.numeral
  split <;> exact hlayout _ _

/-- The text of a literal starts with a minus exactly if the literal is negative, the least integer of 64 bits aside. -/
theorem hasSign_literalText (value : Literal) : hasSign (literalText value) = value.hasMinus := by
  cases value with
  | string s => simp [hasSign, literalText, stringText, Literal.hasMinus]
  | char byte => simp [hasSign, literalText, charText, Literal.hasMinus]
  | i8 n => exact hasSign_intText _ _
  | i16 n => exact hasSign_intText _ _
  | i32 n => exact hasSign_intText _ _
  | i64 n =>
    rw [literalText, Literal.hasMinus]
    split
    · next hn => simp [hn, hasSign]
    · next hn => rw [hasSign_intText, decide_eq_true hn, Bool.and_true]
  | u8 n => exact hasSign_toString_nat _ _
  | u16 n => exact hasSign_toString_nat _ _
  | u32 n => exact hasSign_toString_nat _ _
  | u64 n => exact hasSign_toString_nat _ _
  | f32 x => exact (hasSign_numeral _ _).trans (negative_numeral _ x)
  | f64 x => exact (hasSign_numeral _ _).trans (negative_numeral _ x)

end C

section Printing

open Lowering C

variable {file : SourceFile}

/-- A type is printed with the symbols that name it. -/
theorem TypeExpr.symbols_eq : ∀ (type : TypeExpr) {t : TypeName}, typeName file type = .ok t →
    Token.symbols t.tokens = type.symbols file ∧ IsTypeName (type.symbols file)
  | .primitive p _, t, h => by
    cases h
    refine ⟨?_, by cases p <;> exact .words _ _⟩
    simp [TypeName.tokens, Token.symbols_words, TypeExpr.symbols]
  | .pointer base _, t, h => by
    obtain ⟨b, hb, rfl⟩ := Except.map_eq_ok_iff.mp h
    obtain ⟨heq, hname⟩ := base.symbols_eq hb
    exact ⟨by simp [TypeName.tokens_pointer, heq, TypeExpr.symbols, Token.symbol?], hname.pointer⟩
  | .nullable base _, t, h => by
    obtain ⟨b, hb, rfl⟩ := Except.map_eq_ok_iff.mp h
    obtain ⟨heq, hname⟩ := base.symbols_eq hb
    exact ⟨by simp [TypeName.tokens_pointer, heq, TypeExpr.symbols, Token.symbol?], hname.pointer⟩
  | .array element _, t, h => element.symbols_eq h
  | .named name link, t, h => by
    obtain ⟨id, kind, rfl, hkind, rfl⟩ := namedType_eq_ok h
    have hsymbols : (TypeExpr.named name (some id)).symbols file = [.keyword kind.keyword, .identifier name.name] := by
      simp [TypeExpr.symbols, hkind]
    rw [hsymbols]
    exact ⟨rfl, .tagged kind name.name⟩
  | .function _, t, h => by simp [typeName] at h

/-- A constant is a primary unless it has a sign. -/
theorem derives_constant (text : String) :
    Derives (if hasSign text then unaryLevel else primaryLevel) [.constant text] (.constant text) := by
  cases htext : hasSign text with
  | true => exact .signed htext
  | false => exact .constant htext

mutual

/-- What is printed for an expression that respects the precedence is derived as its tree, at its own level. -/
theorem Expr.derives : ∀ (e : Expr) {c : C.Expr}, expr file e = .ok c → e.RespectsPrecedence →
    Derives e.level (Token.symbols c.tokens) (e.tree file)
  | .paren inner _, _, h, hrespects => by
    obtain ⟨i, hi, ⟨⟩⟩ := Except.bind_eq_ok_iff.mp h
    have hinner := (inner.derives hi hrespects).loosen (Nat.zero_le _)
    simpa [C.Expr.tokens, Token.symbol?, Expr.level, Expr.tree] using hinner.paren
  | .unary op operand _, _, h, hrespects => by
    obtain ⟨o, ho, ⟨⟩⟩ := Except.bind_eq_ok_iff.mp h
    have hoperand := (operand.derives ho hrespects.2).loosen hrespects.1
    simpa [C.Expr.tokens, Token.symbol?, Expr.level, Expr.tree] using hoperand.unary (unaryOf?_unaryGlyph op)
  | .binary left op right _, _, h, hrespects => by
    obtain ⟨l, hl, h⟩ := Except.bind_eq_ok_iff.mp h
    obtain ⟨r, hr, ⟨⟩⟩ := Except.bind_eq_ok_iff.mp h
    have hleft := (left.derives hl hrespects.1.2).loosen hrespects.1.1
    have hright := (right.derives hr hrespects.2.2).loosen hrespects.2.1
    simpa [C.Expr.tokens, Token.symbol?, Expr.level, Expr.tree] using hleft.binary (binaryOf?_binaryGlyph op) hright
  | .cast operand type _, _, h, hrespects => by
    obtain ⟨t, ht, h⟩ := Except.bind_eq_ok_iff.mp h
    obtain ⟨o, ho, ⟨⟩⟩ := Except.bind_eq_ok_iff.mp h
    obtain ⟨heq, hname⟩ := type.symbols_eq ht
    have hoperand := (operand.derives ho hrespects.2).loosen hrespects.1
    simpa [C.Expr.tokens, Token.symbol?, heq, Expr.level, Expr.tree] using hoperand.cast hname
  | .field object name _, _, h, hrespects => by
    obtain ⟨o, ho, ⟨⟩⟩ := Except.bind_eq_ok_iff.mp h
    have hobject := (object.derives ho hrespects.2).loosen hrespects.1
    simpa [C.Expr.tokens, Token.symbol?, Expr.level, Expr.tree] using hobject.field name.name
  | .index object position _, _, h, hrespects => by
    obtain ⟨o, ho, h⟩ := Except.bind_eq_ok_iff.mp h
    obtain ⟨p, hp, ⟨⟩⟩ := Except.bind_eq_ok_iff.mp h
    have hobject := (object.derives ho hrespects.1.2).loosen hrespects.1.1
    have hposition := (position.derives hp hrespects.2).loosen (Nat.zero_le _)
    simpa [C.Expr.tokens, Token.symbol?, Expr.level, Expr.tree] using hobject.index hposition
  | .function .., _, h, _ => by simp [expr] at h
  | .call callee arguments _, _, h, hrespects => by
    obtain ⟨c, hc, h⟩ := Except.bind_eq_ok_iff.mp h
    obtain ⟨as, has, ⟨⟩⟩ := Except.bind_eq_ok_iff.mp h
    have hcallee := (callee.derives hc hrespects.1.2).loosen hrespects.1.1
    have harguments := (Expr.derives_list arguments has hrespects.2).1
    simpa [C.Expr.tokens, Token.symbol?, Expr.level, Expr.tree] using hcallee.call harguments
  | .ident name, _, h, _ => by
    cases h
    exact .ident name.name
  | .literal value span, _, h, _ => by
    obtain rfl := literal_eq_ok h
    have hconstant := derives_constant (literalText value)
    rw [hasSign_literalText] at hconstant
    exact hconstant
  | .bool value _, _, h, _ => by
    cases h
    cases value <;> exact .constant rfl
  | .array _ _ elements _, _, h, hrespects => by
    obtain ⟨es, hes, ⟨⟩⟩ := Except.bind_eq_ok_iff.mp h
    have helements := (Expr.derives_list elements hes hrespects).1
    simpa [C.Expr.tokens, Token.symbol?, Expr.level, Expr.tree] using Derives.braces helements

/-- What is printed for expressions is derived as their trees, with commas between or a comma before each. -/
theorem Expr.derives_list : ∀ (es : List Expr) {cs : List C.Expr}, exprs file es = .ok cs →
    Expr.AllRespectPrecedence es →
    DerivesList (Token.symbols (C.Expr.listTokens cs)) (Expr.trees file es) ∧
    DerivesMore (Token.symbols (C.Expr.moreTokens cs)) (Expr.trees file es)
  | [], _, h, _ => by
    cases h
    exact ⟨.nil, .nil⟩
  | e :: rest, _, h, hrespects => by
    obtain ⟨c, hc, h⟩ := Except.bind_eq_ok_iff.mp h
    obtain ⟨cs, hcs, ⟨⟩⟩ := Except.bind_eq_ok_iff.mp h
    have hfirst := (e.derives hc hrespects.1).loosen (Nat.zero_le _)
    have hrest := (Expr.derives_list rest hcs hrespects.2).2
    constructor
    · simpa [C.Expr.listTokens, Expr.trees] using DerivesList.cons hfirst hrest
    · simpa [C.Expr.moreTokens, Token.symbol?, Expr.trees] using DerivesMore.cons hfirst hrest

end

/-- Expressions parse back. The text of an expression is spelled by a row of tokens, and if the expression respects the
precedence of C, then C's grammar derives that row as the tree of the expression and as nothing else. -/
theorem expressions_parse_back {file : SourceFile} {e : Expr} {c : C.Expr} (hlowered : expr file e = .ok c)
    (hrespects : e.RespectsPrecedence) :
    c.text = Token.spell c.tokens ∧ ∀ read, Derives 0 (Token.symbols c.tokens) read ↔ read = e.tree file := by
  have hderives : Derives 0 (Token.symbols c.tokens) (e.tree file) :=
    (e.derives hlowered hrespects).loosen (Nat.zero_le _)
  refine ⟨rfl, fun read => ⟨fun hread => hread.unique hderives, ?_⟩⟩
  rintro rfl
  exact hderives

/-- Prefix operators, a cast, a negative constant and braces in one expression. -/
def crowded : Expr :=
  let here := Span.nowhere
  let named (name : String) : Expr := .ident ⟨name, here⟩
  let element : Expr := .index (named "b") (.literal (.i8 (-1)) here) here
  let braces : Expr := .array none (.primitive .i32 here) [.bool false here, .paren (named "c") here] here
  .binary (.unary .neg (.unary .deref (named "a") here) here) .sub
    (.binary (.cast element (.pointer (.primitive .char here) here) here) .mul
      (.call (named "f") [named "x", braces] here) here) here

/-- An expression of many operators and few parentheses is read back as its tree, and in no other way. -/
theorem crowded_parses_back : crowded.RespectsPrecedence ∧ ∃ c, expr ⟨[], []⟩ crowded = .ok c ∧
    c.text = "-*a - (char *)b[-1] * f(x, \x7b0, (c)\x7d)" ∧
    ∀ read, Derives 0 (Token.symbols c.tokens) read ↔ read =
      .binary (.unary .neg (.unary .deref (.ident "a"))) .sub
        (.binary (.cast [.keyword "char", .mark "*"] (.index (.ident "b") (.constant "-1"))) .mul
          (.call (.ident "f") [.ident "x", .braces [.constant "0", .paren (.ident "c")]])) := by
  have hrespects : crowded.RespectsPrecedence := by
    simp [crowded, Expr.RespectsPrecedence, Expr.AllRespectPrecedence, Expr.level, BinaryOp.level, unaryLevel,
      postfixLevel, primaryLevel]
  obtain ⟨-, hread⟩ := expressions_parse_back (show expr ⟨[], []⟩ crowded = .ok _ from rfl) hrespects
  exact ⟨hrespects, _, rfl, rfl, hread⟩

end Printing

end DeclTree

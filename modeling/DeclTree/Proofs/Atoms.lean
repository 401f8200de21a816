import DeclTree.Proofs.Munching
import DeclTree.Proofs.Precedence

/-!
# The atoms of expressions

An expression is printed as a row of atoms with blanks between some of them. The row is read off the tree. It spells the
text of the expression, and each of its atoms has characters.
-/

namespace DeclTree

open C (Row Atom Lexeme)

/-- The atoms of a number with an optional minus. -/
def signedRow (negative : Bool) (magnitude : String) : Row :=
  if negative then [some (.mark "-"), some (.number magnitude)] else [some (.number magnitude)]

/-- The atoms of an integer constant. -/
def intRow (n : Int) (type : Primitive) : Row := signedRow (n < 0) (toString n.natAbs ++ type.suffix)

/-- The atoms of a floating-point constant. -/
def floatRow (n : Numeral) (type : Primitive) : Row :=
  signedRow n.negative ({ n with negative := false }.text ++ type.suffix)

/-- The atoms of a literal. -/
def Literal.row : Literal → Row
  | .string s => [some (.quoted (C.stringText s))]
  | .char byte => [some (.quoted (C.charText byte))]
  | .i8 n => intRow n.toInt .i8
  | .i16 n => intRow n.toInt .i16
  | .i32 n => intRow n.toInt .i32
  | .i64 n =>
    if n = Int64.minValue then
      some (.mark "(") :: (intRow (n.toInt + 1) .i64 ++
        [none, some (.mark "-"), none, some (.number "1"), some (.mark ")")])
    else intRow n.toInt .i64
  | .u8 n => intRow n.toNat .u8
  | .u16 n => intRow n.toNat .u16
  | .u32 n => intRow n.toNat .u32
  | .u64 n => intRow n.toNat .u64
  | .f32 x => floatRow (x.numeral C.floatLayout) .f32
  | .f64 x => floatRow (x.numeral C.floatLayout) .f64

/-- Words with blanks between. -/
def wordRow : List String → Row
  | [] => []
  | [word] => [some (.word word)]
  | word :: rest => some (.word word) :: none :: wordRow rest

/-- The atoms of a type name. -/
def TypeExpr.row (file : SourceFile) : TypeExpr → Row
  | .primitive p _ => wordRow p.cWords
  | .pointer base _ => base.row file ++ [none, some (.mark "*")]
  | .nullable base _ => base.row file ++ [none, some (.mark "*")]
  | .array element _ => element.row file
  | .named name link =>
    ((link.bind file.tagKindAt?).map fun kind => [some (.word kind.keyword), none, some (.word name.name)]).getD []
  | .function _ => []

mutual

/-- The atoms of an expression, with the blanks that are printed between them. A function literal has no text. -/
def Expr.row (file : SourceFile) : Expr → Row
  | .paren inner _ => some (.mark "(") :: (inner.row file ++ [some (.mark ")")])
  | .unary op operand _ => some (.mark (C.unaryGlyph op)) :: operand.row file
  | .binary left op right _ =>
    left.row file ++ none :: some (.mark (C.binaryGlyph op)) :: none :: right.row file
  | .cast operand type _ => some (.mark "(") :: (type.row file ++ some (.mark ")") :: operand.row file)
  | .field object name _ => object.row file ++ [some (.mark "."), some (.word name.name)]
  | .index object position _ => object.row file ++ some (.mark "[") :: (position.row file ++ [some (.mark "]")])
  | .function .. => []
  | .call callee arguments _ =>
    callee.row file ++ some (.mark "(") :: (Expr.listRow file arguments ++ [some (.mark ")")])
  | .ident name => [some (.word name.name)]
  | .literal value _ => value.row
  | .bool value _ => [some (.number (if value then "1" else "0"))]
  | .array _ _ elements _ => some (.mark "\x7b") :: (Expr.listRow file elements ++ [some (.mark "\x7d")])

/-- The atoms of expressions with commas between. -/
def Expr.listRow (file : SourceFile) : List Expr → Row
  | [] => []
  | e :: rest => e.row file ++ Expr.moreRow file rest

/-- The atoms of expressions with a comma before each. -/
def Expr.moreRow (file : SourceFile) : List Expr → Row
  | [] => []
  | e :: rest => some (.mark ",") :: none :: (e.row file ++ Expr.moreRow file rest)

end

/-- The atoms that are printed for an expression. -/
def Expr.atoms (file : SourceFile) (e : Expr) : List Atom := Row.atoms (e.row file)

/-- An integer is written as its magnitude behind an optional minus. -/
theorem intText_eq (n : Int) (type : Primitive) :
    C.intText n type = (if n < 0 then "-" else "") ++ (toString n.natAbs ++ type.suffix) := by
  cases n with
  | ofNat n => exact (String.empty_append).symm
  | negSucc n =>
    have htext : toString (Int.negSucc n) = "-" ++ toString (n + 1) := rfl
    rw [C.intText, htext, if_pos (Int.negSucc_lt_zero n), String.append_assoc]
    rfl

/-- A constant is spelled as its magnitude behind a minus, if it is negative. -/
theorem chars_signedRow (negative : Bool) (magnitude : String) :
    Row.chars (signedRow negative magnitude) = (if negative then ['-'] else []) ++ magnitude.toList := by
  cases negative <;> simp [signedRow, Atom.text]

/-- The atoms of an integer constant spell its text. -/
theorem chars_intRow (n : Int) (type : Primitive) : Row.chars (intRow n type) = (C.intText n type).toList := by
  rw [intRow, chars_signedRow, intText_eq, String.toList_append]
  by_cases hn : n < 0 <;> simp [hn]

/-- The atoms of a floating-point constant spell its text. -/
theorem chars_floatRow (n : Numeral) (type : Primitive) :
    Row.chars (floatRow n type) = (n.text ++ type.suffix).toList := by
  simp [floatRow, chars_signedRow, Numeral.toList_text]

/-- The atoms of a literal spell its text. -/
theorem Literal.chars_row (value : Literal) : Row.chars value.row = (C.literalText value).toList := by
  cases value with
  | string s => simp [row, C.literalText, Atom.text]
  | char byte => simp [row, C.literalText, Atom.text]
  | i64 n =>
    rw [row, C.literalText]
    split
    · simp [chars_intRow, Atom.text]
    · exact chars_intRow _ _
  | f32 x => exact chars_floatRow _ _
  | f64 x => exact chars_floatRow _ _
  | _ => exact chars_intRow _ _

/-- Words are spelled with blanks between them. -/
theorem chars_wordRow (words : List String) :
    Row.chars (wordRow words) = (C.Token.spell ((words.map C.Token.keyword).intersperse .blank)).toList := by
  fun_induction wordRow words with
  | case1 => rfl
  | case2 word => simp [Atom.text, C.Token.text]
  | case3 word rest hrest ih =>
    cases rest with
    | nil => exact absurd rfl hrest
    | cons next rest => simpa [Atom.text, C.Token.text] using ih

/-- The atoms of a type spell what its lexemes spell. -/
theorem TypeExpr.chars_row (file : SourceFile) :
    ∀ type : TypeExpr, Row.chars (type.row file) = (Lexeme.spell (type.lexemes file)).toList
  | .primitive p _ => by
    simp [row, lexemes, chars_wordRow, Lexeme.text, C.TypeName.text, C.TypeName.tokens]
  | .pointer base _ => by simp [row, lexemes, base.chars_row file, Lexeme.text, Atom.text]
  | .nullable base _ => by simp [row, lexemes, base.chars_row file, Lexeme.text, Atom.text]
  | .array element _ => element.chars_row file
  | .named name link => by
    cases link with
    | none => rfl
    | some id =>
      cases hkind : file.tagKindAt? id <;> simp [row, lexemes, hkind, Lexeme.text, Atom.text]
  | .function _ => rfl

mutual

/-- The atoms of an expression spell what its lexemes spell. -/
theorem Expr.chars_row (file : SourceFile) :
    ∀ e : Expr, Row.chars (e.row file) = (Lexeme.spell (e.lexemes file)).toList
  | .paren inner _ => by simp [Expr.row, Expr.lexemes, inner.chars_row file, Lexeme.text, Atom.text]
  | .unary op operand _ => by simp [Expr.row, Expr.lexemes, operand.chars_row file, Lexeme.text, Atom.text]
  | .binary left op right _ => by
    simp [Expr.row, Expr.lexemes, left.chars_row file, right.chars_row file, Lexeme.text, Atom.text]
  | .cast operand type _ => by
    simp [Expr.row, Expr.lexemes, type.chars_row file, operand.chars_row file, Lexeme.text, Atom.text]
  | .field object name _ => by simp [Expr.row, Expr.lexemes, object.chars_row file, Lexeme.text, Atom.text]
  | .index object position _ => by
    simp [Expr.row, Expr.lexemes, object.chars_row file, position.chars_row file, Lexeme.text, Atom.text]
  | .function .. => rfl
  | .call callee arguments _ => by
    simp [Expr.row, Expr.lexemes, callee.chars_row file, (Expr.chars_listRow file arguments).1, Lexeme.text, Atom.text]
  | .ident name => by simp [Expr.row, Expr.lexemes, Lexeme.text, Atom.text]
  | .literal value _ => by simp [Expr.row, Expr.lexemes, value.chars_row, Lexeme.text]
  | .bool value _ => by simp [Expr.row, Expr.lexemes, Lexeme.text, Atom.text]
  | .array _ _ elements _ => by
    simp [Expr.row, Expr.lexemes, (Expr.chars_listRow file elements).1, Lexeme.text, Atom.text]

/-- The atoms of expressions spell what their lexemes spell, with commas between or a comma before each. -/
theorem Expr.chars_listRow (file : SourceFile) : ∀ es : List Expr,
    Row.chars (Expr.listRow file es) = (Lexeme.spell (Expr.listLexemes file es)).toList ∧
    Row.chars (Expr.moreRow file es) = (Lexeme.spell (Expr.moreLexemes file es)).toList
  | [] => ⟨rfl, rfl⟩
  | e :: rest => by
    have hfirst := e.chars_row file
    have hrest := (Expr.chars_listRow file rest).2
    constructor
    · simp [Expr.listRow, Expr.listLexemes, hfirst, hrest]
    · simp [Expr.moreRow, Expr.moreLexemes, hfirst, hrest, Lexeme.text, Atom.text]

end

/-- A digit can stand in a number, and is not the mark of an exponent. -/
theorem numberPart_digit : ∀ d : Digit, C.isNumberPart d.char = true ∧ C.isExponentMark d.char = false := by decide

/-- Digits are taken into a number as a whole. -/
theorem taken_digits (digits : List Digit) : C.Taken (digits.map Digit.char) := by
  refine C.taken_of_parts (List.all_eq_true.mpr fun c hc => ?_)
  obtain ⟨d, -, rfl⟩ := List.mem_map.mp hc
  rw [(numberPart_digit d).1, (numberPart_digit d).2]
  rfl

/-- The digits of a natural number are taken into a number as a whole. -/
theorem taken_toString (n : Nat) : C.Taken (toString n).toList := by
  obtain ⟨first, others, hdigits, -⟩ := Digit.exists_toDigits n
  rw [Numeral.toList_toString, hdigits]
  exact taken_digits _

/-- A natural number starts with a digit. -/
theorem startsWith_toString (n : Nat) (rest : List Char) :
    C.startsWith Char.isDigit ((toString n).toList ++ rest) = true := by
  obtain ⟨first, others, hdigits, -⟩ := Digit.exists_toDigits n
  have hdigit : ∀ d : Digit, d.char.isDigit = true := by decide
  rw [Numeral.toList_toString, hdigits]
  exact hdigit first

/-- The suffix of a type is taken into the number before it. -/
theorem taken_suffix (type : Primitive) : C.Taken type.suffix.toList := by
  cases type <;> exact C.taken_of_parts (by decide)

/-- A fraction is taken into a number as a whole, with its point. -/
theorem taken_fractionChars (fraction : List Digit) : C.Taken (Numeral.fractionChars fraction) := by
  rw [Numeral.fractionChars]
  split
  · exact fun _ => rfl
  · have hpoint : C.Taken ['.'] := C.taken_of_parts (by decide)
    exact hpoint.append (taken_digits fraction)

/-- The sign of an exponent stands behind its mark, and digits follow. -/
theorem taken_exponentChars (exponent : Option Exponent) : C.Taken (Numeral.exponentChars exponent) := by
  cases exponent with
  | none => exact fun _ => rfl
  | some e =>
    obtain ⟨first, others, hdigits, -⟩ := Digit.exists_toDigits e.magnitude
    intro rest
    have htaken (behindMark : Bool) : C.numberChars behindMark ((first :: others).map Digit.char ++ rest) =
        (first :: others).map Digit.char ++ C.numberChars false rest := by
      obtain ⟨hpart, hmark⟩ := numberPart_digit first
      rw [List.map_cons, List.cons_append, C.numberChars, hpart, Bool.true_or, if_pos rfl, hmark, taken_digits others]
      rfl
    rw [Numeral.exponentChars, Numeral.toList_toString, hdigits]
    cases e.sign with
    | unsigned => exact congrArg ('e' :: ·) (htaken true)
    | plus => exact congrArg ('e' :: '+' :: ·) (htaken false)
    | minus => exact congrArg ('e' :: '-' :: ·) (htaken false)

/-- The magnitude of an integer constant and its suffix are a number. -/
theorem isNumber_magnitude (n : Nat) (type : Primitive) : C.IsNumber (toString n ++ type.suffix) where
  first := by
    rw [String.toList_append]
    exact startsWith_toString n _
  taken := by
    rw [String.toList_append]
    exact (taken_toString n).append (taken_suffix type)

/-- A truth value is printed as a number. -/
theorem isNumber_bool (value : Bool) : C.IsNumber (if value then "1" else "0") := by
  cases value <;> exact ⟨rfl, C.taken_of_parts (by decide)⟩

/-- A numeral without its sign and a suffix are a number. -/
theorem isNumber_numeral (n : Numeral) (type : Primitive) :
    C.IsNumber ({ n with negative := false }.text ++ type.suffix) := by
  have htext : ({ n with negative := false }.text ++ type.suffix).toList = (toString n.whole).toList ++
      (Numeral.fractionChars n.fraction ++ Numeral.exponentChars n.exponent ++ type.suffix.toList) := by
    rw [String.toList_append, Numeral.toList_text]
    simp
  constructor
  · rw [htext]
    exact startsWith_toString n.whole _
  · rw [htext]
    exact (taken_toString n.whole).append
      (((taken_fractionChars _).append (taken_exponentChars _)).append (taken_suffix type))

section Solid

variable (file : SourceFile)

/-- Every unary operator is a punctuator of C. -/
theorem unaryGlyph_mem (op : UnaryOp) : C.unaryGlyph op ∈ C.punctuators := by cases op <;> decide

/-- Every binary operator is a punctuator of C. -/
theorem binaryGlyph_mem (op : BinaryOp) : C.binaryGlyph op ∈ C.punctuators := by cases op <;> decide

/-- The atoms of a constant are solid. -/
theorem isSolid_signedRow (negative : Bool) {text : String} (h : C.IsNumber text) :
    Row.IsSolid (signedRow negative text) := by
  cases negative with
  | true => simp [signedRow, h.isSolid, C.isSolid_mark "-" (by decide)]
  | false => simp [signedRow, h.isSolid]

/-- The atoms of an integer constant are solid. -/
theorem isSolid_intRow (n : Int) (type : Primitive) : Row.IsSolid (intRow n type) :=
  isSolid_signedRow _ (isNumber_magnitude _ _)

/-- The atoms of a literal are solid. -/
theorem Literal.isSolid_row (value : Literal) : Row.IsSolid value.row := by
  cases value with
  | string s =>
    have hstart : C.startsWith C.isQuote (Atom.quoted (C.stringText s)).text.toList = true := by
      rw [Atom.text, C.stringText, String.toList_ofList]
      rfl
    simpa [row] using C.isSolid_of_startsWith hstart (by decide)
  | char byte =>
    have hstart : C.startsWith C.isQuote (Atom.quoted (C.charText byte)).text.toList = true := by
      rw [Atom.text, C.toList_charText]
      rfl
    simpa [row] using C.isSolid_of_startsWith hstart (by decide)
  | i64 n =>
    rw [row]
    split
    · simp +decide [isSolid_intRow]
    · exact isSolid_intRow _ _
  | f32 x => exact isSolid_signedRow _ (isNumber_numeral _ _)
  | f64 x => exact isSolid_signedRow _ (isNumber_numeral _ _)
  | _ => exact isSolid_intRow _ _

/-- Words that are identifiers are solid. -/
theorem isSolid_wordRow {words : List String} (h : ∀ word ∈ words, isIdentifier word) :
    Row.IsSolid (wordRow words) := by
  fun_induction wordRow words with
  | case1 => exact Row.isSolid_nil
  | case2 word => simpa using C.isSolid_word (h word List.mem_cons_self)
  | case3 word others _ ih =>
    obtain ⟨hword, hothers⟩ := List.forall_mem_cons.mp h
    simpa using ⟨C.isSolid_word hword, ih hothers⟩

/-- The atoms of a type whose names are identifiers are solid. -/
theorem TypeExpr.isSolid_row : ∀ type : TypeExpr, (∀ name ∈ type.words, isIdentifier name) →
    Row.IsSolid (type.row file)
  | .primitive p _, _ => isSolid_wordRow (by cases p <;> decide)
  | .pointer base _, hnames => by simpa +decide [row] using base.isSolid_row hnames
  | .nullable base _, hnames => by simpa +decide [row] using base.isSolid_row hnames
  | .array element _, hnames => element.isSolid_row hnames
  | .named name link, hnames => by
    rw [row]
    cases link.bind file.tagKindAt? with
    | none => exact Row.isSolid_nil
    | some kind =>
      have hkeyword : isIdentifier kind.keyword := by cases kind <;> decide
      simpa [C.isSolid_word hkeyword] using C.isSolid_word (hnames name.name List.mem_cons_self)
  | .function _, _ => Row.isSolid_nil

/-- The elements of an array literal have their names from the literal. -/
theorem Expr.words_elements {count : Option Expr} {element : TypeExpr} {elements : List Expr} {span : Span} :
    Expr.listWords elements ⊆ (Expr.array count element elements span).words := by
  cases count with
  | none => exact List.subset_append_right _ _
  | some count => exact List.subset_append_right _ _

mutual

/-- The atoms of an expression are solid if its names are identifiers. -/
theorem Expr.isSolid_row : ∀ e : Expr, (∀ name ∈ e.words, isIdentifier name) → Row.IsSolid (e.row file)
  | .paren inner _, hnames => by
    simpa +decide [Expr.row] using inner.isSolid_row hnames
  | .unary op operand _, hnames => by
    simpa [Expr.row, C.isSolid_mark _ (unaryGlyph_mem op)] using operand.isSolid_row hnames
  | .binary left op right _, hnames => by
    obtain ⟨hleft, hright⟩ := List.forall_mem_append.mp hnames
    simpa [Expr.row, C.isSolid_mark _ (binaryGlyph_mem op)] using ⟨left.isSolid_row hleft, right.isSolid_row hright⟩
  | .cast operand type _, hnames => by
    obtain ⟨hoperand, htype⟩ := List.forall_mem_append.mp hnames
    simpa +decide [Expr.row] using
      ⟨type.isSolid_row file htype, operand.isSolid_row hoperand⟩
  | .field object name _, hnames => by
    obtain ⟨hobject, hname⟩ := List.forall_mem_append.mp hnames
    simpa +decide [Expr.row] using
      ⟨object.isSolid_row hobject, C.isSolid_word (hname name.name List.mem_cons_self)⟩
  | .index object position _, hnames => by
    obtain ⟨hobject, hposition⟩ := List.forall_mem_append.mp hnames
    simpa +decide [Expr.row] using
      ⟨object.isSolid_row hobject, position.isSolid_row hposition⟩
  | .function .., _ => Row.isSolid_nil
  | .call callee arguments _, hnames => by
    obtain ⟨hcallee, harguments⟩ := List.forall_mem_append.mp hnames
    simpa +decide [Expr.row] using
      ⟨callee.isSolid_row hcallee, (Expr.isSolid_listRow arguments harguments).1⟩
  | .ident name, hnames => by simpa [Expr.row] using C.isSolid_word (hnames name.name List.mem_cons_self)
  | .literal value _, _ => value.isSolid_row
  | .bool value _, _ => by simpa [Expr.row] using (isNumber_bool value).isSolid
  | .array count element elements _, hnames => by
    have helements : ∀ name ∈ Expr.listWords elements, isIdentifier name :=
      fun name hname => hnames name (Expr.words_elements hname)
    simpa +decide [Expr.row] using (Expr.isSolid_listRow elements helements).1

/-- The atoms of expressions are solid if their names are identifiers. -/
theorem Expr.isSolid_listRow : ∀ es : List Expr, (∀ name ∈ Expr.listWords es, isIdentifier name) →
    Row.IsSolid (Expr.listRow file es) ∧ Row.IsSolid (Expr.moreRow file es)
  | [], _ => ⟨Row.isSolid_nil, Row.isSolid_nil⟩
  | e :: others, hnames => by
    obtain ⟨hfirst, hothers⟩ := List.forall_mem_append.mp hnames
    have hfirst := e.isSolid_row hfirst
    have hothers := (Expr.isSolid_listRow others hothers).2
    constructor
    · simp [Expr.listRow, hfirst, hothers]
    · simp +decide [Expr.moreRow, hfirst, hothers]

end

end Solid

end DeclTree

import DeclTree.Proofs.Atoms

/-!
# Operators and their operands in the text

A prefix operator is printed right before its operand, and the point of a field right behind its object. C's lexer takes
the longest atom, so two things can go wrong: a minus before a minus is read as a decrement, and an address-of before an
address-of as a logical and; and a point behind a number is taken into the number. The minus of a negative constant
counts as one. Everywhere else the lexer finds the atoms that were printed.
-/

namespace DeclTree

open C (Row Atom)

/-- A prefix operator that is read as another operator if it stands twice. -/
def UnaryOp.doubles : UnaryOp → Bool
  | .neg | .ref => true
  | .not | .bitNot | .deref => false

/-- The prefix operator that the text of an expression starts with. -/
def Expr.opener : Expr → Option UnaryOp
  | .unary op _ _ => some op
  | .literal value _ => if value.hasMinus then some .neg else none
  | .binary left _ _ _ => left.opener
  | .field object _ _ => object.opener
  | .index object _ _ => object.opener
  | .call callee _ _ => callee.opener
  | .paren .. | .cast .. | .function .. | .ident _ | .bool .. | .array .. => none

/-- Whether the text of a literal ends with a number. The least integer of 64 bits is written in parentheses. -/
def Literal.endsInNumber : Literal → Bool
  | .string _ | .char _ => false
  | .i64 n => n ≠ Int64.minValue
  | .i8 _ | .i16 _ | .i32 _ | .u8 _ | .u16 _ | .u32 _ | .u64 _ | .f32 _ | .f64 _ => true

/-- Whether the text of an expression ends with a number. -/
def Expr.endsInNumber : Expr → Bool
  | .unary _ operand _ => operand.endsInNumber
  | .binary _ _ right _ => right.endsInNumber
  | .cast operand _ _ => operand.endsInNumber
  | .literal value _ => value.endsInNumber
  | .bool .. => true
  | .paren .. | .field .. | .index .. | .function .. | .call .. | .ident _ | .array .. => false

mutual

/-- No operator that doubles stands before itself, and no point behind a number. -/
def Expr.StaysApart : Expr → Prop
  | .paren inner _ => inner.StaysApart
  | .unary op operand _ => ¬(op.doubles = true ∧ operand.opener = some op) ∧ operand.StaysApart
  | .binary left _ right _ => left.StaysApart ∧ right.StaysApart
  | .cast operand _ _ => operand.StaysApart
  | .field object _ _ => object.endsInNumber = false ∧ object.StaysApart
  | .index object position _ => object.StaysApart ∧ position.StaysApart
  | .call callee arguments _ => callee.StaysApart ∧ Expr.AllStayApart arguments
  | .array _ _ elements _ => Expr.AllStayApart elements
  | .function .. | .ident _ | .literal .. | .bool .. => True

/-- No operator that doubles stands before itself in any of the expressions, and no point behind a number. -/
def Expr.AllStayApart : List Expr → Prop
  | [] => True
  | e :: rest => e.StaysApart ∧ Expr.AllStayApart rest

end

/-- The characters that can follow an expression inside another one. -/
def followers : List Char := [' ', ')', ']', '\x7d', ',', '[', '(', '.']

/-- A text that can follow an expression inside another one. -/
def MayFollow (rest : List Char) : Prop := ∀ c ∈ rest.head?, c ∈ followers

/-- Whether a text starts with a point. -/
def dotted (rest : List Char) : Bool := C.startsWith (· == '.') rest

section Followers

variable {rest : List Char}

/-- A text may follow an expression if its first character may. -/
theorem mayFollow_cons {c : Char} (h : c ∈ followers) (rest : List Char) : MayFollow (c :: rest) := by
  simpa [MayFollow] using h

/-- What follows an expression starts alike for two kinds that have the same followers. -/
theorem MayFollow.startsWith_eq {kind other : Char → Bool} (h : MayFollow rest)
    (hkind : followers.map kind = followers.map other) : C.startsWith kind rest = C.startsWith other rest := by
  cases rest with
  | nil => rfl
  | cons c rest => exact List.map_inj_left.mp hkind c (h c rfl)

/-- What follows an expression does not start with a kind that has no followers. -/
theorem MayFollow.not_startsWith {kind : Char → Bool} (h : MayFollow rest) (hkind : followers.any kind = false) :
    C.startsWith kind rest = false := by
  cases rest with
  | nil => rfl
  | cons c rest => exact Bool.eq_false_iff.mpr (List.any_eq_false.mp hkind c (h c rfl))

/-- A name is kept before what can follow an expression. -/
theorem MayFollow.firstAtom?_word (h : MayFollow rest) {name : String} (hname : isIdentifier name) :
    C.firstAtom? (name.toList ++ rest) = some (.word name) :=
  C.firstAtom?_word hname (h.not_startsWith (by decide)) (h.not_startsWith (by decide))

/-- A number is kept before what can follow an expression, a point apart. -/
theorem MayFollow.firstAtom?_number_iff (h : MayFollow rest) {text : String} (htext : C.IsNumber text) :
    C.firstAtom? (text.toList ++ rest) = some (.number text) ↔ dotted rest = false := by
  have hdot : followers.map C.isNumberPart = followers.map (· == '.') := by decide
  rw [C.firstAtom?_number_eq_iff htext, dotted, h.startsWith_eq hdot]

end Followers

/-- How a text starts: with a prefix operator, or with what no prefix operator goes on with. -/
def StartsAs : Option UnaryOp → List Char → Prop
  | some op, chars => ∃ more, chars = (C.unaryGlyph op).toList ++ more
  | none, chars => ∀ op, C.startsWith (C.goesOn (C.unaryGlyph op)) chars = false

section Openers

variable {file : SourceFile} {rest : List Char}

/-- A text starts with no prefix operator if its first character continues no mark. -/
theorem startsAs_none {c : Char} (hc : C.isMarkTail c = false) (rest : List Char) : StartsAs none (c :: rest) := by
  intro op
  refine C.goesOn_eq_false (unaryGlyph_mem op) hc ?_ ?_
  · cases op <;> intro h <;> exact absurd h (by decide)
  · cases op <;> intro h <;> exact absurd h (by decide)

/-- What follows an expression starts with no prefix operator. -/
theorem MayFollow.startsAs (h : MayFollow rest) : StartsAs none rest := by
  intro op
  cases op <;> exact h.not_startsWith (by decide)

/-- A prefix operator is kept before its operand unless it doubles and the operand starts with it. -/
theorem firstAtom?_unary_iff (op : UnaryOp) {opener : Option UnaryOp} {chars : List Char} (h : StartsAs opener chars) :
    C.firstAtom? ((C.unaryGlyph op).toList ++ chars) = some (.mark (C.unaryGlyph op)) ↔
      ¬(op.doubles = true ∧ opener = some op) := by
  cases opener with
  | none => simpa using C.firstAtom?_mark (unaryGlyph_mem op) (h op)
  | some first =>
    obtain ⟨more, rfl⟩ := h
    have hgoes : C.startsWith (C.goesOn (C.unaryGlyph op)) ((C.unaryGlyph first).toList ++ more) =
        (op.doubles && decide (some first = some op)) := by
      cases op <;> cases first <;> rfl
    by_cases htwice : op.doubles = true ∧ some first = some op
    · obtain ⟨hdoubles, ⟨⟩⟩ := htwice
      have hlonger : C.firstAtom? ((C.unaryGlyph op).toList ++ ((C.unaryGlyph op).toList ++ more)) ≠
          some (.mark (C.unaryGlyph op)) := by
        cases op with
        | neg => exact fun heq => absurd (Option.some.inj heq) (by decide)
        | ref => exact fun heq => absurd (Option.some.inj heq) (by decide)
        | _ => cases hdoubles
      simp [hlonger, hdoubles]
    · have hends : (op.doubles && decide (some first = some op)) = false := by simpa using htwice
      exact iff_of_true (C.firstAtom?_mark (unaryGlyph_mem op) (hgoes.trans hends)) htwice

/-- A name starts with no prefix operator. -/
theorem startsAs_name {name : String} (h : isIdentifier name) (rest : List Char) :
    StartsAs none (name.toList ++ rest) := by
  obtain ⟨first, others, hname, hstart⟩ := C.exists_nameStart h
  rw [hname]
  exact startsAs_none (C.isMarkTail_of_isNameChar (by simp [isNameChar, hstart])) _

/-- A number starts with no prefix operator. -/
theorem startsAs_number {text : String} (h : C.IsNumber text) (rest : List Char) :
    StartsAs none (text.toList ++ rest) := by
  obtain ⟨first, others, htext, hdigit⟩ := h.exists_digit
  rw [htext]
  exact startsAs_none (C.isMarkTail_of_isNameChar (by simp [isNameChar, hdigit])) _

end Openers

section Constants

variable {rest : List Char}

/-- A minus is kept before a number. -/
theorem firstAtom?_minus {text : String} (h : C.IsNumber text) (rest : List Char) :
    C.firstAtom? ('-' :: (text.toList ++ rest)) = some (.mark "-") :=
  (firstAtom?_unary_iff .neg (startsAs_number h rest)).mpr (by simp)

/-- The atoms of a constant are found unless a point follows, which the number would take. -/
theorem kept_signedRow (negative : Bool) {text : String} (h : C.IsNumber text) (hrest : MayFollow rest) :
    Row.Kept (signedRow negative text) rest ↔ dotted rest = false := by
  cases negative with
  | true => simp [signedRow, Atom.text, firstAtom?_minus h, hrest.firstAtom?_number_iff h]
  | false => simp [signedRow, Atom.text, hrest.firstAtom?_number_iff h]

/-- The atoms of an integer constant are found unless a point follows. -/
theorem kept_intRow (n : Int) (type : Primitive) (hrest : MayFollow rest) :
    Row.Kept (intRow n type) rest ↔ dotted rest = false := kept_signedRow _ (isNumber_magnitude _ _) hrest

/-- The atoms of a floating-point constant are found unless a point follows. -/
theorem kept_floatRow (n : Numeral) (type : Primitive) (hrest : MayFollow rest) :
    Row.Kept (floatRow n type) rest ↔ dotted rest = false := kept_signedRow _ (isNumber_numeral _ _) hrest

/-- A string or a character is kept, whatever follows. -/
theorem firstAtom?_quoted {quote : Char} (hquote : C.isQuote quote) {text : String} {body chars : List Char}
    (htext : text.toList = quote :: body) (hread : C.readQuoted? quote (body ++ rest) = some (chars, rest)) :
    C.firstAtom? (text.toList ++ rest) = some (.quoted text) := by
  have hstart : ∀ c : Char, C.isQuote c = true → isNameStart c = false ∧ ∀ next, C.startsNumber c next = false := by
    intro c hc
    obtain rfl | rfl : c = '\x22' ∨ c = '\x27' := by simpa [C.isQuote] using hc
    · exact ⟨rfl, fun _ => rfl⟩
    · exact ⟨rfl, fun _ => rfl⟩
  obtain ⟨hname, hnumber⟩ := hstart quote hquote
  rw [htext, List.cons_append, C.firstAtom?, hname, if_neg (by simp), hnumber, if_neg (by simp), if_pos hquote,
    C.quotedAt?_of_readQuoted? hquote hread, Option.map_some, ← htext, String.ofList_toList]

/-- A difference in parentheses is kept, whatever follows. -/
theorem kept_difference (n : Int) (type : Primitive) (rest : List Char) :
    Row.Kept (some (.mark "(") :: (intRow n type ++
      [none, some (.mark "-"), none, some (.number "1"), some (.mark ")")])) rest := by
  have hone : C.IsNumber "1" := isNumber_bool true
  simp only [Row.kept_atom, Row.kept_append, Row.kept_blank, Row.kept_nil, Row.chars_blank, Row.chars_atom,
    Row.chars_nil, List.nil_append, List.cons_append, Atom.text, and_true]
  refine ⟨C.firstAtom?_loneMark (by decide) _, (kept_intRow n type (mayFollow_cons (by decide) _)).mpr rfl, ?_, ?_, ?_⟩
  · exact C.firstAtom?_mark_before (by decide) (.inl rfl) _
  · exact ((mayFollow_cons (by decide) _).firstAtom?_number_iff hone).mpr rfl
  · exact C.firstAtom?_loneMark (by decide) _

/-- A literal is kept unless it ends with a number and a point follows. -/
theorem Literal.kept_row_iff (value : Literal) (hrest : MayFollow rest) :
    Row.Kept value.row rest ↔ ¬(value.endsInNumber = true ∧ dotted rest = true) := by
  cases value with
  | string s =>
    have hquote : C.isQuote '\x22' = true := rfl
    have hread := C.readQuoted?_escapeAll s.toList hquote rest
    have htext : (C.stringText s).toList = '\x22' :: (C.escapeAll s.toList ++ ['\x22']) := String.toList_ofList ..
    simpa [row, endsInNumber, Atom.text] using firstAtom?_quoted hquote htext (by simpa using hread)
  | char byte =>
    have hquote : C.isQuote '\x27' = true := rfl
    simpa [row, endsInNumber, Atom.text] using
      firstAtom?_quoted hquote (C.toList_charText byte) (C.readQuoted?_charBody byte rest)
  | i64 n =>
    rw [row, endsInNumber]
    split
    · next hn => exact iff_of_true (kept_difference _ _ rest) (by simp [hn])
    · next hn => simpa [hn] using kept_intRow _ _ hrest
  | f32 x => simpa [row, endsInNumber] using kept_floatRow _ _ hrest
  | f64 x => simpa [row, endsInNumber] using kept_floatRow _ _ hrest
  | _ => simpa [row, endsInNumber] using kept_intRow _ _ hrest

/-- A constant starts with a minus if it is negative, and with no prefix operator otherwise. -/
theorem startsAs_signedRow (negative : Bool) {text : String} (h : C.IsNumber text) (rest : List Char) :
    StartsAs (if negative then some .neg else none) (Row.chars (signedRow negative text) ++ rest) := by
  rw [chars_signedRow]
  cases negative with
  | true => exact ⟨text.toList ++ rest, rfl⟩
  | false => exact startsAs_number h rest

/-- An integer constant starts with a minus if the integer is negative. -/
theorem startsAs_intRow (n : Int) (type : Primitive) (rest : List Char) :
    StartsAs (if decide (n < 0) then some .neg else none) (Row.chars (intRow n type) ++ rest) :=
  startsAs_signedRow _ (isNumber_magnitude n.natAbs type) rest

/-- The constant of a natural number starts with no prefix operator. -/
theorem startsAs_natRow (n : Nat) (type : Primitive) (rest : List Char) :
    StartsAs none (Row.chars (intRow n type) ++ rest) := by
  have hsign : ¬(n : Int) < 0 := Int.not_lt.mpr (Int.natCast_nonneg n)
  simpa only [decide_eq_false hsign, Bool.false_eq_true, if_false] using startsAs_intRow n type rest

/-- A floating-point constant starts with a minus if its sign is set. -/
theorem startsAs_floatRow {f : Format} (x : Binary f) (type : Primitive) (rest : List Char) :
    StartsAs (if x.negative then some .neg else none)
      (Row.chars (floatRow (x.numeral C.floatLayout) type) ++ rest) := by
  rw [← C.negative_numeral C.floatLayout x]
  exact startsAs_signedRow _ (isNumber_numeral _ type) rest

/-- A literal starts with a minus if it is negative, and else with what no prefix operator goes on with. -/
theorem Literal.startsAs (value : Literal) (rest : List Char) :
    StartsAs (if value.hasMinus then some .neg else none) (Row.chars value.row ++ rest) := by
  cases value with
  | string s =>
    rw [chars_row, C.literalText, C.stringText, String.toList_ofList]
    exact startsAs_none rfl _
  | char byte =>
    rw [chars_row, C.literalText, C.toList_charText]
    exact startsAs_none rfl _
  | i8 n => exact startsAs_intRow n.toInt .i8 rest
  | i16 n => exact startsAs_intRow n.toInt .i16 rest
  | i32 n => exact startsAs_intRow n.toInt .i32 rest
  | i64 n =>
    rw [row, hasMinus]
    by_cases hn : n = Int64.minValue
    · rw [if_pos hn, decide_eq_false (not_not_intro hn), Bool.and_false]
      exact startsAs_none rfl _
    · rw [if_neg hn, decide_eq_true hn, Bool.and_true]
      exact startsAs_intRow n.toInt .i64 rest
  | u8 n => exact startsAs_natRow n.toNat .u8 rest
  | u16 n => exact startsAs_natRow n.toNat .u16 rest
  | u32 n => exact startsAs_natRow n.toNat .u32 rest
  | u64 n => exact startsAs_natRow n.toNat .u64 rest
  | f32 x => exact startsAs_floatRow x .f32 rest
  | f64 x => exact startsAs_floatRow x .f64 rest

end Constants

section Expressions

variable (file : SourceFile) {rest : List Char}

/-- What an expression starts with, if its names are identifiers. -/
theorem Expr.startsAs : ∀ e : Expr, (∀ name ∈ e.words, isIdentifier name) → ∀ {rest}, MayFollow rest →
    StartsAs e.opener (Row.chars (e.row file) ++ rest)
  | .paren .., _, _, _ => startsAs_none rfl _
  | .unary op operand _, _, rest, _ => ⟨Row.chars (operand.row file) ++ rest, by simp [Expr.row, Atom.text]⟩
  | .binary left _ _ _, hnames, _, _ => by
    simp only [Expr.row, Row.chars_append, Row.chars_blank, List.append_assoc, List.cons_append]
    exact left.startsAs (List.forall_mem_append.mp hnames).1 (mayFollow_cons (by decide) _)
  | .cast .., _, _, _ => startsAs_none rfl _
  | .field object _ _, hnames, _, _ => by
    simp only [Expr.row, Row.chars_append, Row.chars_atom, List.append_assoc]
    exact object.startsAs (List.forall_mem_append.mp hnames).1 (mayFollow_cons (by decide) _)
  | .index object _ _, hnames, _, _ => by
    simp only [Expr.row, Row.chars_append, Row.chars_atom, List.append_assoc]
    exact object.startsAs (List.forall_mem_append.mp hnames).1 (mayFollow_cons (by decide) _)
  | .function .., _, _, hrest => hrest.startsAs
  | .call callee _ _, hnames, _, _ => by
    simp only [Expr.row, Row.chars_append, Row.chars_atom, List.append_assoc]
    exact callee.startsAs (List.forall_mem_append.mp hnames).1 (mayFollow_cons (by decide) _)
  | .ident name, hnames, rest, _ => by
    simpa [Expr.row, Expr.opener, Atom.text] using startsAs_name (hnames name.name List.mem_cons_self) rest
  | .literal value _, _, rest, _ => value.startsAs rest
  | .bool value _, _, _, _ => by cases value <;> exact startsAs_none rfl _
  | .array .., _, _, _ => startsAs_none rfl _

/-- Words with blanks between them are found before what may follow an expression. -/
theorem kept_wordRow {words : List String} (h : ∀ word ∈ words, isIdentifier word) (hrest : MayFollow rest) :
    Row.Kept (wordRow words) rest := by
  fun_induction wordRow words with
  | case1 => trivial
  | case2 word => exact ⟨hrest.firstAtom?_word (h word List.mem_cons_self), trivial⟩
  | case3 word others _ ih =>
    obtain ⟨hword, hothers⟩ := List.forall_mem_cons.mp h
    exact ⟨(mayFollow_cons (by decide) _).firstAtom?_word hword, ih hothers⟩

/-- The star of a pointer type is found before a blank or a bracket. -/
theorem kept_star {row : Row} (hrow : ∀ rest, Row.Kept row (' ' :: rest)) {c : Char} (hc : c = ' ' ∨ c = ')')
    (rest : List Char) : Row.Kept (row ++ [none, some (.mark "*")]) (c :: rest) := by
  simp only [Row.kept_append, Row.kept_blank, Row.kept_atom, Row.kept_nil, Row.chars_blank, Row.chars_atom,
    Row.chars_nil, List.nil_append, List.cons_append, and_true, Atom.text]
  exact ⟨hrow _, C.firstAtom?_mark_before (by decide) hc rest⟩

/-- A type name is kept before a blank and before a closing parenthesis. -/
theorem TypeExpr.kept_row : ∀ type : TypeExpr, (∀ name ∈ type.words, isIdentifier name) → ∀ {c : Char},
    c = ' ' ∨ c = ')' → ∀ rest, Row.Kept (type.row file) (c :: rest)
  | .primitive p _, _, c, hc, rest => by
    have hwords : ∀ word ∈ p.cWords, isIdentifier word := by cases p <;> decide
    exact kept_wordRow hwords (mayFollow_cons (by rcases hc with rfl | rfl <;> decide) rest)
  | .pointer base _, hnames, _, hc, rest => kept_star (base.kept_row hnames (.inl rfl)) hc rest
  | .nullable base _, hnames, _, hc, rest => kept_star (base.kept_row hnames (.inl rfl)) hc rest
  | .array element _, hnames, _, hc, rest => element.kept_row hnames hc rest
  | .named name link, hnames, c, hc, rest => by
    have hfollows : MayFollow (c :: rest) := mayFollow_cons (by rcases hc with rfl | rfl <;> decide) rest
    rw [row]
    cases link.bind file.tagKindAt? with
    | none => trivial
    | some kind =>
      have hkeyword : isIdentifier kind.keyword := by cases kind <;> decide
      have hname := hnames name.name List.mem_cons_self
      have hwords : Row.Kept (wordRow [kind.keyword, name.name]) (c :: rest) :=
        kept_wordRow (by simp [hkeyword, hname]) hfollows
      exact hwords
  | .function _, _, _, _, _ => trivial

/-- A point is kept before a name. -/
theorem firstAtom?_point {name : String} (h : isIdentifier name) (rest : List Char) :
    C.firstAtom? ('.' :: (name.toList ++ rest)) = some (.mark ".") := by
  have hpoint : "." ∈ C.punctuators := by decide
  obtain ⟨first, others, hname, hstart⟩ := C.exists_nameStart h
  have hdigit : first.isDigit = false := by
    rw [Bool.eq_false_iff]
    intro hdigit
    simp [C.isNameStart_of_isDigit hdigit] at hstart
  rw [hname]
  exact C.firstAtom?_mark hpoint
    (C.goesOn_eq_false hpoint (C.isMarkTail_of_isNameChar (by simp [isNameChar, hstart])) (fun _ => hdigit) nofun)

/-- What is found between brackets is found with them. -/
theorem kept_brackets {opening closing : String} (hopening : opening ∈ C.loneMarks) (hclosing : closing ∈ C.loneMarks)
    (row : Row) (rest : List Char) :
    Row.Kept (some (.mark opening) :: (row ++ [some (.mark closing)])) rest ↔
      Row.Kept row (closing.toList ++ rest) := by
  simp [Atom.text, C.firstAtom?_loneMark hopening, C.firstAtom?_loneMark hclosing]

/-- Before what is no point it does not matter whether a text ends with a number. -/
theorem kept_before {row : Row} {c : Char} {apart : Prop} {ends : Bool} (hc : c ≠ '.')
    (h : Row.Kept row (c :: rest) ↔ apart ∧ ¬(ends = true ∧ dotted (c :: rest) = true)) :
    Row.Kept row (c :: rest) ↔ apart := by
  have hdot : dotted (c :: rest) = false := by simpa [dotted, C.startsWith_cons] using hc
  simpa [hdot] using h

mutual

/-- The atoms of an expression are kept exactly if they stay apart and no point follows a number. -/
theorem Expr.kept_row_iff : ∀ e : Expr, (∀ name ∈ e.words, isIdentifier name) → ∀ {rest}, MayFollow rest →
    (Row.Kept (e.row file) rest ↔ e.StaysApart ∧ ¬(e.endsInNumber = true ∧ dotted rest = true))
  | .paren inner _, hnames, rest, _ => by
    have hfollows : MayFollow (')' :: rest) := mayFollow_cons (by decide) rest
    have hinner := kept_before (by decide) (inner.kept_row_iff hnames hfollows)
    rw [Expr.row, kept_brackets (by decide) (by decide)]
    simpa [Expr.StaysApart, Expr.endsInNumber] using hinner
  | .unary op operand _, hnames, rest, hrest => by
    have hglyph := firstAtom?_unary_iff op (operand.startsAs file hnames hrest)
    rw [Expr.row, Row.kept_atom, operand.kept_row_iff hnames hrest, ← and_assoc]
    exact and_congr_left' (and_congr_left' hglyph)
  | .binary left op right _, hnames, rest, hrest => by
    obtain ⟨hleftNames, hrightNames⟩ := List.forall_mem_append.mp hnames
    have hfollows (more : List Char) : MayFollow (' ' :: more) := mayFollow_cons (by decide) more
    have hleft (more : List Char) := kept_before (by decide) (left.kept_row_iff hleftNames (hfollows more))
    simp only [Expr.row, Row.kept_append, Row.kept_blank, Row.kept_atom, Row.chars_blank, Row.chars_atom,
      List.cons_append, Atom.text, hleft, C.firstAtom?_mark_before (binaryGlyph_mem op) (.inl rfl), true_and,
      right.kept_row_iff hrightNames hrest]
    exact and_assoc.symm
  | .cast operand type _, hnames, rest, hrest => by
    obtain ⟨hoperandNames, htypeNames⟩ := List.forall_mem_append.mp hnames
    have hoperand := operand.kept_row_iff hoperandNames hrest
    have htype (more : List Char) : Row.Kept (type.row file) (')' :: more) :=
      type.kept_row file htypeNames (.inr rfl) more
    have hopen : "(" ∈ C.loneMarks := by decide
    have hclose : ")" ∈ C.loneMarks := by decide
    simp only [Expr.row, Row.kept_append, Row.kept_atom, Atom.text, C.firstAtom?_loneMark hopen,
      C.firstAtom?_loneMark hclose, hoperand, true_and]
    exact and_iff_right (htype _)
  | .field object name _, hnames, rest, hrest => by
    obtain ⟨hobjectNames, hname⟩ := List.forall_mem_append.mp hnames
    have hname := hname name.name List.mem_cons_self
    have hfollows (more : List Char) : MayFollow ('.' :: more) := mayFollow_cons (by decide) more
    have hobject (more : List Char) := object.kept_row_iff hobjectNames (hfollows more)
    rw [Expr.row, Row.kept_append]
    refine (and_congr (hobject _) (iff_true_intro ?_)).trans ?_
    · exact ⟨by simpa [Atom.text] using firstAtom?_point hname rest, hrest.firstAtom?_word hname, trivial⟩
    · simp [Expr.StaysApart, Expr.endsInNumber, dotted, C.startsWith_cons, and_comm]
  | .index object position _, hnames, rest, _ => by
    obtain ⟨hobjectNames, hpositionNames⟩ := List.forall_mem_append.mp hnames
    have hopen (more : List Char) : MayFollow ('[' :: more) := mayFollow_cons (by decide) more
    have hclose : MayFollow (']' :: rest) := mayFollow_cons (by decide) rest
    have hobject (more : List Char) := kept_before (by decide) (object.kept_row_iff hobjectNames (hopen more))
    have hposition := kept_before (by decide) (position.kept_row_iff hpositionNames hclose)
    rw [Expr.row, Row.kept_append, kept_brackets (by decide) (by decide)]
    refine (and_congr (hobject _) hposition).trans ?_
    simp [Expr.StaysApart, Expr.endsInNumber]
  | .function .., _, _, _ => by simp [Expr.row, Expr.StaysApart, Expr.endsInNumber]
  | .call callee arguments _, hnames, rest, _ => by
    obtain ⟨hcalleeNames, hargumentNames⟩ := List.forall_mem_append.mp hnames
    have hopen (more : List Char) : MayFollow ('(' :: more) := mayFollow_cons (by decide) more
    have hcallee (more : List Char) := kept_before (by decide) (callee.kept_row_iff hcalleeNames (hopen more))
    have harguments := (Expr.kept_listRow_iff arguments hargumentNames (.inl rfl) rest).1
    rw [Expr.row, Row.kept_append, kept_brackets (by decide) (by decide)]
    refine (and_congr (hcallee _) harguments).trans ?_
    simp [Expr.StaysApart, Expr.endsInNumber]
  | .ident name, hnames, rest, hrest => by
    have hname := hrest.firstAtom?_word (hnames name.name List.mem_cons_self)
    simpa [Expr.row, Expr.StaysApart, Expr.endsInNumber, Atom.text] using hname
  | .literal value _, _, _, hrest => by
    simpa [Expr.row, Expr.StaysApart, Expr.endsInNumber] using value.kept_row_iff hrest
  | .bool value _, _, rest, hrest => by
    simpa [Expr.row, Expr.StaysApart, Expr.endsInNumber, Atom.text] using
      hrest.firstAtom?_number_iff (isNumber_bool value)
  | .array count element elements _, hnames, rest, _ => by
    have helementNames : ∀ name ∈ Expr.listWords elements, isIdentifier name :=
      fun name hname => hnames name (Expr.words_elements hname)
    have helements := (Expr.kept_listRow_iff elements helementNames (.inr rfl) rest).1
    rw [Expr.row, kept_brackets (by decide) (by decide)]
    simpa [Expr.StaysApart, Expr.endsInNumber] using helements

/-- The atoms of expressions before a closing bracket are kept exactly if they stay apart. -/
theorem Expr.kept_listRow_iff : ∀ es : List Expr, (∀ name ∈ Expr.listWords es, isIdentifier name) → ∀ {c : Char},
    c = ')' ∨ c = '\x7d' → ∀ rest, (Row.Kept (Expr.listRow file es) (c :: rest) ↔ Expr.AllStayApart es) ∧
      (Row.Kept (Expr.moreRow file es) (c :: rest) ↔ Expr.AllStayApart es)
  | [], _, _, _, _ => ⟨.rfl, .rfl⟩
  | e :: others, hnames, c, hc, rest => by
    obtain ⟨hfirstNames, hothersNames⟩ := List.forall_mem_append.mp hnames
    have hothers := (Expr.kept_listRow_iff others hothersNames hc rest).2
    -- What follows the expression is a comma or the bracket.
    have hfirst : Row.Kept (e.row file) (Row.chars (Expr.moreRow file others) ++ c :: rest) ↔ e.StaysApart := by
      cases others with
      | nil =>
        have hfollows : MayFollow (c :: rest) := mayFollow_cons (by rcases hc with rfl | rfl <;> decide) rest
        exact kept_before (by rcases hc with rfl | rfl <;> decide) (e.kept_row_iff hfirstNames hfollows)
      | cons next others =>
        have hfollows (more : List Char) : MayFollow (',' :: more) := mayFollow_cons (by decide) more
        exact kept_before (by decide) (e.kept_row_iff hfirstNames (hfollows _))
    have hlone : "," ∈ C.loneMarks := by decide
    have hcomma (more : List Char) : C.firstAtom? (',' :: more) = some (.mark ",") := C.firstAtom?_loneMark hlone more
    constructor
    · rw [Expr.listRow, Row.kept_append, hfirst, hothers, Expr.AllStayApart]
    · simp [Expr.moreRow, Atom.text, hcomma, hfirst, hothers, Expr.AllStayApart]

end

end Expressions

/-- The atoms of an expression in the text. The row spells what is printed, and C's lexer finds its atoms exactly if no
operator that doubles stands before itself and no point behind a number. -/
theorem lexing_finds_atoms_iff {file : SourceFile} {e : Expr} {c : C.Expr} (hlowered : Lowering.expr file e = .ok c)
    (hnames : ∀ name ∈ e.words, isIdentifier name) :
    c.text.toList = Row.chars (e.row file) ∧ (C.lex c.text = some (e.atoms file) ↔ e.StaysApart) := by
  have htext : c.text.toList = Row.chars (e.row file) := by rw [e.chars_row file, e.spell_lexemes hlowered]
  have hend : MayFollow [] := nofun
  have hlex := C.lexBehind_chars_eq_iff (e.isSolid_row file hnames)
  refine ⟨htext, ?_⟩
  rw [C.lex, htext, Expr.atoms, hlex, e.kept_row_iff file hnames hend]
  simp [dotted, C.startsWith]

/-- Different prefix operators before each other, and a minus before a negative constant with a blank between. -/
def stacked : Expr :=
  let here := Span.nowhere
  let field : Expr := .field (.ident ⟨"p", here⟩) ⟨"q", here⟩ here
  .binary (.unary .ref (.unary .deref field here) here) .sub (.literal (.i8 (-3)) here) here

/-- An address-of before a dereference and a minus before a negative constant stay apart, the latter by a blank. -/
theorem stacked_atoms_are_found : (∀ name ∈ stacked.words, isIdentifier name) ∧ ∃ c,
    Lowering.expr ⟨[], []⟩ stacked = .ok c ∧ c.text = "&*p.q - -3" ∧ C.lex c.text =
      some [.mark "&", .mark "*", .word "p", .mark ".", .word "q", .mark "-", .mark "-", .number "3"] := by
  have hnames : ∀ name ∈ stacked.words, isIdentifier name := by decide
  have happart : stacked.StaysApart := by
    simp [stacked, Expr.StaysApart, Expr.opener, Expr.endsInNumber, UnaryOp.doubles]
  have hlex := (lexing_finds_atoms_iff (show Lowering.expr ⟨[], []⟩ stacked = .ok _ from rfl) hnames).2.mpr happart
  exact ⟨hnames, _, rfl, rfl, hlex⟩

/-- A minus before a minus. -/
def doubleNegation : Expr :=
  .unary .neg (.unary .neg (.ident ⟨"x", Span.nowhere⟩) Span.nowhere) Span.nowhere

/-- Two minuses before a name are printed together, and C's lexer reads them as a decrement. -/
theorem double_negation_is_read_as_decrement : (∀ name ∈ doubleNegation.words, isIdentifier name) ∧ ∃ c,
    Lowering.expr ⟨[], []⟩ doubleNegation = .ok c ∧ c.text = "--x" ∧
    doubleNegation.atoms ⟨[], []⟩ = [.mark "-", .mark "-", .word "x"] ∧
    C.lex c.text = some [.mark "--", .word "x"] :=
  ⟨by decide, _, rfl, rfl, rfl, rfl⟩

end DeclTree

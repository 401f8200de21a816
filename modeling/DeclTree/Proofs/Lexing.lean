import DeclTree.Proofs.JsonTokens
import DeclTree.Proofs.Lexemes
import DeclTree.Proofs.Words

/-!
# Literals and brackets of a text

A C lexer that goes over a text is in the code or inside a literal, and it keeps the brackets that are still to be
closed. In a literal a backslash takes the next character with it, and a line must not end. A text is closed if the
lexer comes back to the code with the brackets that it had before, whatever these were. A text without quotes and
brackets is closed, and so is a literal, whatever characters it holds, because they are escaped. Closed rows of lexemes
can be put one after the other and between brackets.
-/

namespace DeclTree.C

/-- What a lexer is inside of. -/
inductive Mode where
  | code
  /-- A string or a character, up to the quote. -/
  | literal (quote : Char)
  /-- A literal behind a backslash. -/
  | escape (quote : Char)
deriving DecidableEq

/-- The state of a lexer: what it is inside of, and the closing brackets that must follow, innermost first. -/
structure Lexing where
  mode : Mode
  awaited : List Char
deriving DecidableEq

/-- Whether a character starts and ends a literal. -/
def isQuote (c : Char) : Bool := c == '\x22' || c == '\x27'

/-- Whether a character ends a line. -/
def isLineEnd (c : Char) : Bool := c == '\n' || c == '\r'

/-- The bracket that closes an opening bracket. -/
def closing? : Char → Option Char
  | '(' => some ')'
  | '[' => some ']'
  | '\x7b' => some '\x7d'
  | _ => none

/-- Whether a character is a closing bracket. -/
def isClosing (c : Char) : Bool := c == ')' || c == ']' || c == '\x7d'

namespace Lexing

/-- The state before and behind a text in which everything is closed. -/
def start : Lexing := ⟨.code, []⟩

/-- Read a character. A line that ends in a literal and a closing bracket that is not awaited are errors. -/
def next (state : Lexing) (c : Char) : Option Lexing :=
  match state.mode with
  | .code =>
    if isQuote c then some { state with mode := .literal c }
    else match closing? c with
      | some bracket => some { state with awaited := bracket :: state.awaited }
      | none =>
        if isClosing c then
          match state.awaited with
          | [] => none
          | bracket :: rest => if c = bracket then some { state with awaited := rest } else none
        else some state
  | .literal quote =>
    if isLineEnd c then none
    else if c = quote then some { state with mode := .code }
    else if c = '\\' then some { state with mode := .escape quote }
    else some state
  | .escape quote => if isLineEnd c then none else some { state with mode := .literal quote }

/-- Read a text. -/
def run (state : Lexing) (text : String) : Option Lexing := text.toList.foldlM next state

/-- Reading nothing changes no state. -/
@[simp] theorem run_empty (state : Lexing) : state.run "" = some state := by simp [run]

/-- A text is read from its start to its end. -/
@[simp] theorem run_append (state : Lexing) (first second : String) :
    state.run (first ++ second) = (state.run first).bind fun between => between.run second := by
  rw [run, String.toList_append, List.foldlM_append]
  rfl

end Lexing

/-- Whether a character is neither a quote nor a bracket. -/
def isPlain (c : Char) : Bool := !isQuote c && (closing? c).isNone && !isClosing c

/-- A text without quotes and brackets. -/
def IsPlain (text : String) : Prop := text.toList.all isPlain = true

namespace IsPlain

variable {text first second : String}

/-- Plain texts are plain when put together. -/
theorem append (hfirst : IsPlain first) (hsecond : IsPlain second) : IsPlain (first ++ second) := by
  rw [IsPlain, String.toList_append, List.all_append, hfirst, hsecond, Bool.and_self]

/-- Plain texts with a plain one between them are plain. -/
theorem intercalate {separator : String} (hseparator : IsPlain separator) {texts : List String}
    (htexts : ∀ text ∈ texts, IsPlain text) : IsPlain (separator.intercalate texts) := by
  induction texts with
  | nil => rfl
  | cons first rest ih =>
    obtain ⟨hfirst, hrest⟩ := List.forall_mem_cons.mp htexts
    cases rest with
    | nil => simpa using hfirst
    | cons second rest =>
      rw [String.intercalate_cons_cons]
      exact (hfirst.append hseparator).append (ih hrest)

/-- White space in front of a line is plain. -/
theorem indentation (level : Nat) : IsPlain (indentation level) := by
  rw [IsPlain, C.indentation, String.toList_ofList, List.all_eq_true]
  intro c hc
  rw [List.eq_of_mem_replicate hc]
  rfl

/-- A text is plain if its characters are of a kind that no quote and no bracket is of. -/
theorem of_kind (kind : Char → Bool)
    (hmarks : ['\x22', '\x27', '(', '[', '\x7b', ')', ']', '\x7d'].all (!kind ·) = true)
    (htext : ∀ c ∈ text.toList, kind c = true) : IsPlain text := by
  rw [IsPlain, List.all_eq_true]
  intro c hc
  have hne : ∀ mark ∈ ['\x22', '\x27', '(', '[', '\x7b', ')', ']', '\x7d'], c ≠ mark := by
    rintro mark hmark rfl
    have hkind := List.all_eq_true.mp hmarks c hmark
    rw [htext c hc] at hkind
    cases hkind
  simp only [List.forall_mem_cons, ne_eq, List.not_mem_nil, false_imp_iff, implies_true, and_true] at hne
  simp [isPlain, isQuote, isClosing, closing?, hne]

/-- An identifier is plain. -/
theorem identifier {name : String} (h : isIdentifier name) : IsPlain name :=
  of_kind isNameChar rfl (isNameChar_of_isIdentifier h)

/-- A plain character changes no state of the code. -/
theorem next_eq {c : Char} (h : isPlain c) (awaited : List Char) :
    Lexing.next ⟨.code, awaited⟩ c = some ⟨.code, awaited⟩ := by
  simp only [isPlain, Bool.and_eq_true, Bool.not_eq_true', Option.isNone_iff_eq_none] at h
  simp [Lexing.next, h]

/-- Over a plain text the state stays as it is. -/
theorem run_eq (h : IsPlain text) (awaited : List Char) : Lexing.run ⟨.code, awaited⟩ text = some ⟨.code, awaited⟩ := by
  rw [IsPlain] at h
  rw [Lexing.run]
  generalize text.toList = chars at h
  induction chars with
  | nil => rfl
  | cons c rest ih =>
    rw [List.all_cons, Bool.and_eq_true] at h
    rw [List.foldlM_cons, next_eq h.1]
    exact ih h.2

end IsPlain

/-- Inside a literal the escaped form of a character is passed over. -/
theorem foldlM_next_escape {quote : Char} (hquote : isQuote quote) (c : Char) (following : Option Char)
    (awaited : List Char) :
    (escape c following).foldlM Lexing.next ⟨.literal quote, awaited⟩ = some ⟨.literal quote, awaited⟩ := by
  obtain rfl | rfl : quote = '\x22' ∨ quote = '\x27' := by simpa [isQuote] using hquote
  all_goals
    unfold escape
    split
    case h_4 => split <;> rfl
    case h_8 => simp_all [Lexing.next, isLineEnd]
    all_goals rfl

/-- Inside a string the escaped form of a row of characters is passed over. -/
theorem foldlM_next_escapeAll (chars awaited : List Char) :
    (escapeAll chars).foldlM Lexing.next ⟨.literal '\x22', awaited⟩ = some ⟨.literal '\x22', awaited⟩ := by
  induction chars with
  | nil => rfl
  | cons c rest ih =>
    rw [escapeAll, List.foldlM_append, foldlM_next_escape rfl]
    exact ih

/-- Inside a character digits are passed over. -/
theorem foldlM_next_digits {digits : List Char} (h : ∀ c ∈ digits, c.isDigit = true) (awaited : List Char) :
    digits.foldlM Lexing.next ⟨.literal '\x27', awaited⟩ = some ⟨.literal '\x27', awaited⟩ := by
  induction digits with
  | nil => rfl
  | cons c rest ih =>
    obtain ⟨hc, hrest⟩ := List.forall_mem_cons.mp h
    have hne (mark : Char) (hmark : mark.isDigit = false) : c ≠ mark := by
      rintro rfl
      rw [hc] at hmark
      cases hmark
    have hnext : Lexing.next ⟨.literal '\x27', awaited⟩ c = some ⟨.literal '\x27', awaited⟩ := by
      simp [Lexing.next, isLineEnd, hne '\n' rfl, hne '\r' rfl, hne '\x27' rfl, hne '\\' rfl]
    rw [List.foldlM_cons, hnext]
    exact ih hrest

/-- A lexer comes back to the code with the brackets that it had before the text. -/
def IsClosed (text : String) : Prop := ∀ awaited, Lexing.run ⟨.code, awaited⟩ text = some ⟨.code, awaited⟩

/-- A plain text opens nothing, so it is closed. -/
theorem IsPlain.isClosed {text : String} (h : IsPlain text) : IsClosed text := h.run_eq

/-- A string constant is closed, since the quotes in it are escaped. -/
theorem isClosed_stringText (s : String) : IsClosed (stringText s) := by
  intro awaited
  rw [stringText, Lexing.run, String.toList_ofList, List.cons_append, List.foldlM_cons]
  exact (List.foldlM_append ..).trans (by rw [foldlM_next_escapeAll]; rfl)

/-- Behind a quote the octal form of a byte is passed over. -/
theorem foldlM_next_octal (n : Nat) (awaited : List Char) :
    ('\\' :: Nat.toDigits 8 n).foldlM Lexing.next ⟨.literal '\x27', awaited⟩ = some ⟨.literal '\x27', awaited⟩ := by
  have hdigits (c : Char) (hc : c ∈ Nat.toDigits 8 n) : c.isDigit = true :=
    Nat.isDigit_of_mem_toDigits (by decide) (by decide) hc
  cases hn : Nat.toDigits 8 n with
  | nil => exact absurd hn Nat.toDigits_ne_nil
  | cons first rest =>
    rw [hn] at hdigits
    obtain ⟨hfirst, hrest⟩ := List.forall_mem_cons.mp hdigits
    -- The backslash takes the first digit with it.
    have hnext : Lexing.next ⟨.escape '\x27', awaited⟩ first = some ⟨.literal '\x27', awaited⟩ := by
      have hline : isLineEnd first = false := by
        rw [isLineEnd, Bool.or_eq_false_iff, beq_eq_false_iff_ne, beq_eq_false_iff_ne]
        constructor <;> rintro rfl <;> cases hfirst
      simp [Lexing.next, hline]
    change (Lexing.next ⟨.escape '\x27', awaited⟩ first).bind (fun state => rest.foldlM Lexing.next state) = _
    rw [hnext]
    exact foldlM_next_digits hrest awaited

/-- A character constant is closed, since the quotes in it are escaped. -/
theorem isClosed_charText (byte : UInt8) : IsClosed (charText byte) := by
  intro awaited
  rw [charText, Lexing.run, String.toList_ofList, List.cons_append, List.foldlM_cons]
  refine (List.foldlM_append ..).trans ?_
  split
  · rw [foldlM_next_escape rfl]
    rfl
  · rw [foldlM_next_octal]
    rfl

/-- The digits of an integer are plain. -/
theorem isPlain_toString (n : Int) : IsPlain (toString n) := by
  cases n with
  | ofNat n => exact .of_kind Json.isNumberChar rfl fun _ => Json.isNumberChar_of_mem_toString
  | negSucc n =>
    have hsign : toString (Int.negSucc n) = "-" ++ toString (n + 1) := rfl
    rw [hsign]
    exact .append rfl (.of_kind Json.isNumberChar rfl fun _ => Json.isNumberChar_of_mem_toString)

/-- The suffix of a type is plain. -/
theorem isPlain_suffix (type : Primitive) : IsPlain type.suffix := by cases type <;> rfl

/-- An integer with its suffix is plain. -/
theorem isPlain_intText (n : Int) (type : Primitive) : IsPlain (intText n type) :=
  (isPlain_toString n).append (isPlain_suffix type)

/-- A decimal is plain. -/
theorem isPlain_numeral (n : Numeral) : IsPlain n.text :=
  .of_kind Json.isNumberChar rfl fun _ => Json.isNumberChar_of_mem_text

/-- A literal is closed, whatever characters it holds. -/
theorem isClosed_literalText (value : Literal) : IsClosed (literalText value) := by
  cases value with
  | string s => exact isClosed_stringText s
  | char byte => exact isClosed_charText byte
  | i64 n =>
    rw [literalText]
    split
    · intro awaited
      rw [Lexing.run_append, Lexing.run_append,
        show Lexing.run ⟨.code, awaited⟩ "(" = some ⟨.code, ')' :: awaited⟩ from rfl, Option.bind_some,
        (isPlain_intText _ _).run_eq]
      rfl
    · exact (isPlain_intText _ _).isClosed
  | f32 x => exact ((isPlain_numeral _).append (isPlain_suffix _)).isClosed
  | f64 x => exact ((isPlain_numeral _).append (isPlain_suffix _)).isClosed
  | _ => exact (isPlain_intText _ _).isClosed

/-- A lexer comes back to the code with the brackets that it had before the row. -/
def Lexeme.Closed (row : List Lexeme) : Prop := IsClosed (spell row)

/-- A text opens a bracket. -/
def Opens (text : String) (bracket : Char) : Prop :=
  ∀ awaited, Lexing.run ⟨.code, awaited⟩ text = some ⟨.code, bracket :: awaited⟩

/-- A text closes a bracket. -/
def Closes (text : String) (bracket : Char) : Prop :=
  ∀ awaited, Lexing.run ⟨.code, bracket :: awaited⟩ text = some ⟨.code, awaited⟩

/-- A plain text in front of one that opens a bracket does not matter. -/
theorem IsPlain.append_opens {first second : String} {bracket : Char} (hfirst : IsPlain first)
    (hsecond : Opens second bracket) : Opens (first ++ second) bracket := by
  intro awaited
  rw [Lexing.run_append, hfirst.run_eq]
  exact hsecond awaited

/-- A plain text in front of one that closes a bracket does not matter. -/
theorem IsPlain.append_closes {first second : String} {bracket : Char} (hfirst : IsPlain first)
    (hsecond : Closes second bracket) : Closes (first ++ second) bracket := by
  intro awaited
  rw [Lexing.run_append, hfirst.run_eq]
  exact hsecond awaited

namespace Lexeme.Closed

variable {row rest : List Lexeme} {lexeme opening closing : Lexeme} {bracket : Char}

/-- An empty row is closed. -/
theorem nil : Closed [] := fun awaited => Lexing.run_empty ⟨.code, awaited⟩

/-- Closed rows are closed when put together. -/
theorem append (hrow : Closed row) (hrest : Closed rest) : Closed (row ++ rest) := by
  intro awaited
  rw [spell_append, Lexing.run_append, hrow awaited]
  exact hrest awaited

/-- A row is closed if its first lexeme and the rest are. -/
theorem cons (hlexeme : IsClosed lexeme.text) (hrest : Closed rest) : Closed (lexeme :: rest) := by
  intro awaited
  rw [spell_cons, Lexing.run_append, hlexeme awaited]
  exact hrest awaited

/-- A plain lexeme in front of a closed row leaves it closed. -/
theorem plain {text : String} (htext : IsPlain text) (hrest : Closed rest) : Closed (.plain text :: rest) :=
  cons htext.isClosed hrest

/-- Rows that are closed one by one are closed in a row. -/
theorem flatMap {α : Type} {rows : α → List Lexeme} {values : List α} (h : ∀ a ∈ values, Closed (rows a)) :
    Closed (values.flatMap rows) := by
  induction values with
  | nil => exact nil
  | cons first others ih =>
    obtain ⟨hfirst, hothers⟩ := List.forall_mem_cons.mp h
    exact hfirst.append (ih hothers)

/-- Closed rows with a closed one between them are closed. -/
theorem intercalate {mark : List Lexeme} (hmark : Closed mark) {rows : List (List Lexeme)}
    (hrows : ∀ row ∈ rows, Closed row) : Closed (mark.intercalate rows) := by
  induction rows with
  | nil => exact nil
  | cons first others ih =>
    obtain ⟨hfirst, hothers⟩ := List.forall_mem_cons.mp hrows
    cases others with
    | nil => simpa using hfirst
    | cons second others =>
      rw [List.intercalate_cons_cons]
      exact (hfirst.append hmark).append (ih hothers)

/-- A closed row between brackets is closed. -/
theorem enclosed (hopening : Opens opening.text bracket) (hrow : Closed row) (hclosing : Closes closing.text bracket)
    (hrest : Closed rest) : Closed (opening :: (row ++ closing :: rest)) := by
  intro awaited
  rw [spell_cons, spell_append, spell_cons, Lexing.run_append, hopening awaited, Option.bind_some, Lexing.run_append,
    hrow (bracket :: awaited), Option.bind_some, Lexing.run_append, hclosing awaited]
  exact hrest awaited

end Lexeme.Closed

end DeclTree.C

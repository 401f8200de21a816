import DeclTree.Proofs.Lexing

/-!
# Indentation

What is printed at a level is what is printed at level zero with four blanks for each level in front of every line that
is not empty. A text is moved to the right character by character, with the state of standing at the start of a line or
inside one (`shift`). A part that is printed at two levels moves from the lower to the higher (`Indents`), and parts can
be put one after the other where the states meet.
-/

namespace DeclTree

open C

/-- A line with white space in front of it. An empty line stays empty. -/
def indentLine (level : Nat) (line : List Char) : List Char :=
  if line.isEmpty then line else List.replicate (4 * level) ' ' ++ line

/-- A text with white space in front of its lines. -/
def indentLines (level : Nat) (text : String) : String :=
  String.ofList (['\n'].intercalate ((text.toList.splitOn '\n').map (indentLine level)))

/-- Characters moved to the right; `fresh` says whether they stand at the start of a line. -/
def shift (level : Nat) (fresh : Bool) : List Char → List Char
  | [] => []
  | c :: rest =>
    if c = '\n' then c :: shift level true rest
    else (if fresh then List.replicate (4 * level) ' ' else []) ++ c :: shift level false rest

/-- Whether what follows the characters stands at the start of a line. -/
def endsFresh (fresh : Bool) : List Char → Bool
  | [] => fresh
  | c :: rest => endsFresh (c = '\n') rest

/-- Moving goes on behind the first characters, at the start of a line or inside one. -/
theorem shift_append (level : Nat) (fresh : Bool) (chars others : List Char) :
    shift level fresh (chars ++ others) = shift level fresh chars ++ shift level (endsFresh fresh chars) others := by
  induction chars generalizing fresh with
  | nil => rfl
  | cons c rest ih =>
    rw [List.cons_append, shift, shift, endsFresh, ih, ih]
    by_cases hc : c = '\n' <;> simp [hc]

/-- Whether a line starts is found out character by character. -/
theorem endsFresh_append (fresh : Bool) (chars others : List Char) :
    endsFresh fresh (chars ++ others) = endsFresh (endsFresh fresh chars) others := by
  induction chars generalizing fresh with
  | nil => rfl
  | cons c rest ih => exact ih (c = '\n')

/-- What stands in front of the first text of a row stands in front of the row. -/
theorem intercalate_append_cons (mark first more : List Char) (rest : List (List Char)) :
    mark.intercalate ((first ++ more) :: rest) = first ++ mark.intercalate (more :: rest) := by
  cases rest with
  | nil => rw [List.intercalate_singleton, List.intercalate_singleton]
  | cons second rest => simp only [List.intercalate_cons_cons, List.append_assoc]

/-- Moving characters puts white space in front of each line, but not of the first one if that has begun before. -/
theorem shift_eq_intercalate (level : Nat) (fresh : Bool) {chars first : List Char} {rest : List (List Char)}
    (h : chars.splitOn '\n' = first :: rest) : shift level fresh chars =
      ['\n'].intercalate ((if fresh then indentLine level first else first) :: rest.map (indentLine level)) := by
  -- Only the first line depends on `fresh`; every other line starts behind the end of one.
  induction chars generalizing fresh first rest with
  | nil =>
    obtain ⟨rfl, rfl⟩ := List.cons.inj h
    cases fresh <;> rfl
  | cons c chars ih =>
    obtain ⟨line, others, hlines⟩ := List.exists_cons_of_ne_nil (List.splitOn_ne_nil '\n' chars)
    rw [List.splitOn_cons_eq_if_modifyHead, hlines] at h
    by_cases hc : c = '\n'
    · rw [if_pos (beq_iff_eq.mpr hc)] at h
      obtain ⟨rfl, rfl⟩ := List.cons.inj h
      rw [shift, if_pos hc, ih true hlines, hc, List.map_cons, List.intercalate_cons_cons]
      cases fresh <;> rfl
    · rw [if_neg (mt beq_iff_eq.mp hc), List.modifyHead_cons] at h
      obtain ⟨rfl, rfl⟩ := List.cons.inj h
      rw [shift, if_neg hc, ih false hlines, ← List.intercalate_cons_cons_left]
      cases fresh with
      | false => rfl
      | true => exact (intercalate_append_cons ..).symm

/-- White space in front of every line is moving from the start of a line. -/
theorem indentLines_eq (level : Nat) (text : String) :
    indentLines level text = String.ofList (shift level true text.toList) := by
  obtain ⟨first, rest, h⟩ := List.exists_cons_of_ne_nil (List.splitOn_ne_nil '\n' text.toList)
  rw [indentLines, shift_eq_intercalate level true h, h, if_pos rfl, List.map_cons]

/-- A text without the end of a line. -/
def Unbroken (text : String) : Prop := text.toList.all (· != '\n') = true

/-- A text is unbroken if no line ends in it. -/
theorem unbroken_iff {text : String} : Unbroken text ↔ '\n' ∉ text.toList := by
  rw [Unbroken, List.all_eq_true]
  exact ⟨fun h hmem => by simpa using h _ hmem, fun h c hc => bne_iff_ne.mpr fun heq => h (heq ▸ hc)⟩

namespace Unbroken

variable {text first second : String}

/-- Unbroken texts are unbroken when put together. -/
theorem append (hfirst : Unbroken first) (hsecond : Unbroken second) : Unbroken (first ++ second) := by
  rw [Unbroken, String.toList_append, List.all_append, hfirst, hsecond, Bool.and_self]

/-- White space in front of a line is unbroken. -/
theorem indentation (level : Nat) : Unbroken (indentation level) := by
  rw [Unbroken, C.indentation, String.toList_ofList, List.all_eq_true]
  intro c hc
  rw [List.eq_of_mem_replicate hc]
  rfl

/-- A text is unbroken if its characters are of a kind that the end of a line is not of. -/
theorem of_kind (kind : Char → Bool) (hend : kind '\n' = false) (htext : ∀ c ∈ text.toList, kind c = true) :
    Unbroken text := by
  rw [unbroken_iff]
  intro hmem
  rw [htext _ hmem] at hend
  cases hend

/-- A row of lexemes is unbroken if its first lexeme and the rest are. -/
theorem spell_cons {lexeme : Lexeme} {row : List Lexeme} (hlexeme : Unbroken lexeme.text)
    (hrow : Unbroken (Lexeme.spell row)) : Unbroken (Lexeme.spell (lexeme :: row)) := by
  rw [Lexeme.spell_cons]
  exact hlexeme.append hrow

/-- Two rows of lexemes are unbroken when put together. -/
theorem spell_append {row others : List Lexeme} (hrow : Unbroken (Lexeme.spell row))
    (hothers : Unbroken (Lexeme.spell others)) : Unbroken (Lexeme.spell (row ++ others)) := by
  rw [Lexeme.spell_append]
  exact hrow.append hothers

/-- What is put between two marks is unbroken with them. -/
theorem spell_enclosed {opening closing : String} {row others : List Lexeme} (hopening : Unbroken opening)
    (hrow : Unbroken (Lexeme.spell row)) (hclosing : Unbroken closing) (hothers : Unbroken (Lexeme.spell others)) :
    Unbroken (Lexeme.spell (.plain opening :: (row ++ .plain closing :: others))) :=
  spell_cons hopening (hrow.spell_append (spell_cons hclosing hothers))

end Unbroken

section Syntax

variable {file : SourceFile}

/-- The escape of a character never ends a line, since the end of a line is escaped itself. -/
theorem unbroken_escape (c : Char) (next : Option Char) : (escape c next).all (· != '\n') = true := by
  unfold escape
  split
  case h_4 => split <;> rfl
  case h_8 => simp_all
  all_goals rfl

/-- Escaped characters never end a line. -/
theorem unbroken_escapeAll (chars : List Char) : (escapeAll chars).all (· != '\n') = true := by
  induction chars with
  | nil => rfl
  | cons c rest ih => rw [escapeAll, List.all_append, unbroken_escape, ih, Bool.and_self]

/-- A string constant stands on one line. -/
theorem unbroken_stringText (s : String) : Unbroken (stringText s) := by
  rw [Unbroken, stringText, String.toList_ofList, List.all_append, List.all_cons, unbroken_escapeAll]
  rfl

/-- A character constant stands on one line. -/
theorem unbroken_charText (byte : UInt8) : Unbroken (charText byte) := by
  rw [Unbroken, charText, String.toList_ofList, List.all_append, List.all_cons]
  split
  · rw [unbroken_escape]
    rfl
  · have hdigits : (Nat.toDigits 8 byte.toNat).all (· != '\n') = true := by
      rw [List.all_eq_true]
      intro c hc
      have hdigit : c.isDigit = true := Nat.isDigit_of_mem_toDigits (by decide) (by decide) hc
      exact bne_iff_ne.mpr fun heq => by rw [heq] at hdigit; cases hdigit
    rw [List.all_cons, hdigits]
    rfl

/-- An integer constant stands on one line. -/
theorem unbroken_intText (n : Int) (type : Primitive) : Unbroken (intText n type) := by
  have hnat (n : Nat) : Unbroken (toString n) :=
    .of_kind Json.isNumberChar rfl fun _ => Json.isNumberChar_of_mem_toString
  refine .append ?_ (by cases type <;> rfl)
  cases n with
  | ofNat n => exact hnat n
  | negSucc n =>
    have hsign : toString (Int.negSucc n) = "-" ++ toString (n + 1) := rfl
    rw [hsign]
    exact .append rfl (hnat (n + 1))

/-- A decimal stands on one line. -/
theorem unbroken_numeral (n : Numeral) : Unbroken n.text :=
  .of_kind Json.isNumberChar rfl fun _ => Json.isNumberChar_of_mem_text

/-- A literal stays on its line, whatever characters it holds. -/
theorem unbroken_literalText (value : Literal) : Unbroken (literalText value) := by
  cases value with
  | string s => exact unbroken_stringText s
  | char byte => exact unbroken_charText byte
  | i64 n =>
    rw [literalText]
    split
    · exact .append (.append rfl (unbroken_intText _ _)) rfl
    · exact unbroken_intText _ _
  | f32 x => exact (unbroken_numeral _).append rfl
  | f64 x => exact (unbroken_numeral _).append rfl
  | _ => exact unbroken_intText _ _

/-- A type whose names are unbroken stands on one line. -/
theorem TypeExpr.unbroken_lexemes : ∀ type : TypeExpr, (∀ word ∈ type.words, Unbroken word) →
    Unbroken (Lexeme.spell (type.lexemes file))
  | .primitive p _, _ => .spell_cons (by cases p <;> rfl) rfl
  | .pointer base _, h => (base.unbroken_lexemes h).spell_append rfl
  | .nullable base _, h => (base.unbroken_lexemes h).spell_append rfl
  | .array element _, h => element.unbroken_lexemes h
  | .named name link, h => by
    have hname : Unbroken name.name := h _ (List.mem_singleton.mpr rfl)
    cases link with
    | none => rfl
    | some id =>
      rw [lexemes, Option.bind_some]
      cases file.tagKindAt? id with
      | none => rfl
      | some kind =>
        refine .spell_cons (.append ?_ hname) rfl
        cases kind <;> rfl
  | .function _, _ => rfl

mutual

/-- An expression stays on its line. -/
theorem Expr.unbroken_lexemes : ∀ e : Expr, (∀ word ∈ e.words, Unbroken word) →
    Unbroken (Lexeme.spell (e.lexemes file))
  | .paren inner _, h => .spell_enclosed rfl (inner.unbroken_lexemes h) rfl rfl
  | .unary op operand _, h => .spell_cons (by cases op <;> rfl) (operand.unbroken_lexemes h)
  | .binary left op right _, h =>
    have h := List.forall_mem_append.mp h
    (left.unbroken_lexemes h.1).spell_append (.spell_cons (by cases op <;> rfl) (right.unbroken_lexemes h.2))
  | .cast operand type _, h =>
    have h := List.forall_mem_append.mp h
    .spell_enclosed rfl (type.unbroken_lexemes h.2) rfl (operand.unbroken_lexemes h.1)
  | .field object name _, h =>
    have h := List.forall_mem_append.mp h
    (object.unbroken_lexemes h.1).spell_append (.spell_cons (.append rfl (h.2 _ (List.mem_singleton.mpr rfl))) rfl)
  | .index object position _, h =>
    have h := List.forall_mem_append.mp h
    (object.unbroken_lexemes h.1).spell_append (.spell_enclosed rfl (position.unbroken_lexemes h.2) rfl rfl)
  | .function .., _ => rfl
  | .call callee arguments _, h =>
    have h := List.forall_mem_append.mp h
    (callee.unbroken_lexemes h.1).spell_append
      (.spell_enclosed rfl (Expr.unbroken_listLexemes arguments h.2).1 rfl rfl)
  | .ident _, h => .spell_cons (h _ (List.mem_singleton.mpr rfl)) rfl
  | .literal value _, _ => .spell_cons (unbroken_literalText value) rfl
  | .bool value _, _ => .spell_cons (by cases value <;> rfl) rfl
  | .array none _ elements _, h =>
    .spell_enclosed rfl (Expr.unbroken_listLexemes elements (List.forall_mem_append.mp h).2).1 rfl rfl
  | .array (some _) _ elements _, h =>
    .spell_enclosed rfl (Expr.unbroken_listLexemes elements (List.forall_mem_append.mp h).2).1 rfl rfl

/-- Expressions stay on their line, with commas between or a comma before each. -/
theorem Expr.unbroken_listLexemes : ∀ es : List Expr, (∀ word ∈ Expr.listWords es, Unbroken word) →
    Unbroken (Lexeme.spell (Expr.listLexemes file es)) ∧ Unbroken (Lexeme.spell (Expr.moreLexemes file es))
  | [], _ => ⟨rfl, rfl⟩
  | e :: rest, h =>
    have h := List.forall_mem_append.mp h
    have hfirst := e.unbroken_lexemes h.1
    have hrest := (Expr.unbroken_listLexemes rest h.2).2
    ⟨hfirst.spell_append hrest, .spell_cons rfl (.spell_cons rfl (hfirst.spell_append hrest))⟩

end

open Lowering

/-- An expression whose names are unbroken stands on one line. -/
theorem Expr.unbroken_text {e : Expr} {c : C.Expr} (h : expr file e = .ok c)
    (hwords : ∀ word ∈ e.words, Unbroken word) : Unbroken c.text := by
  rw [← e.spell_lexemes h]
  exact e.unbroken_lexemes hwords

/-- A declarator whose names are unbroken stands on one line. -/
theorem unbroken_declarator {type : TypeExpr} {name : String} {count : Option Expr} {d : C.Declarator}
    (h : declarator file type name count = .ok d) (htype : ∀ word ∈ type.words, Unbroken word) (hname : Unbroken name)
    (hcount : ∀ word ∈ Expr.optionWords count, Unbroken word) : Unbroken d.text := by
  rw [← spell_declaratorLexemes h]
  have hword : Unbroken (" " ++ name) := .append rfl hname
  cases type with
  | array element _ =>
    refine (element.unbroken_lexemes htype).spell_append (.spell_cons hword ?_)
    cases count with
    | none => exact .spell_cons rfl rfl
    | some count => exact .spell_enclosed rfl (count.unbroken_lexemes hcount) rfl rfl
  | _ => exact (TypeExpr.unbroken_lexemes _ htype).spell_append (.spell_cons hword rfl)

end Syntax

/-- A text does not start with the end of a line. -/
def Solid (text : String) : Prop := ∃ c rest, text.toList = c :: rest ∧ c ≠ '\n'

/-- A text stays solid whatever is put behind it. -/
theorem Solid.append {first : String} (h : Solid first) (second : String) : Solid (first ++ second) := by
  obtain ⟨c, rest, hchars, hc⟩ := h
  exact ⟨c, rest ++ second.toList, by rw [String.toList_append, hchars, List.cons_append], hc⟩

/-- An unbroken text is solid unless it is empty. -/
theorem Unbroken.solid {text : String} (h : Unbroken text) (hne : text ≠ "") : Solid text := by
  obtain ⟨c, rest, hchars⟩ := List.exists_cons_of_ne_nil (mt String.toList_eq_nil_iff.mp hne)
  rw [Unbroken, hchars, List.all_cons, Bool.and_eq_true] at h
  exact ⟨c, rest, hchars, bne_iff_ne.mp h.1⟩

/-- Unbroken characters in front of a solid text leave it solid. -/
theorem Unbroken.append_solid {first second : String} (hfirst : Unbroken first) (hsecond : Solid second) :
    Solid (first ++ second) := by
  by_cases hne : first = ""
  · rwa [hne, String.empty_append]
  · exact (hfirst.solid hne).append second

/-- Moving the one text to the right gives the other, from the start of a line or from inside one; afterwards a line
starts or not. -/
structure Indents (level : Nat) (fresh : Bool) (low high : String) (after : Bool) : Prop where
  shifts : shift level fresh low.toList = high.toList
  ends : endsFresh fresh low.toList = after

namespace Indents

variable {level : Nat} {fresh between after : Bool} {low high low' high' text : String}

/-- Two texts move together, the second from where the first ends. -/
theorem append (h : Indents level fresh low high between) (h' : Indents level between low' high' after) :
    Indents level fresh (low ++ low') (high ++ high') after where
  shifts := by rw [String.toList_append, shift_append, h.ends, h.shifts, h'.shifts, String.toList_append]
  ends := by rw [String.toList_append, endsFresh_append, h.ends, h'.ends]

/-- The end of a line stays where it is, and a line starts behind it. -/
theorem newline (level : Nat) (fresh : Bool) : Indents level fresh "\n" "\n" true := ⟨rfl, rfl⟩

/-- Inside a line an unbroken text stays as it is. -/
theorem unbroken (level : Nat) (h : Unbroken text) : Indents level false text text false := by
  have hchars (chars : List Char) (h : chars.all (· != '\n') = true) :
      shift level false chars = chars ∧ endsFresh false chars = false := by
    induction chars with
    | nil => exact ⟨rfl, rfl⟩
    | cons c rest ih =>
      rw [List.all_cons, Bool.and_eq_true, bne_iff_ne] at h
      obtain ⟨hshift, hends⟩ := ih h.2
      exact ⟨by simp [shift, h.1, hshift], by simp [endsFresh, h.1, hends]⟩
  obtain ⟨hshift, hends⟩ := hchars text.toList h
  exact ⟨hshift, hends⟩

/-- White space is put in front of what does not start with the end of a line. -/
theorem of_solid (hsolid : Solid low) (h : Indents level false low high after) :
    Indents level true low (indentation level ++ high) after := by
  obtain ⟨c, rest, hchars, hc⟩ := hsolid
  obtain ⟨hshifts, hends⟩ := h
  rw [hchars, shift, if_neg hc] at hshifts
  rw [hchars, endsFresh, decide_eq_false hc] at hends
  constructor
  · rw [hchars, shift, if_neg hc, String.toList_append, ← hshifts, indentation, String.toList_ofList]
    rfl
  · rw [hchars, endsFresh, decide_eq_false hc, hends]

/-- A line that starts with white space. -/
theorem line (depth : Nat) (hsolid : Solid (indentation depth ++ low)) (h : Indents level false low high after) :
    Indents level true (indentation depth ++ low) (indentation (level + depth) ++ high) after := by
  have hblanks : indentation (level + depth) = indentation level ++ indentation depth := by
    rw [indentation, Nat.mul_add, ← List.replicate_append_replicate, String.ofList_append]
    rfl
  rw [hblanks, String.append_assoc]
  exact .of_solid hsolid ((Indents.unbroken level (.indentation depth)).append h)

/-- A line that is indented further may have nothing else on it. -/
theorem innerLine (level depth : Nat) (h : Unbroken text) :
    Indents level true (indentation (depth + 1) ++ text) (indentation (level + (depth + 1)) ++ text) false := by
  have hblanks : Solid (indentation (depth + 1)) := (Unbroken.indentation _).solid (by simp [indentation])
  exact .line (depth + 1) (hblanks.append text) (.unbroken level h)

end Indents

/-- Moving the one text to the right from inside a line gives the other, and it can stand at the start of a line. -/
structure Laid (level : Nat) (low high : String) (after : Bool) : Prop where
  solid : Solid low
  indents : Indents level false low high after

namespace Laid

variable {level : Nat} {between after : Bool} {low high low' high' text : String}

/-- A text that is laid out may be followed by one that moves. -/
theorem append (h : Laid level low high between) (h' : Indents level between low' high' after) :
    Laid level (low ++ low') (high ++ high') after := ⟨h.solid.append low', h.indents.append h'⟩

/-- An unbroken text that is not empty is laid out alike at all levels. -/
theorem unbroken (level : Nat) (h : Unbroken text) (hne : text ≠ "") : Laid level text text false :=
  ⟨h.solid hne, .unbroken level h⟩

/-- A text that is laid out stands on a line of its own behind the white space of its depth. -/
theorem line (depth : Nat) (h : Laid level low high after) :
    Indents level true (indentation depth ++ low) (indentation (level + depth) ++ high) after :=
  .line depth ((Unbroken.indentation depth).append_solid h.solid) h.indents

/-- The brace that ends what has been opened on a line. -/
theorem closing (level depth : Nat) :
    Indents level true (indentation depth ++ "\x7d") (indentation (level + depth) ++ "\x7d") false :=
  line depth (.unbroken level rfl (by decide))

end Laid

section Declarations

variable {file : SourceFile} {level : Nat}

open Lowering

/-- Declarators whose names are unbroken stand on one line each. -/
theorem unbroken_declarators {slots : List (Slot TypeExpr)} {ds : List C.Declarator}
    (h : declarators file slots = .ok ds) (hwords : ∀ word ∈ TypeExpr.slotWords slots, Unbroken word) :
    ∀ d ∈ ds, Unbroken d.text := by
  induction slots generalizing ds with
  | nil =>
    cases h
    exact List.forall_mem_nil _
  | cons slot rest ih =>
    obtain ⟨d, others, rfl, hd, hothers⟩ := declarators_cons_eq_ok h
    obtain ⟨hname, hwords⟩ := List.forall_mem_cons.mp hwords
    obtain ⟨htype, hrest⟩ := List.forall_mem_append.mp hwords
    exact List.forall_mem_cons.mpr ⟨unbroken_declarator hd htype hname (List.forall_mem_nil _), ih hothers hrest⟩

/-- The lines of the members of an enumeration. -/
theorem indents_enumerators (level depth : Nat) {names : List String} (hnames : ∀ name ∈ names, Unbroken name) :
    Indents level true
      (",\n".intercalate (names.map (indentation (depth + 1) ++ ·)) ++ if names.isEmpty then "" else "\n")
      (",\n".intercalate (names.map (indentation (level + (depth + 1)) ++ ·)) ++ if names.isEmpty then "" else "\n")
      true := by
  induction names with
  | nil => exact ⟨rfl, rfl⟩
  | cons name rest ih =>
    obtain ⟨hname, hrest⟩ := List.forall_mem_cons.mp hnames
    have hfirst := Indents.innerLine level depth hname
    cases rest with
    | nil => simpa using hfirst.append (.newline level false)
    | cons second rest =>
      have hcomma : Indents level false ",\n" ",\n" true := ⟨rfl, rfl⟩
      have hall := (hfirst.append hcomma).append (ih hrest)
      simpa [String.intercalate_cons_cons, String.append_assoc] using hall

/-- The lines of the members of a record. -/
theorem indents_fields (level depth : Nat) {members : List C.Declarator} (hmembers : ∀ m ∈ members, Unbroken m.text) :
    Indents level true (String.join (members.map fun m => indentation (depth + 1) ++ m.text ++ ";\n"))
      (String.join (members.map fun m => indentation (level + (depth + 1)) ++ m.text ++ ";\n")) true := by
  induction members with
  | nil => exact ⟨rfl, rfl⟩
  | cons member rest ih =>
    obtain ⟨hmember, hrest⟩ := List.forall_mem_cons.mp hmembers
    have hend : Indents level false ";\n" ";\n" true := ⟨rfl, rfl⟩
    have hall := ((Indents.innerLine level depth hmember).append hend).append (ih hrest)
    simpa [String.join_cons] using hall

/-- The definition of a tag, given the lines that stand in its braces. -/
theorem laid_definition (depth : Nat) (keyword : String) {tag low high : String} (hkeyword : Unbroken keyword)
    (hne : keyword ≠ "") (htag : Unbroken tag) (hlines : Indents level true low high true) :
    Laid level (keyword ++ " " ++ tag ++ " \x7b\n" ++ low ++ indentation depth ++ "\x7d")
      (keyword ++ " " ++ tag ++ " \x7b\n" ++ high ++ indentation (level + depth) ++ "\x7d") false := by
  have hopening : Indents level false " \x7b\n" " \x7b\n" true := ⟨rfl, rfl⟩
  have htagged : Unbroken (" " ++ tag) := .append rfl htag
  have hall := ((((Laid.unbroken level hkeyword hne).append (.unbroken level htagged)).append hopening).append
    hlines).append (Laid.closing level depth)
  simpa only [String.append_assoc] using hall

/-- A declared object stands on one line. The extent of its array is taken from the initial value. -/
theorem laid_object (level depth : Nat) {type : TypeExpr} {name : String} {value : Option Expr} {c : C.Declarator}
    {initial : Option C.Expr} (hc : declarator file type name (value.bind arrayCount) = .ok c)
    (hinitial : optionExpr file value = .ok initial) (hname : Unbroken name)
    (htype : ∀ word ∈ type.words, Unbroken word) (hvalue : ∀ word ∈ Expr.optionWords value, Unbroken word) :
    Laid level ((C.Declaration.object c initial).text depth) ((C.Declaration.object c initial).text (level + depth))
      false := by
  have hline (hcount : ∀ word ∈ Expr.optionWords (value.bind arrayCount), Unbroken word) :
      Laid level c.text c.text false :=
    .unbroken level (unbroken_declarator hc htype hname hcount) (by simp [C.Declarator.text])
  cases value with
  | none =>
    cases hinitial
    exact hline (List.forall_mem_nil _)
  | some value =>
    obtain ⟨v, hv, rfl⟩ := Except.map_eq_ok_iff.mp hinitial
    have hequals : Unbroken " = " := rfl
    have hdeclarator := hline fun word hword => hvalue word (value.words_arrayCount hword)
    exact (hdeclarator.append (.unbroken level hequals)).append (.unbroken level (Expr.unbroken_text hv hvalue))

/-- A declaration is laid out alike at all levels. -/
theorem Declaration.laid (level depth : Nat) {d : Declaration} {lowered : C.Declaration}
    (h : declaration file d = .ok lowered) (hwords : ∀ word ∈ d.words, Unbroken word) :
    Laid level (lowered.text depth) (lowered.text (level + depth)) false := by
  obtain ⟨hname, hwords⟩ := List.forall_mem_cons.mp hwords
  unfold declaration at h
  split at h
  · cases h
  · next type value hkind =>
    obtain ⟨c, hc, h⟩ := Except.bind_eq_ok_iff.mp h
    obtain ⟨v, hv, ⟨⟩⟩ := Except.bind_eq_ok_iff.mp h
    rw [hkind] at hwords
    obtain ⟨htype, hvalue⟩ := List.forall_mem_append.mp hwords
    have hinitial : optionExpr file (some value) = .ok (some v) := Except.map_eq_ok_iff.mpr ⟨v, hv, rfl⟩
    exact laid_object level depth hc hinitial hname htype hvalue
  · next type value hkind =>
    obtain ⟨c, hc, h⟩ := Except.bind_eq_ok_iff.mp h
    obtain ⟨v, hv, ⟨⟩⟩ := Except.bind_eq_ok_iff.mp h
    rw [hkind] at hwords
    obtain ⟨htype, hvalue⟩ := List.forall_mem_append.mp hwords
    exact laid_object level depth hc hv hname htype hvalue
  · next members hkind =>
    cases h
    rw [hkind, DeclKind.words] at hwords
    have hall := laid_definition depth "enum" rfl (by decide) hname (indents_enumerators level depth hwords)
    have henum : "enum" ++ " " = "enum " := rfl
    simpa only [C.Declaration.text, henum, ← String.append_assoc, Nat.add_assoc] using hall
  · next kind members hkind =>
    obtain ⟨ds, hds, ⟨⟩⟩ := Except.bind_eq_ok_iff.mp h
    rw [hkind] at hwords
    exact laid_definition depth kind.keyword (by cases kind <;> rfl) (by cases kind <;> decide) hname
      (indents_fields level depth (unbroken_declarators hds hwords))
  · cases h

end Declarations

section Layout

open C.Statement

variable {level : Nat} {s : C.Statement}

/-- A statement is laid out alike at all levels. -/
def Uniform (level : Nat) (s : C.Statement) : Prop :=
  ∀ depth, Laid level (Piece.spell (s.pieces depth)) (Piece.spell (s.pieces (level + depth))) true

/-- A statement that is laid out alike at all levels moves as a line of its own. -/
theorem Uniform.line (h : Uniform level s) (depth : Nat) :
    Indents level true (Piece.spell (.indent depth :: s.pieces depth))
      (Piece.spell (.indent (level + depth) :: s.pieces (level + depth))) true := by
  simpa [Piece.text] using Laid.line depth (h depth)

/-- A block is laid out alike at all levels if what is inside it moves. -/
theorem laid_blockPieces (depth : Nat) {low high : List Piece}
    (h : Indents level true (Piece.spell low) (Piece.spell high) true) :
    Laid level (Piece.spell (blockPieces depth low)) (Piece.spell (blockPieces (level + depth) high)) true := by
  have hopening : Laid level "\x7b" "\x7b" false := .unbroken level rfl (by decide)
  have hends := (Indents.newline level false).append (.newline level true)
  have hlines := h.append ((Laid.closing level depth).append hends)
  have hall := hopening.append ((Indents.newline level false).append hlines)
  simpa [blockPieces, Piece.text, String.append_assoc] using hall

/-- A body behind a header. -/
theorem Uniform.body (h : Uniform level s) (depth : Nat) :
    Indents level false (Piece.spell (bodyPieces depth s.isBlock fun n => s.pieces n))
      (Piece.spell (bodyPieces (level + depth) s.isBlock fun n => s.pieces n)) true := by
  cases s.isBlock with
  | true =>
    have hblank : Indents level false " " " " false := .unbroken level rfl
    simpa [bodyPieces, Piece.text] using hblank.append (h depth).indents
  | false =>
    simpa [bodyPieces, Piece.text, Nat.add_assoc] using (Indents.newline level false).append (h.line (depth + 1))

/-- The first branch of a conditional that has an `else`. -/
theorem Uniform.consequent (h : Uniform level s) (depth : Nat) :
    Indents level false
      (Piece.spell (if s.isBlock then .blank :: s.pieces depth
        else .blank :: blockPieces depth (.indent (depth + 1) :: s.pieces (depth + 1))))
      (Piece.spell (if s.isBlock then .blank :: s.pieces (level + depth)
        else .blank :: blockPieces (level + depth) (.indent (level + depth + 1) :: s.pieces (level + depth + 1))))
      true := by
  have hblank : Indents level false " " " " false := .unbroken level rfl
  cases s.isBlock with
  | true => simpa [Piece.text] using hblank.append (h depth).indents
  | false =>
    have hblock := laid_blockPieces depth (h.line (depth + 1))
    simpa [Piece.text, Nat.add_assoc] using hblank.append hblock.indents

/-- What stands behind an `else`. -/
theorem Uniform.alternative (h : Uniform level s) (depth : Nat) :
    Indents level true
      (Piece.spell ([.indent depth, .otherwise] ++
        if s.isConditional then .blank :: s.pieces depth else bodyPieces depth s.isBlock fun n => s.pieces n))
      (Piece.spell ([.indent (level + depth), .otherwise] ++
        if s.isConditional then .blank :: s.pieces (level + depth)
        else bodyPieces (level + depth) s.isBlock fun n => s.pieces n)) true := by
  have helse : Laid level "else" "else" false := .unbroken level rfl (by decide)
  cases s.isConditional with
  | true =>
    have hblank : Indents level false " " " " false := .unbroken level rfl
    simpa [Piece.text, String.append_assoc] using (helse.line depth).append (hblank.append (h depth).indents)
  | false => simpa [Piece.text, String.append_assoc] using (helse.line depth).append (h.body depth)

end Layout

section Statements

open Lowering

variable {file : SourceFile}

/-- What stays on a line can be ended there. -/
theorem Unbroken.laid (level : Nat) {text : String} (h : Unbroken text) :
    Indents level false text text false ∧ Solid (text ++ ";") :=
  ⟨.unbroken level h, h.append_solid ⟨';', [], rfl, by decide⟩⟩

/-- A statement is laid out alike at all levels. What it declares has its words from the file. -/
theorem Stmt.laid (hfile : ∀ word ∈ file.words, Unbroken word) (stmt : Stmt) (level depth : Nat) {s : C.Simple}
    (h : simple file stmt = .ok s) (hwords : ∀ word ∈ stmt.words, Unbroken word) :
    Indents level false (s.text depth) (s.text (level + depth)) false ∧ Solid (s.text depth ++ ";") := by
  cases stmt with
  | declaration id span =>
    obtain ⟨d, lowered, hdecl, -, hlowered, rfl⟩ := simple_declaration_eq_ok h
    have hlaid := Declaration.laid level depth hlowered
      fun word hword => hfile word (SourceFile.words_of_decl? hdecl hword)
    exact ⟨hlaid.indents, hlaid.solid.append ";"⟩
  | increment target _ =>
    obtain ⟨t, ht, rfl⟩ := Except.map_eq_ok_iff.mp h
    exact Unbroken.laid level (.append rfl (Expr.unbroken_text ht hwords))
  | decrement target _ =>
    obtain ⟨t, ht, rfl⟩ := Except.map_eq_ok_iff.mp h
    exact Unbroken.laid level (.append rfl (Expr.unbroken_text ht hwords))
  | assign op target value _ =>
    rw [simple] at h
    cases hglyph : assignGlyph? op with
    | none => simp [hglyph] at h
    | some glyph =>
      rw [hglyph] at h
      obtain ⟨t, ht, h⟩ := Except.bind_eq_ok_iff.mp h
      obtain ⟨v, hv, ⟨⟩⟩ := Except.bind_eq_ok_iff.mp h
      obtain ⟨htarget, hvalue⟩ := List.forall_mem_append.mp hwords
      have hmark : Unbroken glyph := by cases op <;> cases hglyph <;> rfl
      have hleft : Unbroken (t.text ++ " " ++ glyph ++ " ") :=
        .append (.append (.append (Expr.unbroken_text ht htarget) rfl) hmark) rfl
      exact Unbroken.laid level (hleft.append (Expr.unbroken_text hv hvalue))
  | expr value =>
    obtain ⟨v, hv, rfl⟩ := Except.map_eq_ok_iff.mp h
    exact Unbroken.laid level (Expr.unbroken_text hv hwords)
  | label name =>
    cases h
    exact Unbroken.laid level (.append (hwords _ (List.mem_singleton.mpr rfl)) rfl)
  | goto name =>
    cases h
    exact Unbroken.laid level (.append rfl (hwords _ (List.mem_singleton.mpr rfl)))
  | returning value _ =>
    obtain ⟨v, hv, rfl⟩ := Except.map_eq_ok_iff.mp h
    cases value with
    | none =>
      cases hv
      have hreturn : Unbroken "return" := rfl
      exact hreturn.laid level
    | some value =>
      obtain ⟨v, hvalue, rfl⟩ := Except.map_eq_ok_iff.mp hv
      exact Unbroken.laid level (.append rfl (Expr.unbroken_text hvalue hwords))

/-- A header with an expression in parentheses. -/
theorem laid_header (level : Nat) (keyword : String) {c : C.Expr} (hkeyword : Unbroken keyword) (hc : Unbroken c.text) :
    Laid level (keyword ++ c.text ++ ")") (keyword ++ c.text ++ ")") false :=
  .unbroken level ((hkeyword.append hc).append rfl) (by simp)

mutual

/-- A scope is laid out alike at all levels. -/
theorem Scope.uniform (hfile : ∀ word ∈ file.words, Unbroken word) (level : Nat) : ∀ (scope : Scope) {s : C.Statement},
    Lowering.statement file scope = .ok s → (∀ word ∈ scope.words, Unbroken word) → Uniform level s
  | .statement stmt, _, h, hwords => fun depth => by
    -- The text of a statement may be empty; the terminator makes the line one that is not.
    obtain ⟨hstmt⟩ := lowered_of_statement h
    obtain ⟨hindents, hsolid⟩ := stmt.laid hfile level depth hstmt hwords
    have hmark : Unbroken ";" := rfl
    have hline : Laid level _ _ false := ⟨hsolid, hindents.append (.unbroken level hmark)⟩
    simpa [C.Statement.pieces, Piece.text] using hline.append (.newline level false)
  | .block scopes _, _, h, hwords => fun depth => by
    cases lowered_of_statement h with
    | block hscopes => exact laid_blockPieces depth (Scope.indents_lines hfile level scopes hscopes hwords (depth + 1))
  | .conditional condition consequent none _, _, h, hwords => fun depth => by
    cases lowered_of_statement h with
    | conditional hcondition hconsequent =>
      obtain ⟨hfirst, hsecond⟩ := List.forall_mem_append.mp hwords
      have hheader := laid_header level "if (" rfl (Expr.unbroken_text hcondition hfirst)
      have hbody := (consequent.uniform hfile level hconsequent hsecond).body depth
      simpa [C.Statement.pieces, Piece.text] using hheader.append hbody
  | .conditional condition consequent (some alternative) _, _, h, hwords => fun depth => by
    cases lowered_of_statement h with
    | alternative hcondition hconsequent halternative =>
      obtain ⟨hwords, hthird⟩ := List.forall_mem_append.mp hwords
      obtain ⟨hfirst, hsecond⟩ := List.forall_mem_append.mp hwords
      have hheader := laid_header level "if (" rfl (Expr.unbroken_text hcondition hfirst)
      have hbranch := (consequent.uniform hfile level hconsequent hsecond).consequent depth
      have helse := (alternative.uniform hfile level halternative hthird).alternative depth
      simpa [C.Statement.pieces, Piece.text] using hheader.append (hbranch.append helse)
  | .forLoop init condition step body _, _, h, hwords => fun depth => by
    simp only [Scope.words, List.forall_mem_append] at hwords
    obtain ⟨⟨⟨hinit, hcondition⟩, hstep⟩, hbody⟩ := hwords
    cases lowered_of_statement h with
    | forLoop hi hc ht hb =>
      have hopening : Laid level "for (" "for (" false := .unbroken level rfl (by decide)
      have hmark : Unbroken "; " := rfl
      have hmiddle := (hmark.append (Expr.unbroken_text hc hcondition)).append hmark
      have hclosing : Unbroken ")" := rfl
      have hfirst := hopening.append (init.laid hfile level depth hi hinit).1
      have hsecond := (hfirst.append (.unbroken level hmiddle)).append (step.laid hfile level depth ht hstep).1
      have hheader := hsecond.append (.unbroken level hclosing)
      have hlast := (body.uniform hfile level hb hbody).body depth
      simpa [C.Statement.pieces, Piece.text, String.append_assoc] using hheader.append hlast
  | .whileLoop condition body _, _, h, hwords => fun depth => by
    cases lowered_of_statement h with
    | whileLoop hcondition hbody =>
      obtain ⟨hfirst, hsecond⟩ := List.forall_mem_append.mp hwords
      have hheader := laid_header level "while (" rfl (Expr.unbroken_text hcondition hfirst)
      have hlast := (body.uniform hfile level hbody hsecond).body depth
      simpa [C.Statement.pieces, Piece.text] using hheader.append hlast
  | .forEach .., _, h, _ => by cases h
  | .matching .., _, h, _ => by cases h

/-- Scopes that each start a line are moved line by line. -/
theorem Scope.indents_lines (hfile : ∀ word ∈ file.words, Unbroken word) (level : Nat) : ∀ (scopes : List Scope)
    {ss : List C.Statement}, statements file scopes = .ok ss → (∀ word ∈ Scope.listWords scopes, Unbroken word) →
      ∀ depth, Indents level true (Piece.spell (C.Statement.linePieces ss depth))
        (Piece.spell (C.Statement.linePieces ss (level + depth))) true
  | [], _, h, _ => fun depth => by
    cases h
    exact ⟨rfl, rfl⟩
  | scope :: rest, _, h, hwords => fun depth => by
    obtain ⟨s, hs, h⟩ := Except.bind_eq_ok_iff.mp h
    obtain ⟨ss, hss, ⟨⟩⟩ := Except.bind_eq_ok_iff.mp h
    obtain ⟨hfirst, hrest⟩ := List.forall_mem_append.mp hwords
    have hline := (scope.uniform hfile level hs hfirst).line depth
    have hlines := Scope.indents_lines hfile level rest hss hrest depth
    simpa [C.Statement.linePieces, String.append_assoc] using hline.append hlines

end

end Statements

/-- What is printed for a scope at a level, from the start of a line. -/
def Scope.printed (file : SourceFile) (scope : Scope) (level : Nat) : Except Error String :=
  (Lowering.statement file scope).map (C.Statement.text level)

/-- What is printed for a declaration at a level, from the start of a line and without the terminator. -/
def Declaration.printed (file : SourceFile) (d : Declaration) (level : Nat) : Except Error String :=
  (Lowering.declaration file d).map fun lowered => indentation level ++ lowered.text level

/-- What is laid out alike is moved by putting white space in front of its lines. -/
theorem Laid.indentLines_eq {level : Nat} {low high : String} {after : Bool} (h : Laid level low high after) :
    indentLines level (indentation 0 ++ low) = indentation level ++ high := by
  rw [DeclTree.indentLines_eq, (h.line 0).shifts, Nat.add_zero, String.ofList_toList]

/-- Indentation is threaded uniformly. If the names of a file and of a scope have no end of a line in them, then at
every level the scope is printed exactly if it is printed at level zero, and otherwise the error is the same. The text
is that of level zero with four blanks for each level in front of every line that is not empty. It is the same for the
declarations of the file. -/
theorem indentation_is_uniform {file : SourceFile} {scope : Scope}
    (hfile : ∀ word ∈ file.words, '\n' ∉ word.toList) (hscope : ∀ word ∈ scope.words, '\n' ∉ word.toList)
    (level : Nat) : scope.printed file level = (scope.printed file 0).map (indentLines level) ∧
      ∀ d ∈ file.declarations, d.printed file level = (d.printed file 0).map (indentLines level) := by
  have hwords : ∀ word ∈ file.words, Unbroken word := fun word hword => unbroken_iff.mpr (hfile word hword)
  constructor
  · rw [Scope.printed, Scope.printed]
    cases hlowered : Lowering.statement file scope with
    | error e => rfl
    | ok s =>
      have hlaid := scope.uniform hwords level hlowered (fun word hword => unbroken_iff.mpr (hscope word hword)) 0
      have htext (n : Nat) : s.text n = indentation n ++ Piece.spell (s.pieces n) := Piece.spell_cons ..
      exact congrArg Except.ok (by rw [htext, htext, hlaid.indentLines_eq, Nat.add_zero])
  · intro d hd
    rw [Declaration.printed, Declaration.printed]
    cases hlowered : Lowering.declaration file d with
    | error e => rfl
    | ok lowered =>
      have hlaid := Declaration.laid level 0 hlowered
        fun word hword => hwords word (List.mem_flatMap.mpr ⟨d, hd, hword⟩)
      exact congrArg Except.ok hlaid.indentLines_eq.symm

/-- A block that declares an enumeration and has a body on a line of its own. -/
def layered : Scope :=
  let here := Span.nowhere
  .block [.statement (.declaration 0 here),
    .conditional (.ident ⟨"x", here⟩) (.statement (.expr (.ident ⟨"y", here⟩))) none here] here

/-- The lines of the block move by one level, and the empty line behind it stays empty. -/
theorem layered_is_indented :
    layered.printed ⟨[⟨⟨"E", .nowhere⟩, .enumeration [⟨"a", .nowhere⟩, ⟨"b", .nowhere⟩], .nowhere, .untouched⟩], []⟩ 1 =
      .ok ("    \x7b\n        enum E \x7b\n            a,\n            b\n        \x7d;\n        if (x)\n" ++
        "            y;\n    \x7d\n\n") :=
  (indentation_is_uniform (by decide) (by decide) 1).1.trans (by rfl)

end DeclTree

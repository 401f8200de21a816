import DeclTree.Proofs.Quoting
import Mathlib.Data.List.Infix

/-!
# Cutting a text into atoms

C's lexer takes the longest atom that the rest of a text starts with: a word, a number, a quoted constant or one of the
punctuators. What follows an atom therefore decides where it ends. A number takes letters, digits and points, and the
sign behind an exponent, so that some of what it takes is no constant.

A row of atoms, with blanks between some of them, is `Kept` if each of its atoms is the one that the lexer finds where
it starts, with everything that follows it in place. The lexer gives the row back exactly if it is kept, and a row is
kept in parts.
-/

namespace DeclTree.C

/-- What a lexer cuts a text into. -/
inductive Atom where
  | word (text : String)
  | number (text : String)
  | quoted (text : String)
  | mark (glyph : String)
deriving DecidableEq

/-- What an atom spells. -/
def Atom.text : Atom → String
  | word s | number s | quoted s | mark s => s

/-- The punctuators of C, longer ones first. -/
def punctuators : List String :=
  ["%:%:", "...", "<<=", ">>=",
    "->", "++", "--", "<<", ">>", "<=", ">=", "==", "!=", "&&", "||", "*=", "/=", "%=", "+=", "-=", "&=", "^=", "|=",
    "##", "<:", ":>", "<%", "%>", "%:",
    "[", "]", "(", ")", "\x7b", "\x7d", ".", "&", "*", "+", "-", "~", "!", "/", "%", "<", ">", "^", "|", "?", ":", ";",
    "=", ",", "#"]

/-- The words that belong to a quoted constant right behind them. -/
def encodings : List String := ["L", "u", "U", "u8"]

/-- Whether a character is white space. -/
def isWhite (c : Char) : Bool := [' ', '\t', '\n', '\x0b', '\x0c', '\r'].contains c

/-- Whether an atom that starts with a character, and goes on with the next one, is a number. -/
def startsNumber (c : Char) (next : Option Char) : Bool := c.isDigit || (c == '.' && next.any Char.isDigit)

/-- Whether a comment starts with a character and the next one. -/
def startsComment (c : Char) (next : Option Char) : Bool := c == '/' && next.any fun d => d == '/' || d == '*'

/-- Whether a character can stand in a number. -/
def isNumberPart (c : Char) : Bool := isNameChar c || c == '.'

/-- Whether a sign behind the character belongs to a number. -/
def isExponentMark (c : Char) : Bool := ['e', 'E', 'p', 'P'].contains c

/-- The characters that a number takes, given whether it stands behind the mark of an exponent. -/
def numberChars : Bool → List Char → List Char
  | _, [] => []
  | behindMark, c :: rest =>
    if isNumberPart c || (behindMark && (c == '+' || c == '-')) then c :: numberChars (isExponentMark c) rest else []

/-- The quoted constant that a text starts with. -/
def quotedAt? : List Char → Option String
  | [] => none
  | c :: rest =>
    if isQuote c then
      (readQuoted? c rest).map fun (_, more) => .ofList (c :: rest.take (rest.length - more.length))
    else none

/-- The word that a text starts with, or the quoted constant that it belongs to. -/
def wordAtom (input : List Char) : Atom :=
  let word := String.ofList (input.takeWhile isNameChar)
  match quotedAt? (input.dropWhile isNameChar) with
  | some constant => if encodings.contains word then .quoted (word ++ constant) else .word word
  | none => .word word

/-- The punctuator that a text starts with, the longest one. -/
def markAt? (input : List Char) : Option String := punctuators.find? fun glyph => glyph.toList.isPrefixOf input

/-- The longest atom that a text starts with. A comment is none. -/
def firstAtom? : List Char → Option Atom
  | [] => none
  | c :: rest =>
    if isNameStart c then some (wordAtom (c :: rest))
    else if startsNumber c rest.head? then some (.number (.ofList (numberChars false (c :: rest))))
    else if isQuote c then (quotedAt? (c :: rest)).map .quoted
    else if startsComment c rest.head? then none
    else (markAt? (c :: rest)).map .mark

/-- Cut a text into atoms after some characters that belong to the atom before. -/
def lexBehind : Nat → List Char → Option (List Atom)
  | _, [] => some []
  | skipped + 1, _ :: rest => lexBehind skipped rest
  | 0, c :: rest =>
    if isWhite c then lexBehind 0 rest
    else (firstAtom? (c :: rest)).bind fun atom => (lexBehind (atom.text.length - 1) rest).map (atom :: ·)

/-- The atoms of a text. -/
def lex (text : String) : Option (List Atom) := lexBehind 0 text.toList

section Atoms

variable {rest : List Char}

/-- How a text starts is decided by its first character. -/
theorem startsWith_cons (kind : Char → Bool) (c : Char) (rest : List Char) : startsWith kind (c :: rest) = kind c := rfl

/-- Nothing is taken from a text that starts with another kind of character. -/
theorem takeWhile_eq_nil_of_not_startsWith {kind : Char → Bool} (h : startsWith kind rest = false) :
    rest.takeWhile kind = [] := by
  cases rest with
  | nil => rfl
  | cons c rest => simp [show kind c = false from h]

/-- Nothing is dropped from a text that starts with another kind of character. -/
theorem dropWhile_eq_self_of_not_startsWith {kind : Char → Bool} (h : startsWith kind rest = false) :
    rest.dropWhile kind = rest := by
  cases rest with
  | nil => rfl
  | cons c rest => simp [show kind c = false from h]

/-- A text that does not start with a quote starts with no quoted constant. -/
theorem quotedAt?_eq_none (h : startsWith isQuote rest = false) : quotedAt? rest = none := by
  cases rest with
  | nil => rfl
  | cons c rest => rw [quotedAt?, if_neg (by simpa [startsWith] using h)]

/-- An identifier starts with a character that can start one. -/
theorem exists_nameStart {name : String} (h : isIdentifier name) :
    ∃ first others, name.toList = first :: others ∧ isNameStart first = true := by
  unfold isIdentifier at h
  split at h
  · cases h
  · next first others hname => exact ⟨first, others, hname, (Bool.and_eq_true_iff.mp h).1⟩

/-- A name ends before what can stand in no name, and before what is no quote it is a word. -/
theorem firstAtom?_word {name : String} (hname : isIdentifier name) (hend : startsWith isNameChar rest = false)
    (hquote : startsWith isQuote rest = false) : firstAtom? (name.toList ++ rest) = some (.word name) := by
  have hchars : ∀ c ∈ name.toList, isNameChar c = true := isNameChar_of_isIdentifier hname
  have htake : (name.toList ++ rest).takeWhile isNameChar = name.toList := by
    rw [List.takeWhile_append_of_pos hchars, takeWhile_eq_nil_of_not_startsWith hend, List.append_nil]
  have hdrop : (name.toList ++ rest).dropWhile isNameChar = rest := by
    rw [List.dropWhile_append_of_pos hchars, dropWhile_eq_self_of_not_startsWith hend]
  have hword : wordAtom (name.toList ++ rest) = .word name := by
    simp only [wordAtom, htake, hdrop, quotedAt?_eq_none hquote, String.ofList_toList]
  obtain ⟨first, others, heq, hstart⟩ := exists_nameStart hname
  rw [heq, List.cons_append] at hword ⊢
  rw [firstAtom?, if_pos hstart, hword]

/-- Characters that a number takes as a whole, and that do not end with the mark of an exponent. -/
def Taken (chars : List Char) : Prop := ∀ rest, numberChars false (chars ++ rest) = chars ++ numberChars false rest

/-- Characters that numbers take are taken one row after the other. -/
theorem Taken.append {first second : List Char} (hfirst : Taken first) (hsecond : Taken second) :
    Taken (first ++ second) := fun rest => by
  rw [List.append_assoc, hfirst, hsecond, List.append_assoc]

/-- Characters of numbers are taken as a whole if none of them is the mark of an exponent. -/
theorem taken_of_parts {chars : List Char} (h : chars.all (fun c => isNumberPart c && !isExponentMark c) = true) :
    Taken chars := fun rest => by
  induction chars with
  | nil => rfl
  | cons c others ih =>
    rw [List.all_cons, Bool.and_eq_true, Bool.and_eq_true, Bool.not_eq_true'] at h
    obtain ⟨⟨hpart, hmark⟩, hothers⟩ := h
    rw [List.cons_append, numberChars, hpart, Bool.true_or, if_pos rfl, hmark, ih hothers, List.cons_append]

/-- A text that is a number, whatever follows it that no number takes. -/
structure IsNumber (text : String) : Prop where
  first : startsWith Char.isDigit text.toList = true
  taken : Taken text.toList

/-- A number starts with a digit. -/
theorem IsNumber.exists_digit {text : String} (h : IsNumber text) :
    ∃ first others, text.toList = first :: others ∧ first.isDigit = true := by
  have hfirst := h.first
  cases htext : text.toList with
  | nil => simp [htext, startsWith] at hfirst
  | cons c others => exact ⟨c, others, rfl, by rwa [htext] at hfirst⟩

/-- No word starts with a digit. -/
theorem isNameStart_of_isDigit {c : Char} (h : c.isDigit = true) : isNameStart c = false := by
  have hbounds : 48 ≤ c.toNat ∧ c.toNat ≤ 57 := Char.isDigit_iff_toNat.mp h
  have hcodes : ∀ n < 10, isNameStart (.ofNat (48 + n)) = false := by decide
  have hc := hcodes (c.toNat - 48) (by omega)
  rwa [Nat.add_sub_cancel' hbounds.1, Char.ofNat_toNat] at hc

/-- A text that starts with a number starts with one that takes all that it can. -/
theorem firstAtom?_number {text : String} (h : IsNumber text) (rest : List Char) :
    firstAtom? (text.toList ++ rest) = some (.number (.ofList (text.toList ++ numberChars false rest))) := by
  obtain ⟨c, others, htext, hdigit⟩ := h.exists_digit
  rw [← h.taken rest, htext, List.cons_append, firstAtom?, if_neg (by simp [isNameStart_of_isDigit hdigit]),
    if_pos (by simp [startsNumber, hdigit])]

/-- A number ends exactly before what it cannot take. -/
theorem firstAtom?_number_eq_iff {text : String} (h : IsNumber text) :
    firstAtom? (text.toList ++ rest) = some (.number text) ↔ startsWith isNumberPart rest = false := by
  rw [firstAtom?_number h]
  cases rest with
  | nil => simp [numberChars, startsWith]
  | cons c rest =>
    rw [startsWith_cons, numberChars]
    cases isNumberPart c with
    | false => simp
    | true => simp

/-- What is read up to the closing quote is the quoted constant that the text starts with. -/
theorem quotedAt?_of_readQuoted? {quote : Char} (hquote : isQuote quote) {body chars : List Char}
    (h : readQuoted? quote (body ++ rest) = some (chars, rest)) :
    quotedAt? (quote :: (body ++ rest)) = some (.ofList (quote :: body)) := by
  rw [quotedAt?, if_pos hquote, h]
  simp

end Atoms

/-- Whether a mark and the character behind it start a longer mark, a number or a comment. -/
def goesOn (glyph : String) (c : Char) : Bool :=
  punctuators.any (fun longer => (glyph.toList ++ [c]).isPrefixOf longer.toList)
    || (glyph == "." && c.isDigit) || (glyph == "/" && (c == '/' || c == '*'))

/-- The characters that stand behind the first one of a mark. -/
def isMarkTail (c : Char) : Bool := [':', '%', '.', '<', '>', '=', '-', '+', '&', '|', '#'].contains c

/-- Behind the first character of a punctuator only few characters stand. -/
theorem isMarkTail_of_mem : ∀ glyph ∈ punctuators, glyph.toList.tail.all isMarkTail = true := by decide

/-- Longer punctuators stand before shorter ones. -/
theorem punctuators_sorted : punctuators.Pairwise fun glyph later => later.toList.length ≤ glyph.toList.length := by
  decide

/-- No word, number or quoted constant starts as a mark does. -/
theorem markStart_of_mem : ∀ glyph ∈ punctuators,
    startsWith (fun c => !isNameStart c && !c.isDigit && !isQuote c) glyph.toList = true := by decide

/-- No number and no comment starts with two characters of a mark. -/
theorem no_start_of_mem : ∀ glyph ∈ punctuators, glyph.toList.head?.all (fun c =>
    glyph.toList.tail.head?.all fun next => !startsNumber c (some next) && !startsComment c (some next)) = true := by
  decide

/-- A mark that a longer punctuator starts with goes on with the next character of that punctuator. -/
theorem goesOn_of_prefix {glyph longer : String} {c : Char} (hlonger : longer ∈ punctuators)
    (h : glyph.toList ++ [c] <+: longer.toList) : goesOn glyph c = true := by
  have hany : punctuators.any (fun longer => (glyph.toList ++ [c]).isPrefixOf longer.toList) = true :=
    List.any_eq_true.mpr ⟨longer, hlonger, List.isPrefixOf_iff_prefix.mpr h⟩
  rw [goesOn, hany, Bool.true_or, Bool.true_or]

section Marks

variable {glyph : String} (hglyph : glyph ∈ punctuators) {rest : List Char}

include hglyph in
/-- The longest mark is found: it stands before the shorter ones. -/
theorem markAt?_eq_some (hrest : startsWith (goesOn glyph) rest = false) :
    markAt? (glyph.toList ++ rest) = some glyph := by
  have hself : glyph.toList.isPrefixOf (glyph.toList ++ rest) = true :=
    List.isPrefixOf_iff_prefix.mpr (List.prefix_append _ _)
  have hsome : (markAt? (glyph.toList ++ rest)).isSome = true := List.find?_isSome.mpr ⟨glyph, hglyph, hself⟩
  obtain ⟨found, hfound⟩ := Option.isSome_iff_exists.mp hsome
  obtain ⟨hfits, before, after, hlist, hbefore⟩ := List.find?_eq_some_iff_append.mp hfound
  have hlength : glyph.toList.length ≤ found.toList.length := by
    have hsorted := punctuators_sorted
    rw [hlist, List.pairwise_append, List.pairwise_cons] at hsorted
    rw [hlist, List.mem_append, List.mem_cons] at hglyph
    rcases hglyph with hmem | rfl | hmem
    · have hother := hbefore glyph hmem
      rw [hself] at hother
      cases hother
    · exact Nat.le_refl _
    · exact hsorted.2.1.1 glyph hmem
  have hfits : found.toList <+: glyph.toList ++ rest := List.isPrefixOf_iff_prefix.mp hfits
  obtain ⟨more, hmore⟩ := List.prefix_of_prefix_length_le (List.prefix_append glyph.toList rest) hfits hlength
  cases more with
  | nil =>
    obtain rfl : glyph = found := String.toList_inj.mp (by simpa using hmore)
    exact hfound
  | cons c more =>
    -- The mark that is found would be a longer one.
    rw [← hmore, List.prefix_append_right_inj] at hfits
    obtain ⟨others, rfl⟩ := hfits
    have hfoundMem : found ∈ punctuators := hlist ▸ List.mem_append_right _ List.mem_cons_self
    have hgoes : goesOn glyph c = true := goesOn_of_prefix hfoundMem ⟨more, by simpa using hmore⟩
    rw [List.cons_append, startsWith_cons, hgoes] at hrest
    cases hrest

/-- With a mark of one character and what it does not go on with, no number and no comment starts. -/
theorem no_start_of_single {c : Char} (hchars : glyph.toList = [c]) (hdigit : c.isDigit = false)
    (hrest : startsWith (goesOn glyph) rest = false) :
    startsNumber c rest.head? = false ∧ startsComment c rest.head? = false := by
  cases rest with
  | nil => simp [startsNumber, startsComment, hdigit]
  | cons d rest =>
    have hglyph (mark : Char) (h : c = mark) : glyph = .ofList [mark] := by
      rw [← h, ← hchars, String.ofList_toList]
    rw [startsWith_cons, goesOn, Bool.or_eq_false_iff, Bool.or_eq_false_iff] at hrest
    obtain ⟨⟨-, hnumber⟩, hcomment⟩ := hrest
    constructor
    · rw [startsNumber, hdigit, Bool.false_or]
      by_cases hc : c = '.'
      · rw [hglyph '.' hc] at hnumber
        simpa [hc] using hnumber
      · simp [hc]
    · rw [startsComment]
      by_cases hc : c = '/'
      · rw [hglyph '/' hc] at hcomment
        simpa [hc] using hcomment
      · simp [hc]

include hglyph in
/-- A mark ends before a character with which it does not go on. -/
theorem firstAtom?_mark (hrest : startsWith (goesOn glyph) rest = false) :
    firstAtom? (glyph.toList ++ rest) = some (.mark glyph) := by
  have hmark := markAt?_eq_some hglyph hrest
  have hstart := markStart_of_mem glyph hglyph
  have hnone := no_start_of_mem glyph hglyph
  cases hchars : glyph.toList with
  | nil => simp [hchars, startsWith] at hstart
  | cons c more =>
    rw [hchars] at hmark hstart hnone
    rw [startsWith_cons, Bool.and_eq_true, Bool.and_eq_true, Bool.not_eq_true', Bool.not_eq_true',
      Bool.not_eq_true'] at hstart
    obtain ⟨⟨hname, hdigit⟩, hquote⟩ := hstart
    have hshort : startsNumber c (more ++ rest).head? = false ∧ startsComment c (more ++ rest).head? = false := by
      cases more with
      | cons next more => simpa using hnone
      | nil =>
        rw [List.nil_append]
        exact no_start_of_single hchars hdigit hrest
    rw [List.cons_append] at hmark ⊢
    simp only [firstAtom?, hname, hshort.1, hquote, hshort.2, hmark, Bool.false_eq_true, if_false, Option.map_some]

end Marks

/-- A mark does not go on with a character that stands behind the first one of no mark, numbers and comments apart. -/
theorem goesOn_eq_false {glyph : String} (hglyph : glyph ∈ punctuators) {c : Char} (htail : isMarkTail c = false)
    (hnumber : glyph = "." → c.isDigit = false) (hcomment : glyph = "/" → c ≠ '/' ∧ c ≠ '*') :
    goesOn glyph c = false := by
  have hlonger : punctuators.any (fun longer => (glyph.toList ++ [c]).isPrefixOf longer.toList) = false := by
    rw [List.any_eq_false]
    intro longer hmem hprefix
    obtain ⟨more, hmore⟩ := List.isPrefixOf_iff_prefix.mp hprefix
    have hstart := markStart_of_mem glyph hglyph
    -- The mark has a first character, so the other one is in the tail of the longer mark.
    have hc : c ∈ longer.toList.tail := by
      rw [← hmore]
      cases hchars : glyph.toList with
      | nil => simp [hchars, startsWith] at hstart
      | cons first others => simp
    rw [List.all_eq_true.mp (isMarkTail_of_mem longer hmem) c hc] at htail
    cases htail
  rw [goesOn, hlonger, Bool.false_or, Bool.or_eq_false_iff, Bool.and_eq_false_imp, Bool.and_eq_false_imp]
  exact ⟨fun h => hnumber (by simpa using h), fun h => by simpa using hcomment (by simpa using h)⟩

/-- A mark ends before a blank and before a closing parenthesis. -/
theorem firstAtom?_mark_before {glyph : String} (hglyph : glyph ∈ punctuators) {c : Char} (hc : c = ' ' ∨ c = ')')
    (rest : List Char) : firstAtom? (glyph.toList ++ c :: rest) = some (.mark glyph) := by
  refine firstAtom?_mark hglyph (goesOn_eq_false hglyph ?_ (fun _ => ?_) fun _ => ?_)
  all_goals rcases hc with rfl | rfl <;> decide

/-- No character of a name stands behind the first one of a mark. -/
theorem isMarkTail_of_isNameChar {c : Char} (h : isNameChar c = true) : isMarkTail c = false := by
  have htails : [':', '%', '.', '<', '>', '=', '-', '+', '&', '|', '#'].any isNameChar = false := by decide
  rw [Bool.eq_false_iff]
  intro htail
  exact List.any_eq_false.mp htails c (List.contains_iff_mem.mp htail) h

/-- The marks with which no longer one starts. -/
def loneMarks : List String := ["(", ")", "[", "]", "\x7b", "\x7d", ",", "~"]

/-- A lone mark is a punctuator, and no longer one starts with it. -/
theorem loneMarks_longest : ∀ glyph ∈ loneMarks, glyph ∈ punctuators ∧
    ∀ longer ∈ punctuators, glyph.toList <+: longer.toList → longer.toList.length = glyph.toList.length := by decide

/-- A mark with which no longer one starts is found, whatever follows it. -/
theorem firstAtom?_loneMark {glyph : String} (hglyph : glyph ∈ loneMarks) (rest : List Char) :
    firstAtom? (glyph.toList ++ rest) = some (.mark glyph) := by
  obtain ⟨hmem, hlongest⟩ := loneMarks_longest glyph hglyph
  refine firstAtom?_mark hmem ?_
  cases rest with
  | nil => rfl
  | cons c rest =>
    have hpoint : glyph ≠ "." ∧ glyph ≠ "/" := by
      constructor <;> rintro rfl <;> exact absurd hglyph (by decide)
    have hlonger : punctuators.any (fun longer => (glyph.toList ++ [c]).isPrefixOf longer.toList) = false := by
      rw [List.any_eq_false]
      intro longer hlonger hprefix
      have hprefix := List.isPrefixOf_iff_prefix.mp hprefix
      have hlength := hlongest longer hlonger ((List.prefix_append _ _).trans hprefix)
      have hle := hprefix.length_le
      rw [List.length_append, List.length_singleton] at hle
      omega
    rw [startsWith_cons, goesOn, hlonger]
    simp [hpoint]

/-- What is printed: atoms, and blanks between some of them. -/
abbrev Row := List (Option Atom)

namespace Row

/-- The characters of a row. -/
def chars : Row → List Char
  | [] => []
  | none :: row => ' ' :: chars row
  | some atom :: row => atom.text.toList ++ chars row

/-- The atoms of a row. -/
def atoms (row : Row) : List Atom := row.filterMap id

/-- Each atom of the row is the one that the lexer finds where it starts, if some characters follow the row. -/
def Kept : Row → List Char → Prop
  | [], _ => True
  | none :: row, rest => Kept row rest
  | some atom :: row, rest => firstAtom? (atom.text.toList ++ (chars row ++ rest)) = some atom ∧ Kept row rest

/-- An empty row has no characters. -/
@[simp] theorem chars_nil : chars [] = [] := rfl

/-- A blank is one space. -/
@[simp] theorem chars_blank (row : Row) : chars (none :: row) = ' ' :: chars row := rfl

/-- An atom of a row stands in front of the rest as it is spelled. -/
@[simp] theorem chars_atom (atom : Atom) (row : Row) : chars (some atom :: row) = atom.text.toList ++ chars row := rfl

/-- Rows are spelled one after the other. -/
@[simp] theorem chars_append (first second : Row) : chars (first ++ second) = chars first ++ chars second := by
  induction first with
  | nil => rfl
  | cons entry row ih => cases entry <;> simp [ih]

/-- In an empty row nothing can be cut differently. -/
@[simp] theorem kept_nil (rest : List Char) : Kept [] rest := trivial

/-- A blank is not cut. -/
@[simp] theorem kept_blank (row : Row) (rest : List Char) : Kept (none :: row) rest ↔ Kept row rest := .rfl

/-- A row is kept if its first atom is the one that the lexer finds there, and the rest is kept. -/
@[simp] theorem kept_atom (atom : Atom) (row : Row) (rest : List Char) : Kept (some atom :: row) rest ↔
    firstAtom? (atom.text.toList ++ (chars row ++ rest)) = some atom ∧ Kept row rest := .rfl

/-- A row is kept in parts, the first with the second in place. -/
@[simp] theorem kept_append (first second : Row) (rest : List Char) :
    Kept (first ++ second) rest ↔ Kept first (chars second ++ rest) ∧ Kept second rest := by
  induction first with
  | nil => simp
  | cons entry row ih => cases entry <;> simp [ih, and_assoc]

end Row

/-- Characters that belong to the atom before are passed over. -/
theorem lexBehind_append (chars rest : List Char) : lexBehind chars.length (chars ++ rest) = lexBehind 0 rest := by
  induction chars with
  | nil => rfl
  | cons c chars ih => exact ih

/-- The atom that a text starts with comes first, and then those of what follows it. -/
theorem lexBehind_eq {c : Char} {more rest : List Char} {atom : Atom} (hwhite : isWhite c = false)
    (htext : atom.text.toList = c :: more) (h : firstAtom? (c :: more ++ rest) = some atom) :
    lexBehind 0 (c :: more ++ rest) = (lexBehind 0 rest).map (atom :: ·) := by
  have hlength : atom.text.length - 1 = more.length := by
    rw [← String.length_toList, htext, List.length_cons, Nat.add_sub_cancel]
  rw [List.cons_append] at h ⊢
  rw [lexBehind, if_neg (by simp [hwhite]), h, Option.bind_some, hlength, lexBehind_append]

/-- An atom has characters, and it does not start with white space. -/
def Atom.IsSolid (atom : Atom) : Prop := startsWith (!isWhite ·) atom.text.toList = true

instance (atom : Atom) : Decidable atom.IsSolid := inferInstanceAs (Decidable (_ = true))

/-- A row of solid atoms. -/
def Row.IsSolid (row : Row) : Prop := ∀ atom, some atom ∈ row → atom.IsSolid

/-- An empty row is solid. -/
@[simp] theorem Row.isSolid_nil : IsSolid [] := nofun

/-- A blank does not matter to whether the atoms are solid. -/
@[simp] theorem Row.isSolid_blank (row : Row) : IsSolid (none :: row) ↔ IsSolid row := by simp [IsSolid]

/-- A row is solid if its first atom and the rest are. -/
@[simp] theorem Row.isSolid_atom (atom : Atom) (row : Row) :
    IsSolid (some atom :: row) ↔ atom.IsSolid ∧ IsSolid row := by simp [IsSolid]

/-- Two rows are solid together if each is. -/
@[simp] theorem Row.isSolid_append (first second : Row) :
    IsSolid (first ++ second) ↔ IsSolid first ∧ IsSolid second := by simp [IsSolid, or_imp, forall_and]

/-- Every punctuator is solid. -/
theorem isSolid_mark : ∀ glyph ∈ punctuators, (Atom.mark glyph).IsSolid := by decide

/-- A text that starts with what is no white space is solid. -/
theorem isSolid_of_startsWith {atom : Atom} {kind : Char → Bool} (h : startsWith kind atom.text.toList = true)
    (hkind : [' ', '\t', '\n', '\x0b', '\x0c', '\r'].any kind = false) : atom.IsSolid := by
  unfold Atom.IsSolid
  cases htext : atom.text.toList with
  | nil => simp [htext, startsWith] at h
  | cons c rest =>
    rw [htext, startsWith_cons] at h
    rw [startsWith_cons, Bool.not_eq_true', Bool.eq_false_iff]
    intro hwhite
    exact List.any_eq_false.mp hkind c (List.contains_iff_mem.mp hwhite) h

/-- A number is solid, since it starts with a digit. -/
theorem IsNumber.isSolid {text : String} (h : IsNumber text) : (Atom.number text).IsSolid :=
  isSolid_of_startsWith h.first (by decide)

/-- A word is solid, since it starts like a name. -/
theorem isSolid_word {name : String} (h : isIdentifier name) : (Atom.word name).IsSolid := by
  obtain ⟨first, others, hname, hstart⟩ := exists_nameStart h
  have hfirst : startsWith isNameStart (Atom.word name).text.toList = true := by rwa [Atom.text, hname]
  exact isSolid_of_startsWith hfirst (by decide)

/-- The lexer gives a row back exactly if it is kept. -/
theorem lexBehind_chars_eq_iff {row : Row} (hsolid : row.IsSolid) :
    lexBehind 0 row.chars = some row.atoms ↔ row.Kept [] := by
  induction row with
  | nil => simp [lexBehind, Row.atoms]
  | cons entry row ih =>
    cases entry with
    | none =>
      rw [Row.kept_blank, ← ih ((Row.isSolid_blank row).mp hsolid)]
      rfl
    | some atom =>
      obtain ⟨hatom, hrow⟩ := (Row.isSolid_atom atom row).mp hsolid
      have hrow := ih hrow
      rw [Row.kept_atom, ← hrow, Row.chars_atom, List.append_nil]
      cases htext : atom.text.toList with
      | nil => simp [Atom.IsSolid, htext, startsWith] at hatom
      | cons c more =>
        rw [Atom.IsSolid, htext, startsWith_cons, Bool.not_eq_true'] at hatom
        have hatoms : Row.atoms (some atom :: row) = atom :: Row.atoms row := rfl
        rw [hatoms]
        constructor
        · intro h
          have hfirst : firstAtom? (c :: more ++ Row.chars row) = some atom := by
            rw [List.cons_append, lexBehind, if_neg (by simp [hatom])] at h
            obtain ⟨found, hfound, hmap⟩ := Option.bind_eq_some_iff.mp h
            obtain ⟨_, -, hcons⟩ := Option.map_eq_some_iff.mp hmap
            rw [List.cons_append, hfound, (List.cons.inj hcons).1]
          rw [lexBehind_eq hatom htext hfirst] at h
          obtain ⟨_, hrest, hcons⟩ := Option.map_eq_some_iff.mp h
          exact ⟨hfirst, (List.cons.inj hcons).2 ▸ hrest⟩
        · rintro ⟨hfirst, hrest⟩
          rw [lexBehind_eq hatom htext hfirst, hrest, Option.map_some]

end DeclTree.C

import DeclTree.C.Literal
import DeclTree.Proofs.Lexing

/-!
# Quoted constants read back

A reader of C's string and character constants: it goes up to the first quote that no backslash stands before, and takes
the escapes in two forms, simple ones and octal ones of at most three digits. What is printed for a string is read back
as its characters, whatever text follows.

An octal escape ends where no octal digit follows or with its third digit. So a short escape is printed only before what
is not an octal digit, and for the induction it must be known which character the rest of the text starts with.
-/

namespace DeclTree.C

/-- The character that a letter or a mark behind a backslash stands for. -/
def simpleEscape? : Char → Option Char
  | '\x27' => some '\x27'
  | '\x22' => some '\x22'
  | '?' => some '?'
  | '\\' => some '\\'
  | 'a' => some '\x07'
  | 'b' => some '\x08'
  | 'f' => some '\x0c'
  | 'n' => some '\n'
  | 'r' => some '\r'
  | 't' => some '\t'
  | 'v' => some '\x0b'
  | _ => none

/-- The octal digits that a text starts with, up to a number of them, and what follows them. -/
def spanOctal : Nat → List Char → List Char × List Char
  | most + 1, c :: rest =>
    if isOctalDigit c then ((c :: (spanOctal most rest).1), (spanOctal most rest).2) else ([], c :: rest)
  | _, chars => ([], chars)

/-- The number that octal digits denote. -/
def octalValue (digits : List Char) : Nat := digits.foldl (fun n d => 8 * n + (d.toNat - '0'.toNat)) 0

/-- The character that an escape stands for, given what stands behind the backslash, and what follows the escape. -/
def readEscape? : List Char → Option (Char × List Char)
  | [] => none
  | c :: rest =>
    if isOctalDigit c then some (.ofNat (octalValue (spanOctal 3 (c :: rest)).1), (spanOctal 3 (c :: rest)).2)
    else (simpleEscape? c).map fun e => (e, rest)

/-- Splitting off octal digits leaves no more characters than there were. -/
theorem length_spanOctal_le (most : Nat) (chars : List Char) : (spanOctal most chars).2.length ≤ chars.length := by
  fun_induction spanOctal most chars with
  | case1 most c rest _ ih => exact Nat.le_succ_of_le ih
  | case2 => exact Nat.le_refl _
  | case3 => exact Nat.le_refl _

/-- Reading an escape sequence takes a character at least. -/
theorem length_lt_of_readEscape? {chars rest : List Char} {c : Char} (h : readEscape? chars = some (c, rest)) :
    rest.length < chars.length := by
  cases chars with
  | nil => cases h
  | cons first others =>
    rw [readEscape?] at h
    split at h
    · next hdigit =>
      obtain ⟨-, rfl⟩ := Prod.mk.inj (Option.some.inj h)
      rw [spanOctal, if_pos hdigit]
      exact Nat.lt_succ_of_le (length_spanOctal_le 2 others)
    · obtain ⟨e, -, heq⟩ := Option.map_eq_some_iff.mp h
      obtain ⟨-, rfl⟩ := Prod.mk.inj heq
      exact Nat.lt_succ_self _

/-- The characters of a constant, given what stands behind the quote that opens it, and what follows the quote that
closes it. A constant does not go over the end of a line. -/
def readQuoted? (quote : Char) : List Char → Option (List Char × List Char)
  | [] => none
  | c :: rest =>
    if c = quote then some ([], rest)
    else if c = '\\' then
      match _h : readEscape? rest with
      | none => none
      | some (e, behind) => (readQuoted? quote behind).map fun (chars, more) => (e :: chars, more)
    else if isLineEnd c then none
    else (readQuoted? quote rest).map fun (chars, more) => (c :: chars, more)
termination_by chars => chars.length
decreasing_by
  · exact Nat.lt_succ_of_lt (length_lt_of_readEscape? _h)
  · exact Nat.lt_succ_self _

/-- The string that a text starts with as a string constant, and what follows the constant. -/
def readString? (text : String) : Option (String × String) :=
  match text.toList with
  | '\x22' :: rest => (readQuoted? '\x22' rest).map fun (chars, more) => (.ofList chars, .ofList more)
  | _ => none

/-- Whether a text starts with a character of a kind. -/
def startsWith (kind : Char → Bool) (chars : List Char) : Bool := chars.head?.any kind

section Steps

variable {quote : Char} (hquote : isQuote quote) {rest : List Char}

/-- A backslash is no quote. -/
theorem ne_backslash_of_isQuote (hquote : isQuote quote) : '\\' ≠ quote := by
  rintro rfl
  cases hquote

/-- A quote ends the literal. -/
theorem readQuoted?_quote (quote : Char) (rest : List Char) :
    readQuoted? quote (quote :: rest) = some ([], rest) := by
  rw [readQuoted?, if_pos rfl]

include hquote in
/-- A backslash starts an escape sequence, which stands for one character. -/
theorem readQuoted?_backslash {e : Char} {behind : List Char} (h : readEscape? rest = some (e, behind)) :
    readQuoted? quote ('\\' :: rest) = (readQuoted? quote behind).map fun (chars, more) => (e :: chars, more) := by
  rw [readQuoted?, if_neg (ne_backslash_of_isQuote hquote), if_pos rfl]
  split
  · next hnone => simp [h] at hnone
  · next heq =>
    obtain ⟨rfl, rfl⟩ := Prod.mk.inj (Option.some.inj (h.symm.trans heq))
    rfl

/-- A character that is neither the quote, a backslash nor the end of a line stands for itself. -/
theorem readQuoted?_plain {c : Char} (hne : c ≠ quote) (hescape : c ≠ '\\') (hline : isLineEnd c = false) :
    readQuoted? quote (c :: rest) = (readQuoted? quote rest).map fun (chars, more) => (c :: chars, more) := by
  rw [readQuoted?, if_neg hne, if_neg hescape, hline]
  rfl

/-- There are no octal digits to split off before another character. -/
theorem spanOctal_of_not_startsWith (most : Nat) (h : startsWith isOctalDigit rest = false) :
    spanOctal most rest = ([], rest) := by
  cases rest with
  | nil => rw [spanOctal]; simp
  | cons c rest =>
    cases most with
    | zero => rw [spanOctal]; simp
    | succ most => rw [spanOctal, if_neg (by simpa [startsWith] using h)]

/-- A short escape ends before what is not an octal digit. -/
theorem readEscape?_short (h : startsWith isOctalDigit rest = false) :
    readEscape? ('0' :: rest) = some ('\x00', rest) := by
  have hspan : spanOctal 3 ('0' :: rest) = (['0'], rest) := by
    rw [spanOctal, if_pos (by rfl), spanOctal_of_not_startsWith 2 h]
  rw [readEscape?, if_pos (by rfl), hspan]
  rfl

/-- Three octal digits are an escape, whatever follows. -/
theorem readEscape?_long {a b c : Char} (ha : isOctalDigit a) (hb : isOctalDigit b) (hc : isOctalDigit c)
    (rest : List Char) : readEscape? (a :: b :: c :: rest) = some (.ofNat (octalValue [a, b, c]), rest) := by
  simp [readEscape?, spanOctal, ha, hb, hc]

include hquote in
/-- The escaped form of a character is read as the character, if it was known what follows it. -/
theorem readQuoted?_escape (c : Char) {following : Option Char}
    (hfollowing : following.any isOctalDigit = startsWith isOctalDigit rest) :
    readQuoted? quote (escape c following ++ rest) =
      (readQuoted? quote rest).map fun (chars, more) => (c :: chars, more) := by
  have hsimple {mark e : Char} (hmark : isOctalDigit mark = false) (he : simpleEscape? mark = some e) :
      readQuoted? quote ('\\' :: mark :: rest) = (readQuoted? quote rest).map fun (chars, more) => (e :: chars, more) :=
    readQuoted?_backslash hquote (by rw [readEscape?, if_neg (by simp [hmark]), he]; rfl)
  unfold escape
  split
  · exact hsimple rfl rfl
  · exact hsimple rfl rfl
  · exact hsimple rfl rfl
  · split
    · exact readQuoted?_backslash hquote (readEscape?_long rfl rfl rfl rest)
    · next hnone =>
      have hshort : startsWith isOctalDigit rest = false := hfollowing.symm.trans (Bool.eq_false_iff.mpr hnone)
      exact readQuoted?_backslash hquote (readEscape?_short hshort)
  · exact hsimple rfl rfl
  · exact hsimple rfl rfl
  · exact hsimple rfl rfl
  · next hbackslash hline _ _ hsingle hdouble hreturn =>
    refine readQuoted?_plain ?_ hbackslash ?_
    · rintro rfl
      have hmarks : c = '\x22' ∨ c = '\x27' := by simpa [isQuote] using hquote
      exact hmarks.elim hdouble hsingle
    · rw [isLineEnd, Bool.or_eq_false_iff, beq_eq_false_iff_ne, beq_eq_false_iff_ne]
      exact ⟨hline, hreturn⟩

end Steps

/-- An escaped row starts with an octal digit exactly if the row does: every escape starts with a backslash. -/
theorem startsWith_escapeAll (chars : List Char) {quote : Char} (hquote : isQuote quote) (rest : List Char) :
    startsWith isOctalDigit (escapeAll chars ++ quote :: rest) = chars.head?.any isOctalDigit := by
  cases chars with
  | nil =>
    obtain rfl | rfl : quote = '\x22' ∨ quote = '\x27' := by simpa [isQuote] using hquote
    · rfl
    · rfl
  | cons c others =>
    rw [escapeAll]
    unfold escape
    split
    case h_4 => split <;> rfl
    all_goals rfl

/-- The escaped form of a row of characters is read up to the quote, as the row. -/
theorem readQuoted?_escapeAll (chars : List Char) {quote : Char} (hquote : isQuote quote) (rest : List Char) :
    readQuoted? quote (escapeAll chars ++ quote :: rest) = some (chars, rest) := by
  induction chars with
  | nil => exact readQuoted?_quote quote rest
  | cons c others ih =>
    rw [escapeAll, List.append_assoc, readQuoted?_escape hquote c (startsWith_escapeAll others hquote rest).symm, ih]
    rfl

/-- String constants read back. Whatever the characters of a string are and whatever text follows its constant, a C
reader takes exactly the constant and finds the string. -/
theorem string_constants_read_back (s rest : String) :
    readString? (literalText (.string s) ++ rest) = some (s, rest) := by
  have hquote : isQuote '\x22' = true := rfl
  have hread := readQuoted?_escapeAll s.toList hquote rest.toList
  simp only [readString?, literalText, stringText, String.toList_append, String.toList_ofList, List.cons_append,
    List.append_assoc, List.nil_append, hread, Option.map_some, String.ofList_toList]

/-- A number of three octal digits is written with them. -/
theorem toDigits_octal {n : Nat} (hlow : 64 ≤ n) (hhigh : n < 512) :
    Nat.toDigits 8 n = [Nat.digitChar (n / 64), Nat.digitChar (n / 8 % 8), Nat.digitChar (n % 8)] := by
  rw [Nat.toDigits_eq_if (by decide), if_neg (by omega), Nat.toDigits_eq_if (by decide), if_neg (by omega),
    Nat.toDigits_eq_if (by decide), if_pos (by omega), Nat.div_div_eq_div_mul]
  rfl

/-- The characters of the numbers below eight are octal digits. -/
theorem isOctalDigit_digitChar : ∀ d < 8, isOctalDigit (Nat.digitChar d) = true := by decide

/-- The characters of the numbers below eight follow that of zero in order. -/
theorem toNat_digitChar : ∀ d < 8, (Nat.digitChar d).toNat - '0'.toNat = d := by decide

/-- The octal form of a byte that is not ASCII is read as the character of its number. -/
theorem readEscape?_toDigits {n : Nat} (hlow : 64 ≤ n) (hhigh : n < 512) (rest : List Char) :
    readEscape? (Nat.toDigits 8 n ++ rest) = some (.ofNat n, rest) := by
  have hvalue : octalValue [Nat.digitChar (n / 64), Nat.digitChar (n / 8 % 8), Nat.digitChar (n % 8)] = n := by
    simp only [octalValue, List.foldl_cons, List.foldl_nil]
    rw [toNat_digitChar _ (by omega), toNat_digitChar _ (by omega), toNat_digitChar _ (by omega)]
    omega
  rw [toDigits_octal hlow hhigh]
  refine (readEscape?_long ?_ ?_ ?_ rest).trans (by rw [hvalue])
  · exact isOctalDigit_digitChar _ (by omega)
  · exact isOctalDigit_digitChar _ (by omega)
  · exact isOctalDigit_digitChar _ (by omega)

/-- The text of a character constant behind the quote that opens it. -/
def charBody (byte : UInt8) : List Char :=
  (if byte < 128 then escape (Char.ofNat byte.toNat) none else '\\' :: Nat.toDigits 8 byte.toNat) ++ ['\x27']

/-- A character literal is a quote with the body of the literal behind it. -/
theorem toList_charText (byte : UInt8) : (charText byte).toList = '\x27' :: charBody byte := by
  rw [charText, charBody, String.toList_ofList, List.cons_append]

/-- A character constant is read as the character whose number the byte is. -/
theorem readQuoted?_charBody (byte : UInt8) (rest : List Char) :
    readQuoted? '\x27' (charBody byte ++ rest) = some ([Char.ofNat byte.toNat], rest) := by
  have hquote : isQuote '\x27' = true := rfl
  rw [charBody, List.append_assoc, List.singleton_append]
  split
  · have hend : none.any isOctalDigit = startsWith isOctalDigit ('\x27' :: rest) := rfl
    rw [readQuoted?_escape hquote _ hend, readQuoted?_quote, Option.map_some]
  · next hbyte =>
    have hlow : 128 ≤ byte.toNat := by simpa [UInt8.lt_iff_toNat_lt] using hbyte
    have hhigh := byte.toNat_lt
    have hescape := readEscape?_toDigits (n := byte.toNat) (by omega) (by omega) ('\x27' :: rest)
    rw [List.cons_append, readQuoted?_backslash hquote hescape, readQuoted?_quote, Option.map_some]

end DeclTree.C

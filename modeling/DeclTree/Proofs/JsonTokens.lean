import DeclTree.Json.Scanner
import DeclTree.Json.Writer
import DeclTree.Proofs.Numerals
import Mathlib.Data.List.Forall2

/-!
# Texts and the JSON tokens that they are split into

What a written text is split into is said for every text that follows it. A number or a word ends only where a character
follows that it cannot take: a text `Spells` its tokens whatever follows, and it `Writes` them before what `Delimits`.
Strings, numbers and words are read back from their texts, and entries between commas from the texts of the entries.
-/

namespace DeclTree.Json

/-- The characters are split into the tokens, after whatever tokens stand before them. -/
def Scans (chars : List Char) (tokens : List Token) : Prop :=
  ∀ before, (chars.foldlM Scan.next ⟨.between, before⟩).bind Scan.close = some (tokens.reverse ++ before)

/-- Characters that are split into tokens after whatever stands before them are so on their own. -/
theorem scan?_of_scans {chars : List Char} {tokens : List Token} (h : Scans chars tokens) :
    scan? chars = some tokens := by
  obtain ⟨last, hlast, hclose⟩ := Option.bind_eq_some_iff.mp (h [])
  simp [scan?, Scan.start, hlast, hclose]

/-- No number and no word goes on with the characters. -/
def Delimits (chars : List Char) : Prop := ∀ c, chars.head? = some c → ¬isNumberChar c ∧ ¬isLetter c

/-- A text that starts with neither a number nor a word ends the number or the word before it. -/
theorem delimits_append {text : String} {c : Char} {chars : List Char} (htext : text.toList = c :: chars)
    (hc : ¬isNumberChar c ∧ ¬isLetter c) (rest : List Char) : Delimits (text.toList ++ rest) := by
  simpa [Delimits, htext] using hc

/-- The text is the tokens, whatever follows it. -/
def Spells (text : String) (tokens : List Token) : Prop :=
  ∀ rest more, Scans rest more → Scans (text.toList ++ rest) (tokens ++ more)

/-- The text is the tokens where a number or a word that it ends with is at its end. -/
def Writes (text : String) (tokens : List Token) : Prop :=
  ∀ rest more, Delimits rest → Scans rest more → Scans (text.toList ++ rest) (tokens ++ more)

namespace Scans

/-- No characters have no tokens. -/
theorem nil : Scans [] [] := fun _ => rfl

/-- A character that leaves nothing open adds its tokens. -/
theorem cons {c : Char} {rest : List Char} {added more : List Token}
    (hc : ∀ before, Scan.first before c = some ⟨.between, added.reverse ++ before⟩) (h : Scans rest more) :
    Scans (c :: rest) (added ++ more) := by
  intro before
  rw [List.foldlM_cons, Scan.next, hc]
  exact (h _).trans (by simp)

/-- A run of characters that an open token takes, up to one that it does not take. The run is read in a mode of its own,
such as that of numbers. -/
theorem run (mode : List Char → Mode) (takes : Char → Bool) {value : Json} {c : Char} {chars rest : List Char}
    {more : List Token} (hnext : ∀ read before x, Scan.next ⟨mode read, before⟩ x =
      if takes x then some ⟨mode (x :: read), before⟩ else (Scan.close ⟨mode read, before⟩).bind (Scan.first · x))
    (hfirst : ∀ before, Scan.first before c = some ⟨mode [c], before⟩) (hchars : ∀ x ∈ chars, takes x)
    (hclose : ∀ before, Scan.close ⟨mode (c :: chars).reverse, before⟩ = some (.scalar value :: before))
    (hrest : ∀ x, rest.head? = some x → ¬takes x) (h : Scans rest more) :
    Scans (c :: chars ++ rest) (.scalar value :: more) := by
  intro before
  -- The characters of the run are collected, last first.
  have hrun : ∀ read, (chars ++ rest).foldlM Scan.next ⟨mode read, before⟩ =
      rest.foldlM Scan.next ⟨mode (chars.reverse ++ read), before⟩ := by
    clear hclose
    induction chars with
    | nil => exact fun _ => rfl
    | cons x chars ih =>
      intro read
      rw [List.cons_append, List.foldlM_cons, hnext, if_pos (hchars x (by simp))]
      exact (ih (fun y hy => hchars y (by simp [hy])) (x :: read)).trans (by simp)
  -- What follows is read as if nothing were open, since the run is closed before the character that it does not take.
  have hend : (rest.foldlM Scan.next ⟨mode (c :: chars).reverse, before⟩).bind Scan.close =
      some (more.reverse ++ .scalar value :: before) := by
    rw [← h (.scalar value :: before)]
    cases rest with
    | nil => exact hclose before
    | cons x rest =>
      rw [List.foldlM_cons, List.foldlM_cons, hnext, if_neg (hrest x rfl), hclose]
      rfl
  rw [List.cons_append, List.foldlM_cons, Scan.next, hfirst]
  exact (congrArg (Option.bind · Scan.close) (hrun [c])).trans (by simpa using hend)

end Scans

namespace Spells

/-- A text that is its tokens whatever follows is so where a number or a word ends. -/
theorem writes {text : String} {tokens : List Token} (h : Spells text tokens) : Writes text tokens :=
  fun rest more _ hrest => h rest more hrest

/-- Texts that are their tokens are so in a row. -/
theorem append {a b : String} {s t : List Token} (ha : Spells a s) (hb : Spells b t) : Spells (a ++ b) (s ++ t) := by
  intro rest more hrest
  rw [String.toList_append, List.append_assoc, List.append_assoc]
  exact ha _ _ (hb _ _ hrest)

/-- A text that is its tokens may stand before one that ends in a number or a word. -/
theorem append_writes {a b : String} {s t : List Token} (ha : Spells a s) (hb : Writes b t) :
    Writes (a ++ b) (s ++ t) := by
  intro rest more hdelimits hrest
  rw [String.toList_append, List.append_assoc, List.append_assoc]
  exact ha _ _ (hb _ _ hdelimits hrest)

/-- White space is no token. -/
theorem blank {text : String} (h : ∀ c ∈ text.toList, isBlank c) : Spells text [] := by
  intro rest more hrest
  generalize text.toList = chars at h
  induction chars with
  | nil => exact hrest
  | cons c chars ih =>
    have hfirst : ∀ before, Scan.first before c = some ⟨.between, before⟩ := by simp [Scan.first, h c]
    exact .cons hfirst (ih fun x hx => h x (by simp [hx]))

/-- A line break with its indentation has no tokens. -/
theorem lineStart (level : Nat) : Spells (lineStart level) [] := by
  refine blank fun c hc => ?_
  simp only [Json.lineStart, String.toList_append, String.toList_ofList, List.mem_append, List.mem_replicate] at hc
  rcases hc with hc | ⟨-, rfl⟩
  · simp at hc
    subst hc
    rfl
  · rfl

/-- A punctuation character is a token. -/
theorem mark {text : String} {c : Char} {token : Token} (htext : text.toList = [c])
    (hfirst : ∀ before, Scan.first before c = some ⟨.between, token :: before⟩) : Spells text [token] := by
  intro rest more hrest
  rw [htext]
  exact .cons hfirst hrest

end Spells

/-- A token that ends by itself ends a number or a word before it. -/
theorem Writes.append_spells {a b : String} {s t : List Token} (ha : Writes a s) (hb : Spells b t)
    (hdelimits : ∀ rest, Delimits (b.toList ++ rest)) : Spells (a ++ b) (s ++ t) := by
  intro rest more hrest
  rw [String.toList_append, List.append_assoc, List.append_assoc]
  exact ha _ _ (hdelimits rest) (hb _ _ hrest)

/-- Half of a byte is read back from its hexadecimal digit. -/
theorem hexDigit?_digitChar : ∀ d : Fin 16, hexDigit? (Nat.digitChar d) = some d.val := by decide

/-- A character below the surrogates is added as the code unit that it is. -/
theorem StringPart.pushUnit_toNat (chars : List Char) {c : Char} (h : c.toNat < 0xD800) :
    StringPart.pushUnit ⟨some chars, none⟩ c.toNat = ⟨some (c :: chars), none⟩ := by
  rw [pushUnit, if_neg (by omega), if_neg (by omega), Char.ofNat_toNat]
  rfl

/-- A character is read back from its escaped form. -/
theorem foldlM_escape (c : Char) (chars rest : List Char) (before : List Token) :
    (escape c ++ rest).foldlM Scan.next ⟨.string ⟨some chars, none⟩, before⟩ =
      rest.foldlM Scan.next ⟨.string ⟨some (c :: chars), none⟩, before⟩ := by
  unfold escape
  split
  case h_8 hquote hslash _ _ _ _ _ =>
    split
    · next hcontrol =>
      have hlt : c.toNat < 32 := hcontrol
      have hhigh := hexDigit?_digitChar ⟨c.toNat / 16, by omega⟩
      have hlow := hexDigit?_digitChar ⟨c.toNat % 16, by omega⟩
      have hpush := StringPart.pushUnit_toNat chars (c := c) (by omega)
      have hsum : c.toNat / 16 * 16 + c.toNat % 16 = c.toNat := Nat.div_add_mod' _ _
      have hzero : hexDigit? '0' = some 0 := rfl
      simp [Scan.next, hhigh, hlow, hzero, hsum, hpush]
    · next hcontrol =>
      have hplain : ¬c = '\x22' ∧ ¬c = '\\' := ⟨hquote, hslash⟩
      simp [Scan.next, hplain, hcontrol, StringPart.push]
  all_goals rfl

/-- Inside a string, escaped characters are read back one by one. -/
theorem foldlM_flatMap_escape (text chars rest : List Char) (before : List Token) :
    (text.flatMap escape ++ rest).foldlM Scan.next ⟨.string ⟨some chars, none⟩, before⟩ =
      rest.foldlM Scan.next ⟨.string ⟨some (text.reverse ++ chars), none⟩, before⟩ := by
  induction text generalizing chars with
  | nil => rfl
  | cons c text ih => rw [List.flatMap_cons, List.append_assoc, foldlM_escape, ih]; simp

/-- A text is read back from its string. -/
theorem Spells.stringText (s : String) : Spells (stringText s) [.scalar (.string (some s))] := by
  intro rest more hrest before
  have hquote : Scan.next ⟨.string ⟨some s.toList.reverse, none⟩, before⟩ '\x22' =
      some ⟨.between, .scalar (.string (some s)) :: before⟩ := by
    simp [Scan.next, StringPart.finish]
  have hstring : ((Json.stringText s).toList ++ rest).foldlM Scan.next ⟨.between, before⟩ =
      rest.foldlM Scan.next ⟨.between, .scalar (.string (some s)) :: before⟩ := by
    rw [Json.stringText, String.toList_ofList, List.cons_append, List.cons_append, List.foldlM_cons]
    have hopen : Scan.next ⟨.between, before⟩ '\x22' = some ⟨.string ⟨some [], none⟩, before⟩ := rfl
    rw [hopen, List.append_assoc]
    refine (foldlM_flatMap_escape s.toList [] _ before).trans ?_
    rw [List.append_nil, List.singleton_append, List.foldlM_cons, hquote]
    rfl
  rw [hstring, hrest]
  simp

/-- A digit stands in numbers, and is no letter, no blank and no quote. -/
theorem isNumberChar_digit :
    ∀ d : Digit, isNumberChar d.char ∧ ¬isLetter d.char ∧ ¬isBlank d.char ∧ d.char ≠ '\x22' := by decide

/-- The characters of a natural number stand in numbers. -/
theorem isNumberChar_of_mem_toString {n : Nat} {c : Char} (h : c ∈ (toString n).toList) : isNumberChar c := by
  obtain ⟨first, rest, hdigits, -⟩ := Digit.exists_toDigits n
  rw [Numeral.toList_toString, hdigits] at h
  obtain ⟨d, -, rfl⟩ := List.mem_map.mp h
  exact (isNumberChar_digit d).1

/-- The characters of a numeral can all be part of a number. -/
theorem isNumberChar_of_mem_text {n : Numeral} {c : Char} (h : c ∈ n.text.toList) : isNumberChar c := by
  rw [Numeral.toList_text, List.mem_append, List.mem_append, List.mem_append] at h
  rcases h with h | h | h | h
  · split at h
    · rw [List.mem_singleton.mp h]
      rfl
    · simp at h
  · exact isNumberChar_of_mem_toString h
  · rw [Numeral.fractionChars] at h
    split at h
    · simp at h
    · rcases List.mem_cons.mp h with rfl | h
      · rfl
      · obtain ⟨d, -, rfl⟩ := List.mem_map.mp h
        exact (isNumberChar_digit d).1
  · cases hexponent : n.exponent with
    | none => simp [hexponent, Numeral.exponentChars] at h
    | some e =>
      rw [hexponent, Numeral.exponentChars] at h
      rcases List.mem_cons.mp h with rfl | h
      · rfl
      · rcases List.mem_append.mp h with h | h
        · cases hsign : e.sign with
          | unsigned => simp [hsign, ExponentSign.text] at h
          | plus => simp [hsign, ExponentSign.text] at h; subst h; rfl
          | minus => simp [hsign, ExponentSign.text] at h; subst h; rfl
        · exact isNumberChar_of_mem_toString h

/-- A numeral opens a number. -/
theorem exists_text_eq_cons (n : Numeral) : ∃ c chars, n.text.toList = c :: chars ∧
    ∀ before, Scan.first before c = some ⟨.number [c], before⟩ := by
  rw [Numeral.toList_text]
  split
  · exact ⟨_, _, rfl, fun _ => rfl⟩
  · obtain ⟨first, rest, hdigits, -⟩ := Digit.exists_toDigits n.whole
    obtain ⟨hnumber, hletter, hblank, hquote⟩ := isNumberChar_digit first
    rw [Numeral.toList_toString, hdigits]
    refine ⟨first.char, _, rfl, fun before => ?_⟩
    simp [Scan.first, hnumber, hletter, hblank, hquote]

namespace Writes

/-- A numeral is read back from its text. -/
theorem number (n : Numeral) : Writes n.text [.scalar (.number n)] := by
  intro rest more hdelimits hrest
  obtain ⟨c, chars, htext, hfirst⟩ := exists_text_eq_cons n
  rw [htext]
  refine Scans.run .number isNumberChar (fun _ _ _ => rfl) hfirst (fun x hx => ?_) (fun before => ?_)
    (fun x hx => (hdelimits x hx).1) hrest
  · exact isNumberChar_of_mem_text (htext ▸ List.mem_cons_of_mem c hx)
  · simp [Scan.close, ← htext, Numeral.ofChars?_text]

/-- A word is read back from its letters. -/
theorem word {text : String} {value : Json} {c : Char} {letters : List Char} (htext : text.toList = c :: letters)
    (hvalue : ofWord? (c :: letters) = some value) (hfirst : ∀ before, Scan.first before c = some ⟨.word [c], before⟩)
    (hletters : letters.all isLetter = true) : Writes text [.scalar value] := by
  intro rest more hdelimits hrest
  rw [htext]
  refine Scans.run .word isLetter (fun _ _ _ => rfl) hfirst (List.all_eq_true.mp hletters) (fun before => ?_)
    (fun x hx => (hdelimits x hx).2) hrest
  simp [Scan.close, hvalue]

/-- Entries between commas are read back as the tokens of the entries between commas. -/
theorem separated {texts : List String} {rows : List (List Token)} (h : List.Forall₂ Writes texts rows) :
    Writes (",".intercalate texts) ([.comma].intercalate rows) := by
  induction h with
  | nil => exact (Spells.blank (by simp)).writes
  | @cons text row texts rows hfirst htail ih =>
    cases htail with
    | nil => simpa using hfirst
    | cons hsecond htail =>
      rw [String.intercalate_cons_cons, List.intercalate_cons_cons]
      have hcomma : Spells "," [.comma] := .mark rfl fun _ => rfl
      exact (hfirst.append_spells hcomma (delimits_append rfl (by decide))).append_writes ih

end Writes

end DeclTree.Json

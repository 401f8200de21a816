import DeclTree.Numeral
import Mathlib.Data.Nat.Init

/-!
# Numerals read back

A numeral is read back from its text. A number in decimal starts with a zero only if it is zero, so it is a whole part;
the digits of a part end where the next part starts, because a point or an exponent does not start with a digit.
-/

namespace DeclTree

namespace Digit

/-- A digit is read back from its character. -/
theorem ofChar?_char : ∀ d : Digit, ofChar? d.char = some d := by decide

/-- A further digit makes the value ten times as large and adds to it. -/
theorem value_append (digits : List Digit) (d : Digit) : value (digits ++ [d]) = value digits * 10 + d.val := by
  simp [value, List.foldl_append]

/-- A number is written with digits that denote it, and with a leading zero only if it is zero. -/
theorem exists_toDigits (n : Nat) :
    ∃ first rest, Nat.toDigits 10 n = (first :: rest).map Digit.char ∧ value (first :: rest) = n ∧
      (first = 0 → rest = []) := by
  induction n using Nat.strong_induction_on with
  | _ n ih =>
    rw [Nat.toDigits_eq_if (by decide)]
    split
    · next hn => exact ⟨⟨n, hn⟩, [], rfl, by simp [value], fun _ => rfl⟩
    · next hn =>
      obtain ⟨first, rest, hdigits, hvalue, hzero⟩ := ih (n / 10) (by omega)
      have hlast : n % 10 < 10 := Nat.mod_lt _ (by decide)
      refine ⟨first, rest ++ [⟨n % 10, hlast⟩], by simp [hdigits, char], ?_, fun hfirst => ?_⟩
      · rw [← List.cons_append, value_append, hvalue]
        exact Nat.div_add_mod' n 10
      · -- The digits before the last one would denote zero.
        have hrest := hzero hfirst
        subst hfirst hrest
        simp [value] at hvalue
        omega

end Digit

namespace Numeral

/-- A text does not start with a digit. -/
def NoDigit (chars : List Char) : Prop := ∀ c, chars.head? = some c → Digit.ofChar? c = none

/-- The empty text does not start with a digit. -/
theorem noDigit_nil : NoDigit [] := by simp [NoDigit]

/-- A text whose first character is no digit does not start with one. -/
theorem noDigit_cons {c : Char} {rest : List Char} (h : Digit.ofChar? c = none) : NoDigit (c :: rest) := by
  simpa [NoDigit] using h

/-- The digits of a row of digits end where no digit follows. -/
theorem spanDigits_append (digits : List Digit) {rest : List Char} (h : NoDigit rest) :
    spanDigits (digits.map Digit.char ++ rest) = (digits, rest) := by
  induction digits with
  | nil =>
    cases rest with
    | nil => rfl
    | cons c rest => simp [spanDigits, h c rfl]
  | cons d digits ih => simp [spanDigits, Digit.ofChar?_char, ih]

/-- The characters of a natural number are its digits to base ten. -/
theorem toList_toString (n : Nat) : (toString n).toList = Nat.toDigits 10 n := by
  rw [Nat.toString_eq_ofList_toDigits, String.toList_ofList]

/-- A number in decimal is a whole part. -/
theorem readWhole?_append (n : Nat) {rest : List Char} (h : NoDigit rest) :
    readWhole? ((toString n).toList ++ rest) = some (n, rest) := by
  obtain ⟨first, others, hdigits, rfl, hzero⟩ := Digit.exists_toDigits n
  rw [toList_toString, hdigits, readWhole?, spanDigits_append _ h]
  split
  · next heq => simp at heq
  · next heq =>
    obtain ⟨hfirst, hothers⟩ := List.cons.inj (Prod.mk.inj heq).1
    simp [hzero hfirst] at hothers
  · next heq =>
    obtain ⟨rfl, rfl⟩ := Prod.mk.inj heq
    rfl

/-- The text of a fraction. -/
def fractionChars (fraction : List Digit) : List Char :=
  if fraction.isEmpty then [] else '.' :: fraction.map Digit.char

/-- The text of an exponent. -/
def exponentChars : Option Exponent → List Char
  | none => []
  | some e => 'e' :: (e.sign.text.toList ++ (toString e.magnitude).toList)

/-- A numeral is written as its sign, its whole part, its fraction and its exponent. -/
theorem toList_text (n : Numeral) :
    n.text.toList = (if n.negative then ['-'] else []) ++ ((toString n.whole).toList ++
      (fractionChars n.fraction ++ exponentChars n.exponent)) := by
  unfold text fractionChars exponentChars
  cases n.negative <;> cases n.fraction.isEmpty <;> cases n.exponent <;> simp

/-- An exponent does not start with a digit. -/
theorem noDigit_exponentChars (exponent : Option Exponent) : NoDigit (exponentChars exponent) := by
  cases exponent with
  | none => exact noDigit_nil
  | some e => exact noDigit_cons (by decide)

/-- What follows the whole part of a numeral does not start with a digit. -/
theorem noDigit_fractionChars (fraction : List Digit) (exponent : Option Exponent) :
    NoDigit (fractionChars fraction ++ exponentChars exponent) := by
  rw [fractionChars]
  split
  · exact noDigit_exponentChars exponent
  · exact noDigit_cons (by decide)

/-- A fraction is read back from its text. -/
theorem readFraction?_append (fraction : List Digit) (exponent : Option Exponent) :
    readFraction? (fractionChars fraction ++ exponentChars exponent) = some (fraction, exponentChars exponent) := by
  cases fraction with
  | nil =>
    cases exponent with
    | none => rfl
    | some e => rfl
  | cons d rest =>
    have hspan := spanDigits_append (d :: rest) (noDigit_exponentChars exponent)
    rw [fractionChars, if_neg (by simp), List.cons_append, readFraction?, hspan]

/-- The sign of an exponent is read back in front of its digits. -/
theorem readExponentSign_append (sign : ExponentSign) (n : Nat) :
    readExponentSign (sign.text.toList ++ (toString n).toList) = (sign, (toString n).toList) := by
  cases sign with
  | plus => simp [ExponentSign.text, readExponentSign]
  | minus => simp [ExponentSign.text, readExponentSign]
  | unsigned =>
    obtain ⟨first, rest, hdigits, -⟩ := Digit.exists_toDigits n
    rw [toList_toString, hdigits]
    -- No digit is a sign.
    have hsign : ∀ d : Digit, d.char ≠ '+' ∧ d.char ≠ '-' := by decide
    simp only [ExponentSign.text, String.toList_empty, List.nil_append, List.map_cons]
    rw [readExponentSign]
    · exact fun _ heq => (hsign first).1 (List.cons.inj heq).1
    · exact fun _ heq => (hsign first).2 (List.cons.inj heq).1

/-- An exponent is read back from its text. -/
theorem readExponent?_exponentChars (exponent : Option Exponent) :
    readExponent? (exponentChars exponent) = some exponent := by
  cases exponent with
  | none => rfl
  | some e =>
    obtain ⟨first, rest, hdigits, hvalue, -⟩ := Digit.exists_toDigits e.magnitude
    have hspan := spanDigits_append (first :: rest) noDigit_nil
    rw [List.append_nil, ← hdigits, ← toList_toString] at hspan
    rw [exponentChars, readExponent?, if_pos (.inl rfl)]
    dsimp only
    rw [readExponentSign_append]
    dsimp only
    rw [hspan]
    dsimp only
    rw [hvalue]

/-- The sign of a numeral is read back in front of its digits. -/
theorem readSign_append (negative : Bool) (n : Nat) (rest : List Char) :
    readSign ((if negative then ['-'] else []) ++ ((toString n).toList ++ rest)) =
      (negative, (toString n).toList ++ rest) := by
  cases negative with
  | true => rfl
  | false =>
    obtain ⟨first, others, hdigits, -⟩ := Digit.exists_toDigits n
    have hsign : ∀ d : Digit, d.char ≠ '-' := by decide
    rw [toList_toString, hdigits]
    simp only [Bool.false_eq_true, if_false, List.nil_append, List.map_cons, List.cons_append]
    rw [readSign]
    exact fun _ heq => hsign first (List.cons.inj heq).1

/-- A numeral is read back from its text. -/
theorem ofChars?_text (n : Numeral) : ofChars? n.text.toList = some n := by
  rw [toList_text, ofChars?, readSign_append]
  dsimp only
  rw [readWhole?_append n.whole (noDigit_fractionChars n.fraction n.exponent)]
  simp [readFraction?_append, readExponent?_exponentChars]

/-- An integer is read back from its numeral. -/
theorem toInt?_ofInt (n : Int) : (ofInt n).toInt? = some n := by
  -- A negative integer is not zero, so it keeps its sign.
  have hsign : ¬(decide (n < 0) = true ∧ n.natAbs = 0) := by
    rintro ⟨hneg, hzero⟩
    have hneg := of_decide_eq_true hneg
    omega
  rw [ofInt, toInt?, if_pos ⟨rfl, rfl, hsign⟩, Option.some_inj]
  by_cases hn : n < 0
  · rw [if_pos (decide_eq_true hn), Int.ofNat_natAbs_of_nonpos (Int.le_of_lt hn), Int.neg_neg]
  · rw [if_neg (by simpa using hn), Int.natAbs_of_nonneg (Int.not_lt.mp hn)]

/-- The numeral of a natural number stands for that number. -/
theorem toInt?_ofNat (n : Nat) : (ofNat n).toInt? = some (n : Int) := by simp [ofNat, toInt?]

end Numeral

end DeclTree

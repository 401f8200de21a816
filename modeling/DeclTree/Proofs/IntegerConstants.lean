import DeclTree.Proofs.Separation
import Mathlib.Algebra.Group.Int.Defs
import Mathlib.Algebra.Group.Nat.Defs

/-!
# The value of integer constants

C's rules for constants of integers. A constant has the first of the types that its base and its suffix allow in which
its magnitude can be represented; a minus in front is an operator, so the magnitude must fit without it. The operands of
an operator are brought to a common type, and a result that a signed type cannot represent is no value. An `int` has 32
bits and a `long long` 64; the width of `long` is left open between the two.

What is printed for an integer literal has its value: for the least integer of 64 bits, whose magnitude fits no signed
type, the value of a difference.
-/

namespace DeclTree.C

/-- How wide `long` is, which compilers decide. -/
inductive DataModel where
  | longIs32
  | longIs64
deriving DecidableEq

/-- The ranks of integer types from `int` up. -/
inductive Rank where
  | int
  | long
  | longLong
deriving DecidableEq

/-- The number of bits of a rank. -/
def Rank.bits (model : DataModel) : Rank → Nat
  | int => 32
  | long => match model with
    | .longIs32 => 32
    | .longIs64 => 64
  | longLong => 64

/-- The place of a rank in their order. -/
def Rank.height : Rank → Nat
  | int => 0
  | long => 1
  | longLong => 2

/-- An integer type from `int` up. -/
structure IntType where
  rank : Rank
  signed : Bool
deriving DecidableEq

namespace IntType

variable (model : DataModel)

/-- The least integer of a type. -/
def least (type : IntType) : Int := if type.signed then -2 ^ (type.rank.bits model - 1) else 0

/-- The greatest integer of a type. -/
def greatest (type : IntType) : Int :=
  if type.signed then 2 ^ (type.rank.bits model - 1) - 1 else 2 ^ type.rank.bits model - 1

/-- The type represents an integer. -/
def Holds (type : IntType) (n : Int) : Prop := type.least model ≤ n ∧ n ≤ type.greatest model

instance (type : IntType) (n : Int) : Decidable (type.Holds model n) := inferInstanceAs (Decidable (_ ∧ _))

/-- The type that the operands of an operator are brought to. -/
def common (first second : IntType) : IntType :=
  if first.signed = second.signed then
    if first.rank.height < second.rank.height then second else first
  else
    let signed := if first.signed then first else second
    let unsigned := if first.signed then second else first
    if signed.rank.height ≤ unsigned.rank.height then unsigned
    else if signed.rank.bits model > unsigned.rank.bits model then signed
    else ⟨signed.rank, false⟩

/-- A signed type that can hold a number that is not negative can hold its negation. -/
theorem Holds.neg {model : DataModel} {type : IntType} (hsigned : type.signed = true) {n : Int} (hn : 0 ≤ n)
    (h : type.Holds model n) : type.Holds model (-n) := by
  rw [Holds, least, greatest, if_pos hsigned, if_pos hsigned] at h ⊢
  omega

end IntType

/-- A value of an integer type. -/
structure IntValue (model : DataModel) where
  type : IntType
  value : Int
  fits : type.Holds model value

namespace IntValue

variable {model : DataModel}

/-- The value of a type that an integer gives. A signed type represents it or there is none; an unsigned one takes what
remains of it. -/
def ofInt? (type : IntType) (n : Int) : Option (IntValue model) :=
  if h : type.Holds model n then some ⟨type, n, h⟩
  else if hsigned : type.signed then none
  else some ⟨type, n % 2 ^ type.rank.bits model, by
    have hpos : (0 : Int) < 2 ^ type.rank.bits model := Int.pow_pos (by decide)
    have hlow := Int.emod_nonneg n (Int.ne_of_gt hpos)
    have hhigh := Int.emod_lt_of_pos n hpos
    rw [IntType.Holds, IntType.least, IntType.greatest, if_neg hsigned, if_neg hsigned]
    omega⟩

/-- The value with a minus in front. -/
def neg (v : IntValue model) : Option (IntValue model) := ofInt? v.type (-v.value)

/-- The value in another type. -/
def convert (type : IntType) (v : IntValue model) : Option (IntValue model) := ofInt? type v.value

/-- The difference of two values, in their common type. -/
def sub (v w : IntValue model) : Option (IntValue model) := do
  let type := v.type.common model w.type
  let v ← v.convert type
  let w ← w.convert type
  ofInt? type (v.value - w.value)

/-- A number that its type can hold is a value of the type. -/
theorem ofInt?_eq {type : IntType} {n : Int} (h : type.Holds model n) : ofInt? type n = some ⟨type, n, h⟩ := dif_pos h

end IntValue

/-- The base of a constant. A zero in front makes it octal. -/
inductive Base where
  | decimal
  | octal
deriving DecidableEq

/-- What the suffix of a constant says: whether its type is unsigned, and the least rank of it. -/
structure Suffix where
  isUnsigned : Bool
  leastRank : Rank
deriving DecidableEq

/-- The suffixes of integer constants. -/
def suffixes : List (String × Suffix) :=
  [("", ⟨false, .int⟩), ("u", ⟨true, .int⟩), ("U", ⟨true, .int⟩),
    ("l", ⟨false, .long⟩), ("L", ⟨false, .long⟩), ("ll", ⟨false, .longLong⟩), ("LL", ⟨false, .longLong⟩),
    ("ul", ⟨true, .long⟩), ("uL", ⟨true, .long⟩), ("Ul", ⟨true, .long⟩), ("UL", ⟨true, .long⟩),
    ("lu", ⟨true, .long⟩), ("lU", ⟨true, .long⟩), ("Lu", ⟨true, .long⟩), ("LU", ⟨true, .long⟩),
    ("ull", ⟨true, .longLong⟩), ("uLL", ⟨true, .longLong⟩), ("Ull", ⟨true, .longLong⟩), ("ULL", ⟨true, .longLong⟩),
    ("llu", ⟨true, .longLong⟩), ("llU", ⟨true, .longLong⟩), ("LLu", ⟨true, .longLong⟩), ("LLU", ⟨true, .longLong⟩)]

/-- The types that a constant of a base with a suffix can have, in the order in which they are tried. -/
def candidates (base : Base) (suffix : Suffix) : List IntType :=
  ([.int, .long, .longLong].filter fun rank => suffix.leastRank.height ≤ rank.height).flatMap fun rank =>
    if suffix.isUnsigned then [⟨rank, false⟩]
    else match base with
      | .decimal => [⟨rank, true⟩]
      | .octal => [⟨rank, true⟩, ⟨rank, false⟩]

/-- The base and the magnitude that digits denote. -/
def magnitude? : List Digit → Option (Base × Nat)
  | [] => none
  | 0 :: rest => if rest.all (·.val < 8) then some (.octal, rest.foldl (fun n d => n * 8 + d.val) 0) else none
  | digits => some (.decimal, Digit.value digits)

/-- The value of an integer constant. Constants of base sixteen are left out. -/
def constantValue? (model : DataModel) (text : String) : Option (IntValue model) := do
  let (digits, tail) := Numeral.spanDigits text.toList
  let (base, magnitude) ← magnitude? digits
  let suffix ← suffixes.lookup (.ofList tail)
  let type ← (candidates base suffix).find? fun type => type.Holds model magnitude
  IntValue.ofInt? type magnitude

/-- The value of a tree of constants, minuses and differences. -/
def Tree.value? (model : DataModel) : Tree → Option (IntValue model)
  | paren inner => inner.value? model
  | unary .neg operand => (operand.value? model).bind IntValue.neg
  | binary left .sub right => do (← left.value? model).sub (← right.value? model)
  | constant text => constantValue? model text
  | _ => none

/-- What an atom is to the grammar. Words have no part in a constant expression. -/
def Atom.symbol? : Atom → Option Symbol
  | mark glyph => some (.mark glyph)
  | number text | quoted text => some (.constant text)
  | word _ => none

/-- A text is read as a value: the lexer cuts it into atoms, the grammar derives a tree from them, and the tree has the
value. -/
def Denotes (model : DataModel) (text : String) (v : IntValue model) : Prop :=
  ∃ atoms symbols tree, lex text = some atoms ∧ atoms.mapM Atom.symbol? = some symbols ∧ Derives 0 symbols tree ∧
    tree.value? model = some v

/-- A text is read as at most one value. -/
theorem Denotes.unique {model : DataModel} {text : String} {v w : IntValue model} (hv : Denotes model text v)
    (hw : Denotes model text w) : v = w := by
  obtain ⟨atoms, symbols, tree, hlex, hsymbols, hderives, hvalue⟩ := hv
  obtain ⟨atoms', symbols', tree', hlex', hsymbols', hderives', hvalue'⟩ := hw
  obtain rfl : atoms = atoms' := Option.some.inj (hlex.symm.trans hlex')
  obtain rfl : symbols = symbols' := Option.some.inj (hsymbols.symm.trans hsymbols')
  obtain rfl : tree = tree' := hderives.unique hderives'
  exact Option.some.inj (hvalue.symm.trans hvalue')

/-- The suffixes that are printed, and the greatest magnitude before each. -/
def decimalLimits : List (String × Nat) :=
  [("", 2 ^ 63 - 1), ("LL", 2 ^ 63 - 1), ("ULL", 2 ^ 64 - 1), ("U", 2 ^ 32 - 1)]

/-- A decimal constant whose magnitude fits its type: digits without a leading zero unless they are a single zero, and a
suffix. -/
def IsDecimal (text : String) : Prop :=
  ∃ (first : Digit) (others : List Digit) (suffix : String) (limit : Nat),
    text.toList = (first :: others).map Digit.char ++ suffix.toList ∧ (first.val = 0 → others = []) ∧
    (suffix, limit) ∈ decimalLimits ∧ Digit.value (first :: others) ≤ limit

/-- A natural number with a suffix whose limit it keeps is a decimal constant. -/
theorem isDecimal_toString {n : Nat} {suffix : String} {limit : Nat} (hsuffix : (suffix, limit) ∈ decimalLimits)
    (h : n ≤ limit) : IsDecimal (toString n ++ suffix) := by
  obtain ⟨first, others, hdigits, hvalue, hzero⟩ := Digit.exists_toDigits n
  refine ⟨first, others, suffix, limit, ?_, fun hfirst => hzero (Fin.ext hfirst), hsuffix, hvalue ▸ h⟩
  rw [String.toList_append, Numeral.toList_toString, hdigits]

/-- Digits without a leading zero are read to base ten, or to base eight if they are zero. -/
theorem magnitude?_cons {first : Digit} {rest : List Digit} (hzero : first = 0 → rest = []) :
    ∃ base, magnitude? (first :: rest) = some (base, Digit.value (first :: rest)) ∧
      (base = .octal → Digit.value (first :: rest) = 0) := by
  by_cases hfirst : first = 0
  · obtain rfl := hzero hfirst
    subst hfirst
    exact ⟨.octal, rfl, fun _ => rfl⟩
  · refine ⟨.decimal, ?_, nofun⟩
    rw [magnitude?]
    · nofun
    · exact fun _ heq => hfirst (List.cons.inj heq).1

section Typing

variable (model : DataModel) {n : Nat} {suffix : String} {limit : Nat}

/-- The limit of a suffix is the greatest integer of a type that its constants can have. -/
theorem exists_typed_limit {entry : String × Nat} (h : entry ∈ decimalLimits) :
    ∃ info type, suffixes.lookup entry.1 = some info ∧ Numeral.NoDigit entry.1.toList ∧
      (∀ base, type ∈ candidates base info) ∧ type.least model ≤ 0 ∧ type.greatest model = entry.2 := by
  simp only [decimalLimits, List.mem_cons, List.not_mem_nil, or_false] at h
  rcases h with rfl | rfl | rfl | rfl
  · exact ⟨⟨false, .int⟩, ⟨.longLong, true⟩, rfl, Numeral.noDigit_nil, fun base => by cases base <;> decide,
      by cases model <;> decide, rfl⟩
  · exact ⟨⟨false, .longLong⟩, ⟨.longLong, true⟩, rfl, Numeral.noDigit_cons (by decide),
      fun base => by cases base <;> decide, by cases model <;> decide, rfl⟩
  · exact ⟨⟨true, .longLong⟩, ⟨.longLong, false⟩, rfl, Numeral.noDigit_cons (by decide),
      fun base => by cases base <;> decide, Int.le_refl 0, rfl⟩
  · exact ⟨⟨true, .int⟩, ⟨.int, false⟩, rfl, Numeral.noDigit_cons (by decide),
      fun base => by cases base <;> decide, Int.le_refl 0, rfl⟩

/-- The types that a decimal constant can have are signed exactly if its suffix is not unsigned. -/
theorem signed_of_mem_candidates {info : Suffix} {type : IntType} (h : type ∈ candidates .decimal info) :
    type.signed = !info.isUnsigned := by
  obtain ⟨rank, -, hrank⟩ := List.mem_flatMap.mp h
  cases hunsigned : info.isUnsigned with
  | true => simp_all
  | false => simp_all

/-- A decimal constant has its magnitude as its value. The suffix says whether the type of a positive one is signed. -/
theorem exists_constantValue (hsuffix : (suffix, limit) ∈ decimalLimits) (h : n ≤ limit) :
    ∃ v : IntValue model, constantValue? model (toString n ++ suffix) = some v ∧ v.value = n ∧
      (0 < n → ∀ info ∈ suffixes.lookup suffix, v.type.signed = !info.isUnsigned) := by
  obtain ⟨first, rest, hdigits, hvalue, hzero⟩ := Digit.exists_toDigits n
  obtain ⟨base, hmagnitude, hoctal⟩ := magnitude?_cons hzero
  obtain ⟨info, wide, hinfo, hnoDigit, hwide, hleast, hgreatest⟩ := exists_typed_limit model hsuffix
  rw [hvalue] at hmagnitude hoctal
  have hholds : wide.Holds model n := ⟨by omega, by rw [hgreatest]; exact Int.ofNat_le.mpr h⟩
  have hsome : ((candidates base info).find? fun type => type.Holds model n).isSome = true :=
    List.find?_isSome.mpr ⟨wide, hwide base, decide_eq_true hholds⟩
  obtain ⟨type, hfind⟩ := Option.isSome_iff_exists.mp hsome
  have htype : type.Holds model n := by simpa using List.find?_some hfind
  have hspan : Numeral.spanDigits (toString n ++ suffix).toList = (first :: rest, suffix.toList) := by
    rw [String.toList_append, Numeral.toList_toString, hdigits, Numeral.spanDigits_append _ hnoDigit]
  refine ⟨⟨type, n, htype⟩, ?_, rfl, fun hpos other hother => ?_⟩
  · simp only [constantValue?, hspan, hmagnitude, String.ofList_toList, hinfo, hfind, IntValue.ofInt?_eq htype,
      Option.bind_eq_bind, Option.bind_some]
  · obtain rfl : info = other := Option.some.inj (hinfo.symm.trans hother)
    cases base with
    | decimal => exact signed_of_mem_candidates (List.mem_of_find?_eq_some hfind)
    | octal => exact absurd (hoctal rfl) (Nat.ne_of_gt hpos)

end Typing

/-- Where a decimal constant starts with a zero, no digit follows. -/
theorem IsDecimal.noDigit_behind_zero {text : String} (h : IsDecimal text) {rest : List Char}
    (htext : text.toList = '0' :: rest) : Numeral.NoDigit rest := by
  obtain ⟨first, others, suffix, limit, hchars, hzero, hsuffix, -⟩ := h
  obtain ⟨-, -, -, hnoDigit, -⟩ := exists_typed_limit .longIs64 hsuffix
  have hchar : ∀ d : Digit, d.char = '0' → d.val = 0 := by decide
  rw [htext, List.map_cons, List.cons_append] at hchars
  obtain ⟨hfirst, hrest⟩ := List.cons.inj hchars
  obtain rfl := hzero (hchar first hfirst.symm)
  rw [hrest]
  exact hnoDigit

end DeclTree.C

namespace DeclTree

open C

/-- The integer that a literal is. -/
def Literal.integer? : Literal → Option Int
  | .i8 n => some n.toInt
  | .i16 n => some n.toInt
  | .i32 n => some n.toInt
  | .i64 n => some n.toInt
  | .u8 n => some n.toNat
  | .u16 n => some n.toNat
  | .u32 n => some n.toNat
  | .u64 n => some n.toNat
  | .string _ | .char _ | .f32 _ | .f64 _ => none

/-- The lexer finds the atoms of a literal. -/
theorem Literal.lex_text (value : Literal) : lex (literalText value) = some (Row.atoms value.row) := by
  have hend : MayFollow [] := nofun
  have hkept : Row.Kept value.row [] := (value.kept_row_iff hend).mpr (by simp [dotted, startsWith])
  rw [lex, ← value.chars_row]
  exact (lexBehind_chars_eq_iff value.isSolid_row).mpr hkept

/-- An integer whose magnitude fits the constants with the suffix of a type, and which is negative only if these are
signed. -/
def Fits (n : Int) (type : Primitive) : Prop :=
  ∃ limit, (type.suffix, limit) ∈ decimalLimits ∧ n.natAbs ≤ limit ∧
    (n < 0 → ∀ info ∈ suffixes.lookup type.suffix, info.isUnsigned = false)

/-- What is printed for an integer is read as the integer. -/
theorem Fits.exists_denotes (model : DataModel) {n : Int} {type : Primitive} (h : Fits n type) {text : String}
    (hlex : lex text = some (Row.atoms (intRow n type))) :
    ∃ v : IntValue model, v.value = n ∧ Denotes model text v := by
  obtain ⟨limit, hlimit, hle, hnegative⟩ := h
  obtain ⟨v, hv, hvalue, hsigned⟩ := exists_constantValue model hlimit hle
  have hconstant : Derives primaryLevel [.constant (toString n.natAbs ++ type.suffix)] _ :=
    .constant (hasSign_toString_nat n.natAbs type.suffix)
  by_cases hn : n < 0
  · have hneg : v.type.signed = true := by
      obtain ⟨info, -, hinfo, -⟩ := exists_typed_limit model hlimit
      rw [hsigned (by omega) info hinfo, hnegative hn info hinfo, Bool.not_false]
    have hminus : -v.value = n := by omega
    have hholds : v.type.Holds model n := hminus ▸ v.fits.neg hneg (by omega)
    rw [intRow, decide_eq_true hn] at hlex
    have hderives := Derives.unary (show unaryOf? "-" = some .neg from rfl) (hconstant.loosen (by decide))
    refine ⟨⟨v.type, n, hholds⟩, rfl, _, _, _, hlex, rfl, hderives.loosen (Nat.zero_le _), ?_⟩
    simp only [Tree.value?, hv, Option.bind_some, IntValue.neg, hminus, IntValue.ofInt?_eq hholds]
  · rw [intRow, decide_eq_false hn] at hlex
    exact ⟨v, by omega, _, _, _, hlex, rfl, hconstant.loosen (Nat.zero_le _), hv⟩

/-- The least integer of 64 bits is read as itself. -/
theorem exists_denotes_least (model : DataModel) : ∃ v : IntValue model,
    v.value = Int64.minValue.toInt ∧ Denotes model (literalText (.i64 Int64.minValue)) v := by
  have hholds : IntType.Holds model ⟨.longLong, true⟩ (-2 ^ 63) := by cases model <;> decide
  have hleft : Derives unaryLevel [.mark "-", .constant "9223372036854775807LL"] _ :=
    .unary rfl (Derives.loosen (by decide) (.constant rfl))
  have hright : Derives primaryLevel [.constant "1"] _ := .constant rfl
  have hdifference := Derives.binary (show binaryOf? "-" = some .sub from rfl) (hleft.loosen (by decide))
    (hright.loosen (by decide))
  have hlex : lex (literalText (.i64 Int64.minValue)) = some
      [.mark "(", .mark "-", .number "9223372036854775807LL", .mark "-", .number "1", .mark ")"] := by
    rw [Literal.lex_text]
    decide +kernel
  refine ⟨⟨⟨.longLong, true⟩, -2 ^ 63, hholds⟩, rfl, _, _, _, hlex, rfl,
    .loosen (Nat.zero_le _) (.paren (hdifference.loosen (Nat.zero_le _))), ?_⟩
  cases model <;> rfl

/-- A number whose magnitude a 64-bit signed type can hold fits a type with a signed suffix. -/
theorem fits_signed {n : Int} {type : Primitive} (hsuffix : type.suffix ∈ ["", "LL"]) (h : n.natAbs ≤ 2 ^ 63 - 1) :
    Fits n type := by
  rcases List.mem_pair.mp hsuffix with heq | heq
  all_goals
    rw [Fits, heq]
    exact ⟨2 ^ 63 - 1, by decide, h, fun _ => by decide⟩

/-- A natural number fits a type if it keeps the limit of the suffix. -/
theorem fits_unsigned {n : Nat} {type : Primitive} {limit : Nat} (hlimit : (type.suffix, limit) ∈ decimalLimits)
    (h : n ≤ limit) : Fits n type :=
  ⟨limit, hlimit, h, fun hneg => absurd hneg (Int.not_lt.mpr (Int.natCast_nonneg n))⟩

/-- An integer literal is printed as its integer, or it is the least one of 64 bits. -/
theorem Literal.integer?_cases {value : Literal} {n : Int} (h : value.integer? = some n) :
    (value ≠ .i64 Int64.minValue ∧ ∃ type, literalText value = intText n type ∧ value.row = intRow n type ∧
      Fits n type) ∨ value = .i64 Int64.minValue := by
  have hU : ("U", 2 ^ 32 - 1) ∈ decimalLimits := by decide
  have hULL : ("ULL", 2 ^ 64 - 1) ∈ decimalLimits := by decide
  cases value with
  | string _ | char _ | f32 _ | f64 _ => cases h
  | i8 m =>
    cases h
    have hlow : -2 ^ 7 ≤ m.toInt := m.minValue_le_toInt
    have hhigh : m.toInt ≤ 2 ^ 7 - 1 := m.toInt_le
    exact .inl ⟨nofun, .i8, rfl, rfl, fits_signed (by decide) (by omega)⟩
  | i16 m =>
    cases h
    have hlow : -2 ^ 15 ≤ m.toInt := m.minValue_le_toInt
    have hhigh : m.toInt ≤ 2 ^ 15 - 1 := m.toInt_le
    exact .inl ⟨nofun, .i16, rfl, rfl, fits_signed (by decide) (by omega)⟩
  | i32 m =>
    cases h
    have hlow : -2 ^ 31 ≤ m.toInt := m.minValue_le_toInt
    have hhigh : m.toInt ≤ 2 ^ 31 - 1 := m.toInt_le
    exact .inl ⟨nofun, .i32, rfl, rfl, fits_signed (by decide) (by omega)⟩
  | i64 m =>
    by_cases hm : m = Int64.minValue
    · exact .inr (by rw [hm])
    · cases h
      have hlow : -2 ^ 63 ≤ m.toInt := m.minValue_le_toInt
      have hhigh : m.toInt ≤ 2 ^ 63 - 1 := m.toInt_le
      have hne : m.toInt ≠ -2 ^ 63 := fun heq => hm (Int64.toInt_inj.mp heq)
      exact .inl ⟨fun heq => hm (Literal.i64.inj heq), .i64, if_neg hm, if_neg hm, fits_signed (by decide) (by omega)⟩
  | u8 m =>
    cases h
    have hhigh := m.toNat_lt
    exact .inl ⟨nofun, .u8, rfl, rfl, fits_unsigned hU (by omega)⟩
  | u16 m =>
    cases h
    have hhigh := m.toNat_lt
    exact .inl ⟨nofun, .u16, rfl, rfl, fits_unsigned hU (by omega)⟩
  | u32 m =>
    cases h
    have hhigh := m.toNat_lt
    exact .inl ⟨nofun, .u32, rfl, rfl, fits_unsigned hU (by omega)⟩
  | u64 m =>
    cases h
    have hhigh := m.toNat_lt
    exact .inl ⟨nofun, .u64, rfl, rfl, fits_unsigned hULL (by omega)⟩

/-- Integer literals keep their value. Whatever the width of `long`, what is printed for an integer literal is read as
its integer and as nothing else. It is a decimal constant behind an optional minus, or for the least integer of 64 bits
a difference of two in parentheses; the constants fit their types, and none starts with the zero of an octal one. -/
theorem integer_constants_keep_their_value (model : DataModel) {value : Literal} {n : Int}
    (h : value.integer? = some n) :
    (∃ v : IntValue model, v.value = n ∧ ∀ read, Denotes model (literalText value) read ↔ read = v) ∧
    ((value ≠ .i64 Int64.minValue ∧ ∃ constant, IsDecimal constant ∧
        literalText value = (if n < 0 then "-" else "") ++ constant) ∨
      (value = .i64 Int64.minValue ∧ ∃ first second, IsDecimal first ∧ IsDecimal second ∧
        literalText value = "(-" ++ first ++ " - " ++ second ++ ")")) ∧
    ∀ rest, (literalText value).toList = '0' :: rest → Numeral.NoDigit rest := by
  have hunique {v : IntValue model} (hvalue : v.value = n) (hv : Denotes model (literalText value) v) :
      ∃ v : IntValue model, v.value = n ∧ ∀ read, Denotes model (literalText value) read ↔ read = v := by
    refine ⟨v, hvalue, fun read => ⟨fun hread => hread.unique hv, ?_⟩⟩
    rintro rfl
    exact hv
  rcases value.integer?_cases h with ⟨hne, type, htext, hrow, hfits⟩ | hleast
  · obtain ⟨v, hvalue, hv⟩ := hfits.exists_denotes model (hrow ▸ value.lex_text)
    obtain ⟨limit, hlimit, hle, -⟩ := hfits
    have hdecimal := isDecimal_toString hlimit hle
    rw [intText_eq] at htext
    refine ⟨hunique hvalue hv, .inl ⟨hne, _, hdecimal, htext⟩, fun rest hrest => ?_⟩
    rw [htext] at hrest
    by_cases hn : n < 0
    · simp [hn] at hrest
    · rw [if_neg hn, String.empty_append] at hrest
      exact hdecimal.noDigit_behind_zero hrest
  · obtain ⟨v, hvalue, hv⟩ := exists_denotes_least model
    subst hleast
    have hvalue : v.value = n := hvalue.trans (Option.some.inj h)
    have hLL : ("LL", 2 ^ 63 - 1) ∈ decimalLimits := by decide
    have hplain : ("", 2 ^ 63 - 1) ∈ decimalLimits := by decide
    have hfirst := isDecimal_toString hLL (Nat.le_refl _)
    have hsecond := isDecimal_toString (n := 1) hplain (by decide)
    have htext : literalText (.i64 Int64.minValue) =
        "(-" ++ (toString (2 ^ 63 - 1) ++ "LL") ++ " - " ++ (toString 1 ++ "") ++ ")" := by decide +kernel
    refine ⟨hunique hvalue hv, .inr ⟨rfl, _, _, hfirst, hsecond, htext⟩, fun rest hrest => ?_⟩
    rw [htext] at hrest
    cases (List.cons.inj hrest).1

/-- The least 64-bit integer keeps its value, although it is written as a difference. -/
theorem least_constant_keeps_its_value : (Literal.i64 Int64.minValue).integer? = some (-9223372036854775808) ∧
    ∃ v : IntValue .longIs32, v.value = -9223372036854775808 ∧
      Denotes .longIs32 "(-9223372036854775807LL - 1)" v := by
  have hinteger : (Literal.i64 Int64.minValue).integer? = some (-9223372036854775808) := rfl
  obtain ⟨⟨v, hvalue, hread⟩, -⟩ := integer_constants_keep_their_value .longIs32 hinteger
  exact ⟨hinteger, v, hvalue, (hread v).mpr rfl⟩

end DeclTree

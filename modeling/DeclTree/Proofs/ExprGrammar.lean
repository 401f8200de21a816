import DeclTree.C.Expr

/-!
# The grammar of expressions

C's expressions in productions on symbols, which do not say whether a glyph stands for an operator or for a bracket, a
pointer or a comma. There are ten levels of binary operators, each of which groups to the left, and above them the
levels of prefix operators and casts, of postfix operators, and of primaries. A cast is told from a parenthesis by the
keyword behind the bracket. A constant is one symbol together with its sign: with a sign it is no primary.

The grammar is unambiguous. A reader that never goes back, with a bound on its depth, finds the tree of every derivation
(`Derives.reads`), so two derivations of one row have the same tree.
-/

namespace DeclTree

/-- The level of a binary operator in C, from the one that binds least. -/
def BinaryOp.level : BinaryOp → Nat
  | or => 0
  | and => 1
  | bitOr => 2
  | bitXor => 3
  | bitAnd => 4
  | eq | ne => 5
  | lt | gt | le | ge => 6
  | shl | shr => 7
  | add | sub => 8
  | mul | div | mod => 9

/-- Every binary operator binds less tightly than the unary ones. -/
theorem BinaryOp.level_lt (op : BinaryOp) : op.level < 10 := by cases op <;> decide

namespace C

/-- What a token is to the grammar. -/
inductive Symbol where
  | mark (glyph : String)
  | keyword (word : String)
  | identifier (name : String)
  | constant (text : String)
deriving DecidableEq

/-- What the grammar makes of symbols. The type of a cast is kept as it is written. -/
inductive Tree where
  | paren (inner : Tree)
  | unary (op : UnaryOp) (operand : Tree)
  | binary (left : Tree) (op : BinaryOp) (right : Tree)
  | cast (type : List Symbol) (operand : Tree)
  | field (object : Tree) (name : String)
  | index (object : Tree) (position : Tree)
  | call (callee : Tree) (arguments : List Tree)
  | ident (name : String)
  | constant (text : String)
  | braces (elements : List Tree)

/-- The level of prefix operators and casts. -/
def unaryLevel : Nat := 10

/-- The level of postfix operators. -/
def postfixLevel : Nat := 11

/-- The level of primaries. -/
def primaryLevel : Nat := 12

/-- The prefix operator that a glyph is. -/
def unaryOf? : String → Option UnaryOp
  | "!" => some .not
  | "~" => some .bitNot
  | "-" => some .neg
  | "*" => some .deref
  | "&" => some .ref
  | _ => none

/-- The binary operator that a glyph is. -/
def binaryOf? : String → Option BinaryOp
  | "||" => some .or
  | "&&" => some .and
  | "|" => some .bitOr
  | "^" => some .bitXor
  | "&" => some .bitAnd
  | "==" => some .eq
  | "!=" => some .ne
  | "<" => some .lt
  | ">" => some .gt
  | "<=" => some .le
  | ">=" => some .ge
  | "<<" => some .shl
  | ">>" => some .shr
  | "+" => some .add
  | "-" => some .sub
  | "*" => some .mul
  | "/" => some .div
  | "%" => some .mod
  | _ => none

/-- Whether a constant starts with a minus. -/
def hasSign (text : String) : Bool := text.toList.head? == some '-'

/-- The names of types: words, or a tag behind its keyword, and stars. -/
inductive IsTypeName : List Symbol → Prop where
  | words (first : String) (rest : List String) : IsTypeName (.keyword first :: rest.map .keyword)
  | tagged (kind : TagKind) (tag : String) : IsTypeName [.keyword kind.keyword, .identifier tag]
  | pointer {row : List Symbol} (h : IsTypeName row) : IsTypeName (row ++ [.mark "*"])

mutual

/-- A row of symbols is derived as a tree at a level. -/
inductive Derives : Nat → List Symbol → Tree → Prop where
  | tighter {level : Nat} {row : List Symbol} {t : Tree} (hlevel : level < primaryLevel)
    (h : Derives (level + 1) row t) : Derives level row t
  | binary {glyph : String} {op : BinaryOp} {left right : List Symbol} {l r : Tree} (hop : binaryOf? glyph = some op)
    (hleft : Derives op.level left l) (hright : Derives (op.level + 1) right r) :
    Derives op.level (left ++ .mark glyph :: right) (.binary l op r)
  | unary {glyph : String} {op : UnaryOp} {row : List Symbol} {t : Tree} (hop : unaryOf? glyph = some op)
    (h : Derives unaryLevel row t) : Derives unaryLevel (.mark glyph :: row) (.unary op t)
  | cast {type row : List Symbol} {t : Tree} (htype : IsTypeName type) (h : Derives unaryLevel row t) :
    Derives unaryLevel (.mark "(" :: (type ++ .mark ")" :: row)) (.cast type t)
  | signed {text : String} (htext : hasSign text = true) : Derives unaryLevel [.constant text] (.constant text)
  | field {row : List Symbol} {t : Tree} (name : String) (h : Derives postfixLevel row t) :
    Derives postfixLevel (row ++ [.mark ".", .identifier name]) (.field t name)
  | index {row position : List Symbol} {t p : Tree} (h : Derives postfixLevel row t)
    (hposition : Derives 0 position p) :
    Derives postfixLevel (row ++ .mark "[" :: (position ++ [.mark "]"])) (.index t p)
  | call {row arguments : List Symbol} {t : Tree} {ts : List Tree} (h : Derives postfixLevel row t)
    (harguments : DerivesList arguments ts) :
    Derives postfixLevel (row ++ .mark "(" :: (arguments ++ [.mark ")"])) (.call t ts)
  | paren {row : List Symbol} {t : Tree} (h : Derives 0 row t) :
    Derives primaryLevel (.mark "(" :: (row ++ [.mark ")"])) (.paren t)
  | ident (name : String) : Derives primaryLevel [.identifier name] (.ident name)
  | constant {text : String} (htext : hasSign text = false) : Derives primaryLevel [.constant text] (.constant text)
  | braces {elements : List Symbol} {ts : List Tree} (h : DerivesList elements ts) :
    Derives primaryLevel (.mark "\x7b" :: (elements ++ [.mark "\x7d"])) (.braces ts)

/-- A row of symbols is derived as expressions with commas between. -/
inductive DerivesList : List Symbol → List Tree → Prop where
  | nil : DerivesList [] []
  | cons {first rest : List Symbol} {t : Tree} {ts : List Tree} (hfirst : Derives 0 first t)
    (hrest : DerivesMore rest ts) : DerivesList (first ++ rest) (t :: ts)

/-- A row of symbols is derived as expressions with a comma before each. -/
inductive DerivesMore : List Symbol → List Tree → Prop where
  | nil : DerivesMore [] []
  | cons {first rest : List Symbol} {t : Tree} {ts : List Tree} (hfirst : Derives 0 first t)
    (hrest : DerivesMore rest ts) : DerivesMore (.mark "," :: (first ++ rest)) (t :: ts)

end

/-- No expression binds more tightly than a primary one. -/
theorem Derives.level_le {level : Nat} {row : List Symbol} {t : Tree} (h : Derives level row t) :
    level ≤ primaryLevel := by
  cases h with
  | tighter hlevel _ => exact Nat.le_of_lt hlevel
  | binary _ _ _ => exact Nat.le_trans (Nat.le_of_lt (DeclTree.BinaryOp.level_lt _)) (by decide)
  | _ => decide

/-- What binds tightly can stand where less is asked for. -/
theorem Derives.loosen {level tight : Nat} (hle : level ≤ tight) {row : List Symbol} {t : Tree}
    (h : Derives tight row t) : Derives level row t := by
  induction hle with
  | refl => exact h
  | step _ ih => exact ih (.tighter h.level_le h)

/-- Pass over a glyph. -/
def expect (glyph : String) : List Symbol → Option (List Symbol)
  | [] => none
  | s :: rest => if s = .mark glyph then some rest else none

/-- The name that symbols start with, and what follows it. -/
def nameAt? : List Symbol → Option (String × List Symbol)
  | .identifier name :: rest => some (name, rest)
  | _ => none

/-- What makes an expression more than a postfix expression at its start. -/
inductive Opening where
  | unary (op : UnaryOp)
  | cast (type : List Symbol)
  | signed (text : String)

/-- Whether symbols start with a keyword. -/
def startsType : List Symbol → Bool
  | .keyword _ :: _ => true
  | _ => false

/-- The prefix operator, the cast or the constant with a sign that symbols start with, and what follows it. -/
def opening? : List Symbol → Option (Opening × List Symbol)
  | .mark glyph :: rest =>
    if glyph = "(" then
      if startsType rest then
        (expect ")" (rest.dropWhile (· ≠ .mark ")"))).map fun behind => (.cast (rest.takeWhile (· ≠ .mark ")")), behind)
      else none
    else (unaryOf? glyph).map fun op => (.unary op, rest)
  | .constant text :: rest => if hasSign text then some (.signed text, rest) else none
  | _ => none

/-- The operator of a level that symbols start with, and what follows it. -/
def operatorAt? (level : Nat) : List Symbol → Option (BinaryOp × List Symbol)
  | .mark glyph :: rest => ((binaryOf? glyph).filter (·.level = level)).map fun op => (op, rest)
  | _ => none

/-- Whether symbols start with a bracket that closes a list. -/
def closesList : List Symbol → Bool
  | s :: _ => s = .mark ")" || s = .mark "\x7d"
  | [] => false

mutual

/-- Read a tree at a level, as far as it goes. -/
def read : Nat → Nat → List Symbol → Option (Tree × List Symbol)
  | 0, _, _ => none
  | fuel + 1, level, input =>
    if level < unaryLevel then (read fuel (level + 1) input).bind fun (t, rest) => climb fuel level t rest
    else if level = unaryLevel then
      match opening? input with
      | some (.unary op, rest) => (read fuel unaryLevel rest).map fun (t, rest) => (.unary op t, rest)
      | some (.cast type, rest) => (read fuel unaryLevel rest).map fun (t, rest) => (.cast type t, rest)
      | some (.signed text, rest) => some (.constant text, rest)
      | none => read fuel postfixLevel input
    else if level = postfixLevel then (read fuel primaryLevel input).bind fun (t, rest) => extend fuel t rest
    else readPrimary fuel input

/-- Go on with operators of a level behind a tree. -/
def climb : Nat → Nat → Tree → List Symbol → Option (Tree × List Symbol)
  | 0, _, _, _ => none
  | fuel + 1, level, t, input =>
    match operatorAt? level input with
    | some (op, rest) =>
      (read fuel (level + 1) rest).bind fun (r, rest) => climb fuel level (.binary t op r) rest
    | none => some (t, input)

/-- Go on with postfix operators behind a tree. -/
def extend : Nat → Tree → List Symbol → Option (Tree × List Symbol)
  | 0, _, _ => none
  | _ + 1, t, [] => some (t, [])
  | fuel + 1, t, s :: rest =>
    if s = .mark "." then (nameAt? rest).bind fun (name, rest) => extend fuel (.field t name) rest
    else if s = .mark "[" then
      (read fuel 0 rest).bind fun (p, rest) => (expect "]" rest).bind fun rest => extend fuel (.index t p) rest
    else if s = .mark "(" then
      (readList fuel rest).bind fun (ts, rest) => (expect ")" rest).bind fun rest => extend fuel (.call t ts) rest
    else some (t, s :: rest)

/-- Read a primary. -/
def readPrimary : Nat → List Symbol → Option (Tree × List Symbol)
  | 0, _ => none
  | fuel + 1, .mark glyph :: rest =>
    if glyph = "(" then
      (read fuel 0 rest).bind fun (t, rest) => (expect ")" rest).map fun rest => (.paren t, rest)
    else if glyph = "\x7b" then
      (readList fuel rest).bind fun (ts, rest) => (expect "\x7d" rest).map fun rest => (.braces ts, rest)
    else none
  | _ + 1, .identifier name :: rest => some (.ident name, rest)
  | _ + 1, .constant text :: rest => some (.constant text, rest)
  | _ + 1, _ => none

/-- Read expressions with commas between, up to a closing bracket. -/
def readList : Nat → List Symbol → Option (List Tree × List Symbol)
  | 0, _ => none
  | fuel + 1, input =>
    if closesList input then some ([], input)
    else (read fuel 0 input).bind fun (t, rest) => (readMore fuel rest).map fun (ts, rest) => (t :: ts, rest)

/-- Read expressions with a comma before each. -/
def readMore : Nat → List Symbol → Option (List Tree × List Symbol)
  | 0, _ => none
  | fuel + 1, input =>
    match expect "," input with
    | some rest => (read fuel 0 rest).bind fun (t, rest) => (readMore fuel rest).map fun (ts, rest) => (t :: ts, rest)
    | none => some ([], input)

end

/-- With enough fuel the result is found. -/
def Settles {α : Type} (f : Nat → Option α) (a : α) : Prop := ∃ least, ∀ fuel, least ≤ fuel → f fuel = some a

namespace Settles

variable {α β γ : Type} {f : Nat → Option α} {g : Nat → Option β} {h : Nat → Option γ} {a : α} {b : β} {c : γ}

/-- A computation settles on one value at most. -/
theorem unique {other : α} (hf : Settles f a) (hother : Settles f other) : a = other := by
  obtain ⟨least, hf⟩ := hf
  obtain ⟨bound, hother⟩ := hother
  have heq := (hf (max least bound) (Nat.le_max_left ..)).symm.trans (hother (max least bound) (Nat.le_max_right ..))
  exact Option.some.inj heq

/-- A function that needs two others with one unit of fuel less. -/
theorem after_both (hf : Settles f a) (hg : Settles g b)
    (hstep : ∀ fuel, f fuel = some a → g fuel = some b → h (fuel + 1) = some c) : Settles h c := by
  obtain ⟨least, hf⟩ := hf
  obtain ⟨bound, hg⟩ := hg
  refine ⟨max least bound + 1, fun fuel hfuel => ?_⟩
  cases fuel with
  | zero => omega
  | succ fuel => exact hstep fuel (hf fuel (by omega)) (hg fuel (by omega))

/-- A step after a computation that settles settles. -/
theorem after (hf : Settles f a) (hstep : ∀ fuel, f fuel = some a → h (fuel + 1) = some c) : Settles h c :=
  hf.after_both hf fun fuel hfuel _ => hstep fuel hfuel

/-- A computation that needs no other one settles. -/
theorem once (hstep : ∀ fuel, h (fuel + 1) = some c) : Settles h c :=
  after (f := fun _ => some ()) ⟨0, fun _ _ => rfl⟩ fun fuel _ => hstep fuel

end Settles

/-- Whether an expression can start with a symbol. -/
def startsExpr : Symbol → Bool
  | .mark glyph => glyph = "(" || glyph = "\x7b" || (unaryOf? glyph).isSome
  | .identifier _ | .constant _ => true
  | .keyword _ => false

/-- An expression starts with a symbol that can start one. -/
theorem Derives.starts : ∀ {level : Nat} {row : List Symbol} {t : Tree}, Derives level row t →
    ∃ first rest, row = first :: rest ∧ startsExpr first = true
  | _, _, _, .tighter _ h => h.starts
  | _, _, _, .binary _ hleft _ => by
    obtain ⟨first, rest, rfl, hstarts⟩ := hleft.starts
    exact ⟨first, _, rfl, hstarts⟩
  | _, _, _, .unary hop _ => ⟨_, _, rfl, by simp [startsExpr, hop]⟩
  | _, _, _, .cast _ _ => ⟨_, _, rfl, rfl⟩
  | _, _, _, .signed _ => ⟨_, _, rfl, rfl⟩
  | _, _, _, .field _ h | _, _, _, .index h _ | _, _, _, .call h _ => by
    obtain ⟨first, rest, rfl, hstarts⟩ := h.starts
    exact ⟨first, _, rfl, hstarts⟩
  | _, _, _, .paren _ => ⟨_, _, rfl, rfl⟩
  | _, _, _, .ident _ => ⟨_, _, rfl, rfl⟩
  | _, _, _, .constant _ => ⟨_, _, rfl, rfl⟩
  | _, _, _, .braces _ => ⟨_, _, rfl, rfl⟩

/-- No expression starts with a keyword. -/
theorem Derives.startsType_eq {level : Nat} {row : List Symbol} {t : Tree} (h : Derives level row t)
    (more : List Symbol) : startsType (row ++ more) = false := by
  obtain ⟨first, rest, rfl, hstarts⟩ := h.starts
  cases first with
  | keyword word => cases hstarts
  | _ => rfl

/-- A postfix expression starts with no prefix operator, no cast and no sign. -/
theorem Derives.opening?_eq : ∀ {level : Nat} {row : List Symbol} {t : Tree}, Derives level row t →
    postfixLevel ≤ level → ∀ more, opening? (row ++ more) = none
  | _, _, _, .tighter _ h, hlevel, more => h.opening?_eq (Nat.le_succ_of_le hlevel) more
  | _, _, _, @Derives.binary _ op _ _ _ _ _ _ _, hlevel, _ =>
    absurd (Nat.lt_of_le_of_lt hlevel op.level_lt) (by decide)
  | _, _, _, .unary _ _, hlevel, _ => absurd hlevel (by decide)
  | _, _, _, .cast _ _, hlevel, _ => absurd hlevel (by decide)
  | _, _, _, .signed _, hlevel, _ => absurd hlevel (by decide)
  | _, _, _, .field _ h, hlevel, more | _, _, _, .index h _, hlevel, more | _, _, _, .call h _, hlevel, more => by
    rw [List.append_assoc]
    exact h.opening?_eq hlevel _
  | _, _, _, .paren h, _, more => by
    simp [opening?, h.startsType_eq]
  | _, _, _, .ident _, _, _ => rfl
  | _, _, _, .constant htext, _, _ => by simp [opening?, htext]
  | _, _, _, .braces _, _, _ => rfl

/-- Whether symbols start with what makes a postfix expression longer. -/
def isExtended : List Symbol → Bool
  | [] => false
  | s :: _ => s = .mark "." || s = .mark "[" || s = .mark "("

/-- No expression of a level goes on with the symbols. -/
structure Stops (level : Nat) (rest : List Symbol) : Prop where
  operator : ∀ l, level ≤ l → operatorAt? l rest = none
  isExtended : level ≤ postfixLevel → isExtended rest = false

namespace Stops

variable {level : Nat} {rest : List Symbol}

/-- What ends an expression ends one that binds more tightly. -/
theorem mono {tight : Nat} (h : Stops level rest) (hle : level ≤ tight) : Stops tight rest :=
  ⟨fun l hl => h.operator l (Nat.le_trans hle hl), fun htight => h.isExtended (Nat.le_trans hle htight)⟩

/-- The end of the input ends every expression. -/
theorem nil : Stops level [] := ⟨fun _ _ => rfl, fun _ => rfl⟩

/-- An expression ends before a closing bracket or a comma. -/
theorem mark {glyph : String} (h : glyph ∈ [")", "]", "\x7d", ","]) (rest : List Symbol) :
    Stops level (.mark glyph :: rest) := by
  simp only [List.mem_cons, List.not_mem_nil, or_false] at h
  rcases h with rfl | rfl | rfl | rfl <;> exact ⟨fun _ _ => rfl, fun _ => rfl⟩

/-- A tight expression ends before an operator that binds less. -/
theorem binary {glyph : String} {op : BinaryOp} (hop : binaryOf? glyph = some op) (rest : List Symbol) :
    Stops (op.level + 1) (.mark glyph :: rest) := by
  constructor
  · intro l hl
    have hne : op.level ≠ l := by omega
    simp [operatorAt?, hop, hne]
  · intro _
    have hne (other : String) (hother : binaryOf? other = none) : glyph ≠ other := by
      rintro rfl
      simp [hop] at hother
    simp [C.isExtended, hne "." rfl, hne "[" rfl, hne "(" rfl]

end Stops

/-- What is read at a level when a tree has been read and symbols follow. -/
def Continues (level : Nat) (t : Tree) (rest : List Symbol) (result : Tree × List Symbol) : Prop :=
  if level < unaryLevel then Settles (climb · level t rest) result
  else if level = postfixLevel then Settles (extend · t rest) result
  else result = (t, rest)

/-- Where an expression ends, no operator is taken. -/
theorem Stops.climb_eq {level : Nat} {rest : List Symbol} (h : Stops level rest) (t : Tree) :
    Settles (climb · level t rest) (t, rest) := by
  refine .once fun fuel => ?_
  rw [climb, h.operator level (Nat.le_refl _)]

/-- Where an expression ends, no call, index or field is taken. -/
theorem Stops.extend_eq {rest : List Symbol} (h : Stops postfixLevel rest) (t : Tree) :
    Settles (extend · t rest) (t, rest) := by
  refine .once fun fuel => ?_
  cases rest with
  | nil => rw [extend]
  | cons s rest =>
    have hs := h.isExtended (Nat.le_refl _)
    simp only [C.isExtended, Bool.or_eq_false_iff, decide_eq_false_iff_not] at hs
    rw [extend, if_neg hs.1.1, if_neg hs.1.2, if_neg hs.2]

/-- Where an expression stops, nothing more is read. -/
theorem Stops.continues {level : Nat} {rest : List Symbol} (h : Stops level rest) (t : Tree) :
    Continues level t rest (t, rest) := by
  unfold Continues
  split
  · exact h.climb_eq t
  · split
    · next hlevel => exact (hlevel ▸ h).extend_eq t
    · rfl

/-- What closes a list ends every expression. -/
theorem stops_of_closesList {level : Nat} {rest : List Symbol} (h : closesList rest = true) : Stops level rest := by
  cases rest with
  | nil => exact .nil
  | cons s rest =>
    simp only [closesList, Bool.or_eq_true, decide_eq_true_eq] at h
    rcases h with rfl | rfl <;> exact .mark (by decide) rest

/-- What closes a list is no comma. -/
theorem expect_comma_eq {rest : List Symbol} (h : closesList rest = true) : expect "," rest = none := by
  cases rest with
  | nil => rfl
  | cons s rest =>
    simp only [closesList, Bool.or_eq_true, decide_eq_true_eq] at h
    rcases h with rfl | rfl <;> rfl

/-- No expression starts with a bracket that closes a list. -/
theorem Derives.closesList_eq {level : Nat} {row : List Symbol} {t : Tree} (h : Derives level row t)
    (more : List Symbol) : closesList (row ++ more) = false := by
  obtain ⟨first, rest, rfl, hstarts⟩ := h.starts
  have hne (other : Symbol) (hother : startsExpr other = false) : first ≠ other := by
    rintro rfl
    simp [hstarts] at hother
  simp [closesList, hne (.mark ")") rfl, hne (.mark "\x7d") rfl]

/-- A mark that is expected is taken. -/
theorem expect_mark (glyph : String) (rest : List Symbol) : expect glyph (.mark glyph :: rest) = some rest := if_pos rfl

/-- A type name starts with a keyword and has no bracket in it. -/
theorem IsTypeName.shape {row : List Symbol} (h : IsTypeName row) :
    (∀ more, startsType (row ++ more) = true) ∧ ∀ s ∈ row, s ≠ .mark ")" := by
  induction h with
  | words first rest =>
    refine ⟨fun _ => rfl, List.forall_mem_cons.mpr ⟨nofun, fun s hs => ?_⟩⟩
    obtain ⟨word, -, rfl⟩ := List.mem_map.mp hs
    nofun
  | tagged kind tag => exact ⟨fun _ => rfl, by simp⟩
  | pointer _ ih =>
    refine ⟨fun more => ?_, List.forall_mem_append.mpr ⟨ih.2, by simp⟩⟩
    rw [List.append_assoc]
    exact ih.1 _

/-- A cast is found by the keyword behind the bracket. -/
theorem IsTypeName.opening?_eq {type : List Symbol} (h : IsTypeName type) (rest : List Symbol) :
    opening? (.mark "(" :: (type ++ .mark ")" :: rest)) = some (.cast type, rest) := by
  obtain ⟨hstarts, hmem⟩ := h.shape
  have hmem : ∀ s ∈ type, decide (s ≠ .mark ")") = true := fun s hs => decide_eq_true (hmem s hs)
  rw [opening?, if_pos rfl, if_pos (hstarts _), List.dropWhile_append_of_pos hmem, List.takeWhile_append_of_pos hmem]
  simp [expect]

/-- A unary operator opens a unary expression. -/
theorem opening?_unary {glyph : String} {op : UnaryOp} (hop : unaryOf? glyph = some op) (rest : List Symbol) :
    opening? (.mark glyph :: rest) = some (.unary op, rest) := by
  have hne : glyph ≠ "(" := by
    rintro rfl
    cases hop
  rw [opening?, if_neg hne, hop, Option.map_some]

/-- A binary operator is found at its own level. -/
theorem operatorAt?_mark {glyph : String} {op : BinaryOp} (hop : binaryOf? glyph = some op) (rest : List Symbol) :
    operatorAt? op.level (.mark glyph :: rest) = some (op, rest) := by
  simp [operatorAt?, hop]

section Levels

variable (fuel : Nat) (input : List Symbol)

/-- A level of binary operators is read as operands of the next level and the operators between them. -/
theorem read_binary {level : Nat} (h : level < unaryLevel) :
    read (fuel + 1) level input = (read fuel (level + 1) input).bind fun (t, rest) => climb fuel level t rest := by
  rw [read, if_pos h]

/-- An expression with calls, indices and fields is read as a primary one and what is behind it. -/
theorem read_extended : read (fuel + 1) postfixLevel input =
    (read fuel primaryLevel input).bind fun (t, rest) => extend fuel t rest := by
  rw [read, if_neg (by decide), if_neg (by decide), if_pos rfl]

/-- A primary expression is read by itself. -/
theorem read_primary : read (fuel + 1) primaryLevel input = readPrimary fuel input := by
  rw [read, if_neg (by decide), if_neg (by decide), if_neg (by decide)]

end Levels

section Unary

variable {fuel : Nat} {input rest : List Symbol}

/-- Behind a unary operator its operand is read. -/
theorem read_unary {op : UnaryOp} (h : opening? input = some (.unary op, rest)) :
    read (fuel + 1) unaryLevel input = (read fuel unaryLevel rest).map fun (t, rest) => (.unary op t, rest) := by
  rw [read, if_neg (by decide), if_pos rfl, h]

/-- Behind a cast its operand is read. -/
theorem read_cast {type : List Symbol} (h : opening? input = some (.cast type, rest)) :
    read (fuel + 1) unaryLevel input = (read fuel unaryLevel rest).map fun (t, rest) => (.cast type t, rest) := by
  rw [read, if_neg (by decide), if_pos rfl, h]

/-- A constant with a sign is read as one constant. -/
theorem read_signed {text : String} (h : opening? input = some (.signed text, rest)) :
    read (fuel + 1) unaryLevel input = some (.constant text, rest) := by
  rw [read, if_neg (by decide), if_pos rfl, h]

/-- Where nothing opens a unary expression, one that binds more tightly is read. -/
theorem read_unopened (h : opening? input = none) :
    read (fuel + 1) unaryLevel input = read fuel postfixLevel input := by
  rw [read, if_neg (by decide), if_pos rfl, h]

end Unary

/-- Reading at the level of primaries is reading a primary. -/
theorem Settles.primary {input : List Symbol} {result : Tree × List Symbol} (h : Settles (readPrimary · input) result) :
    Settles (read · primaryLevel input) result :=
  h.after fun fuel hfuel => by rw [read_primary, hfuel]

mutual

/-- The tree of a derivation is read, whatever follows that does not belong to a tighter expression, and then reading
goes on behind it. -/
theorem Derives.reads : ∀ {level : Nat} {row : List Symbol} {t : Tree}, Derives level row t →
    ∀ (rest : List Symbol) {result : Tree × List Symbol}, Stops (level + 1) rest → Continues level t rest result →
      Settles (read · level (row ++ rest)) result
  | level, _, _, .tighter hlevel h, rest, result, hstops, hcontinues => by
    have htight := h.reads rest (hstops.mono (Nat.le_succ _)) (hstops.continues _)
    unfold Continues at hcontinues
    split at hcontinues
    · next hbinary =>
      exact htight.after_both hcontinues fun fuel hfirst hrest => by simp [read_binary fuel _ hbinary, hfirst, hrest]
    · next hbinary =>
      split at hcontinues
      · next hextended =>
        subst hextended
        exact htight.after_both hcontinues fun fuel hfirst hrest =>
          (read_extended fuel _).trans (hfirst ▸ hrest)
      · next hextended =>
        obtain rfl : level = unaryLevel := by
          simp only [unaryLevel, postfixLevel, primaryLevel] at hbinary hextended hlevel ⊢
          omega
        subst hcontinues
        exact htight.after fun fuel hfuel => by rw [read_unopened (h.opening?_eq (Nat.le_refl _) rest)]; exact hfuel
  | _, _, _, @Derives.binary _ op _ _ _ _ hop hleft hright, rest, result, hstops, hcontinues => by
    rw [List.append_assoc]
    have hlevel : op.level < unaryLevel := op.level_lt
    have hoperand := hright.reads rest (hstops.mono (Nat.le_succ _)) (hstops.continues _)
    rw [Continues, if_pos hlevel] at hcontinues
    refine hleft.reads _ (.binary hop _) ?_
    rw [Continues, if_pos hlevel]
    refine hoperand.after_both hcontinues fun fuel hfirst hrest => ?_
    simp only [List.cons_append, climb, operatorAt?_mark hop, hfirst, Option.bind_some, hrest]
  | _, _, _, .unary hop h, rest, result, hstops, hcontinues => by
    obtain rfl : result = (.unary _ _, rest) := hcontinues
    refine (h.reads rest hstops rfl).after fun fuel hfuel => ?_
    rw [List.cons_append, read_unary (opening?_unary hop _), hfuel, Option.map_some]
  | _, _, _, .cast htype h, rest, result, hstops, hcontinues => by
    obtain rfl : result = (.cast _ _, rest) := hcontinues
    refine (h.reads rest hstops rfl).after fun fuel hfuel => ?_
    rw [List.cons_append, List.append_assoc, List.cons_append, read_cast (htype.opening?_eq _), hfuel, Option.map_some]
  | _, _, _, .signed htext, rest, result, hstops, hcontinues => by
    obtain rfl : result = (.constant _, rest) := hcontinues
    exact .once fun fuel => read_signed (if_pos htext)
  | _, _, _, .field name h, rest, result, hstops, hcontinues => by
    rw [List.append_assoc]
    refine h.reads _ ⟨fun _ _ => rfl, fun hle => absurd hle (by decide)⟩ ?_
    exact Settles.after hcontinues fun fuel hfuel => by simp [extend, nameAt?, hfuel]
  | _, _, _, .index h hposition, rest, result, hstops, hcontinues => by
    rw [List.append_assoc]
    refine h.reads _ ⟨fun _ _ => rfl, fun hle => absurd hle (by decide)⟩ ?_
    have hinner := hposition.reads (.mark "]" :: rest) (.mark (by decide) _)
      (Stops.continues (.mark (by decide) _) _)
    refine hinner.after_both hcontinues fun fuel hfirst hrest => ?_
    simp [extend, hfirst, expect_mark, hrest]
  | _, _, _, .call h harguments, rest, result, hstops, hcontinues => by
    rw [List.append_assoc]
    refine h.reads _ ⟨fun _ _ => rfl, fun hle => absurd hle (by decide)⟩ ?_
    have hinner := harguments.reads (.mark ")" :: rest) rfl
    refine hinner.after_both hcontinues fun fuel hfirst hrest => ?_
    simp [extend, hfirst, expect_mark, hrest]
  | _, _, _, .paren h, rest, result, hstops, hcontinues => by
    obtain rfl : result = (.paren _, rest) := hcontinues
    have hinner := h.reads (.mark ")" :: rest) (.mark (by decide) _) (Stops.continues (.mark (by decide) _) _)
    refine .primary (hinner.after fun fuel hfuel => ?_)
    simp [readPrimary, hfuel, expect_mark]
  | _, _, _, .ident name, rest, result, hstops, hcontinues => by
    obtain rfl : result = (.ident _, rest) := hcontinues
    exact .primary (.once fun fuel => rfl)
  | _, _, _, .constant htext, rest, result, hstops, hcontinues => by
    obtain rfl : result = (.constant _, rest) := hcontinues
    exact .primary (.once fun fuel => rfl)
  | _, _, _, .braces h, rest, result, hstops, hcontinues => by
    obtain rfl : result = (.braces _, rest) := hcontinues
    have hinner := h.reads (.mark "\x7d" :: rest) rfl
    refine .primary (hinner.after fun fuel hfuel => ?_)
    simp [readPrimary, hfuel, expect_mark]

/-- Expressions between commas are read up to the bracket that closes the list. -/
theorem DerivesList.reads : ∀ {row : List Symbol} {ts : List Tree}, DerivesList row ts →
    ∀ rest : List Symbol, closesList rest = true → Settles (readList · (row ++ rest)) (ts, rest)
  | _, _, .nil, rest, hcloses => .once fun fuel => by rw [List.nil_append, readList, if_pos hcloses]
  | _, _, .cons hfirst hrest, rest, hcloses => by
    obtain ⟨hstops, hmore⟩ := hrest.reads rest hcloses
    rw [List.append_assoc]
    have hinner := hfirst.reads _ (hstops.mono (Nat.zero_le _)) (hstops.continues _)
    refine hinner.after_both hmore fun fuel htree htrees => ?_
    simp [readList, hfirst.closesList_eq, htree, htrees]

/-- Expressions behind commas are read up to the bracket that closes the list. -/
theorem DerivesMore.reads : ∀ {row : List Symbol} {ts : List Tree}, DerivesMore row ts →
    ∀ rest : List Symbol, closesList rest = true →
      Stops 0 (row ++ rest) ∧ Settles (readMore · (row ++ rest)) (ts, rest)
  | _, _, .nil, rest, hcloses => by
    refine ⟨stops_of_closesList hcloses, .once fun fuel => ?_⟩
    rw [List.nil_append, readMore, expect_comma_eq hcloses]
  | _, _, .cons hfirst hrest, rest, hcloses => by
    obtain ⟨hstops, hmore⟩ := hrest.reads rest hcloses
    rw [List.cons_append, List.append_assoc]
    refine ⟨.mark (by decide) _, ?_⟩
    have hinner := hfirst.reads _ (hstops.mono (Nat.zero_le _)) (hstops.continues _)
    refine hinner.after_both hmore fun fuel htree htrees => ?_
    simp [readMore, expect_mark, htree, htrees]

end

/-- A row has at most one tree. -/
theorem Derives.unique {level : Nat} {row : List Symbol} {t other : Tree} (h : Derives level row t)
    (hother : Derives level row other) : t = other := by
  have hresult := (h.reads [] .nil (Stops.nil.continues t)).unique (hother.reads [] .nil (Stops.nil.continues other))
  exact (Prod.mk.inj hresult).1

end C

end DeclTree

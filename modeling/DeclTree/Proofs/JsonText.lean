import DeclTree.Json.Reader
import DeclTree.Proofs.JsonTokens

/-!
# JSON values read back from their text

The compact and the pretty text of a value are split into the same tokens, and the tokens are put together to the value.
How deep a text nests is counted on its tokens; it is the depth of the value.
-/

namespace DeclTree.Json

mutual

/-- The tokens of a value. -/
def tokens : Json → List Token
  | array elements => [.openBracket] ++ [.comma].intercalate (elementTokens elements) ++ [.closeBracket]
  | object members => [.openBrace] ++ [.comma].intercalate (memberTokens members) ++ [.closeBrace]
  | string value => [.scalar (.string (some (value.getD "")))]
  | null => [.scalar null]
  | bool value => [.scalar (.bool value)]
  | number value => [.scalar (.number value)]

/-- The tokens of elements. -/
def elementTokens : List Json → List (List Token)
  | [] => []
  | e :: rest => e.tokens :: elementTokens rest

/-- The tokens of members. -/
def memberTokens : List (Option String × Json) → List (List Token)
  | [] => []
  | (key, value) :: rest => (.scalar (.string (some (key.getD ""))) :: .colon :: value.tokens) :: memberTokens rest

end

/-- A container is its entries between its two marks. -/
theorem Spells.enclosed {opening inner closing : String} {first last : Token} {row : List Token}
    (hopening : Spells opening [first]) (hinner : Writes inner row) (hclosing : Spells closing [last])
    (hdelimits : ∀ rest, Delimits (closing.toList ++ rest)) :
    Spells (opening ++ inner ++ closing) ([first] ++ row ++ [last]) :=
  (hopening.append_writes hinner).append_spells hclosing hdelimits

/-- A member is its key, a colon and its value. -/
theorem Writes.member (key : Option String) {colon value : String} {row : List Token} (hcolon : Spells colon [.colon])
    (hvalue : Writes value row) :
    Writes (optionText key ++ colon ++ value) (.scalar (.string (some (key.getD ""))) :: .colon :: row) :=
  ((Spells.stringText _).append hcolon).append_writes hvalue

/-- The colon of the pretty text has a blank after it. -/
theorem Spells.spacedColon : Spells ": " [.colon] :=
  .append (a := ":") (b := " ") (.mark rfl fun _ => rfl) (.blank (by simp [isBlank]))

/-- A truth value is written as its word. -/
theorem Writes.bool (value : Bool) : Writes (if value then "true" else "false") [.scalar (.bool value)] := by
  cases value with
  | true => exact .word (c := 't') rfl rfl (fun _ => rfl) rfl
  | false => exact .word (c := 'f') rfl rfl (fun _ => rfl) rfl

/-- The null value is written as its word. -/
theorem Writes.null : Writes "null" [.scalar .null] := .word (c := 'n') rfl rfl (fun _ => rfl) rfl

mutual

/-- The compact text of a value is split into its tokens. -/
theorem writes_compact : ∀ v : Json, Writes v.compact v.tokens
  | .null => .null
  | .bool value => .bool value
  | .number value => .number value
  | .string value => (Spells.stringText _).writes
  | .array elements => by
    rw [compact, tokens]
    exact (Spells.enclosed (.mark rfl fun _ => rfl) (.separated (writes_compactElements elements))
      (.mark rfl fun _ => rfl) (delimits_append rfl (by decide))).writes
  | .object members => by
    rw [compact, tokens]
    exact (Spells.enclosed (.mark rfl fun _ => rfl) (.separated (writes_compactMembers members))
      (.mark rfl fun _ => rfl) (delimits_append rfl (by decide))).writes

/-- The elements of an array are written compactly as their tokens. -/
theorem writes_compactElements : ∀ es : List Json, List.Forall₂ Writes (compactElements es) (elementTokens es)
  | [] => .nil
  | e :: rest => .cons (writes_compact e) (writes_compactElements rest)

/-- The members of an object are written compactly as their tokens. -/
theorem writes_compactMembers :
    ∀ ms : List (Option String × Json), List.Forall₂ Writes (compactMembers ms) (memberTokens ms)
  | [] => .nil
  | (key, value) :: rest =>
    .cons (.member key (.mark rfl fun _ => rfl) (writes_compact value)) (writes_compactMembers rest)

end

/-- A container whose entries stand on lines of their own is split like one on a single line. -/
theorem spells_linesText {opening closing : String} {first last : Token} {entries : List String}
    {rows : List (List Token)} (level : Nat) (hopening : Spells opening [first]) (hclosing : Spells closing [last])
    (hentries : List.Forall₂ Writes entries rows) :
    Spells (linesText opening closing level entries) ([first] ++ [.comma].intercalate rows ++ [last]) := by
  have hlines : List.Forall₂ Writes (entries.map (lineStart (level + 1) ++ ·)) rows :=
    List.forall₂_map_left_iff.mpr (hentries.imp fun _ _ h => (Spells.lineStart (level + 1)).append_writes h)
  have hdelimits : ∀ rest, Delimits ((lineStart level ++ closing).toList ++ rest) :=
    delimits_append (by rw [lineStart, String.toList_append, String.toList_append]; rfl) (by decide)
  rw [linesText, String.append_assoc]
  exact .enclosed hopening (.separated hlines) ((Spells.lineStart level).append hclosing) hdelimits

mutual

/-- The pretty text of a value is split into its tokens. -/
theorem writes_prettyAt : ∀ (v : Json) (level : Nat), Writes (v.prettyAt level) v.tokens
  | .null, _ => .null
  | .bool value, _ => .bool value
  | .number value, _ => .number value
  | .string value, _ => (Spells.stringText _).writes
  | .array [], _ => writes_compact (.array [])
  | .array (e :: rest), level => by
    rw [prettyAt, tokens]
    exact (spells_linesText level (.mark rfl fun _ => rfl) (.mark rfl fun _ => rfl)
      (.cons (writes_prettyAt e (level + 1)) (writes_prettyElements rest (level + 1)))).writes
  | .object [], _ => writes_compact (.object [])
  | .object ((key, value) :: rest), level => by
    rw [prettyAt, tokens]
    exact (spells_linesText level (.mark rfl fun _ => rfl) (.mark rfl fun _ => rfl)
      (.cons (.member key .spacedColon (writes_prettyAt value (level + 1)))
        (writes_prettyMembers rest (level + 1)))).writes

/-- The elements of an array are written on lines of their own as their tokens. -/
theorem writes_prettyElements :
    ∀ (es : List Json) (level : Nat), List.Forall₂ Writes (prettyElements es level) (elementTokens es)
  | [], _ => .nil
  | e :: rest, level => .cons (writes_prettyAt e level) (writes_prettyElements rest level)

/-- The members of an object are written on lines of their own as their tokens. -/
theorem writes_prettyMembers :
    ∀ (ms : List (Option String × Json)) (level : Nat), List.Forall₂ Writes (prettyMembers ms level) (memberTokens ms)
  | [], _ => .nil
  | (key, value) :: rest, level =>
    .cons (.member key .spacedColon (writes_prettyAt value level)) (writes_prettyMembers rest level)

end

mutual

/-- Every string and every key of the value denotes a text. -/
def Legible : Json → Prop
  | string value => value.isSome
  | array elements => LegibleElements elements
  | object members => LegibleMembers members
  | null => True
  | bool _ => True
  | number _ => True

/-- Every string and every key of the elements denotes a text. -/
def LegibleElements : List Json → Prop
  | [] => True
  | e :: rest => e.Legible ∧ LegibleElements rest

/-- Every string and every key of the members denotes a text. -/
def LegibleMembers : List (Option String × Json) → Prop
  | [] => True
  | (key, value) :: rest => key.isSome ∧ value.Legible ∧ LegibleMembers rest

end

/-- The first element of an array is read like the later ones. -/
theorem foldlM_firstElement (v : Json) (more : List Token) (stack : List Frame) :
    (v.tokens ++ more).foldlM Reading.next (.firstElement stack) =
      (v.tokens ++ more).foldlM Reading.next (.awaitValue (.elements [] :: stack)) := by
  cases v <;> rfl

/-- Rows with commas between them start with the first row. -/
theorem intercalate_eq_append (row : List Token) (rows : List (List Token)) :
    ∃ others, [Token.comma].intercalate (row :: rows) = row ++ others := by
  cases rows with
  | nil => exact ⟨[], by simp⟩
  | cons second rows => exact ⟨_, by rw [List.intercalate_cons_cons, List.append_assoc]⟩

-- The stack and the tokens behind the value are arbitrary: inside a container both are those of the container.
mutual

/-- The tokens of a value are put together to the value. -/
theorem foldlM_tokens : ∀ (v : Json), v.Legible → ∀ (stack : List Frame) (more : List Token),
    (v.tokens ++ more).foldlM Reading.next (.awaitValue stack) = more.foldlM Reading.next (.complete v stack)
  | .null, _, _, _ => rfl
  | .bool _, _, _, _ => rfl
  | .number _, _, _, _ => rfl
  | .string (some _), _, _, _ => rfl
  | .array [], _, _, _ => rfl
  | .array (e :: rest), h, stack, more => by
    obtain ⟨others, hothers⟩ := intercalate_eq_append e.tokens (elementTokens rest)
    have helements := foldlM_elementTokens (e :: rest) (by simp) h [] stack more
    rw [elementTokens, hothers, List.append_assoc, ← foldlM_firstElement] at helements
    rw [tokens, elementTokens, hothers]
    simpa [Reading.next, Reading.beginValue] using helements
  | .object [], _, _, _ => rfl
  | .object ((some key, value) :: rest), h, stack, more => by
    obtain ⟨others, hothers⟩ :=
      intercalate_eq_append (.scalar (.string (some key)) :: .colon :: value.tokens) (memberTokens rest)
    have hmembers := foldlM_memberTokens ((some key, value) :: rest) (by simp) h [] stack more
    rw [memberTokens, Option.getD_some, hothers] at hmembers
    rw [tokens, memberTokens, Option.getD_some, hothers]
    simpa [Reading.next, Reading.beginValue] using hmembers

/-- The tokens of the elements of an array that is open are put together to the array. -/
theorem foldlM_elementTokens : ∀ (es : List Json), es ≠ [] → LegibleElements es →
    ∀ (done : List Json) (stack : List Frame) (more : List Token),
    ([.comma].intercalate (elementTokens es) ++ .closeBracket :: more).foldlM Reading.next
      (.awaitValue (.elements done :: stack)) =
        more.foldlM Reading.next (.complete (.array (done.reverse ++ es)) stack)
  | [e], _, h, done, stack, more => by
    rw [elementTokens, elementTokens, List.intercalate_singleton, foldlM_tokens e h.1, ← List.reverse_cons]
    rfl
  | e :: second :: rest, _, h, done, stack, more => by
    have hrest := foldlM_elementTokens (second :: rest) (by simp) h.2 (e :: done) stack more
    rw [List.reverse_cons, List.append_assoc, List.singleton_append] at hrest
    rw [elementTokens, elementTokens, List.intercalate_cons_cons, ← elementTokens, List.append_assoc, List.append_assoc,
      foldlM_tokens e h.1]
    exact hrest

/-- The tokens of the members of an object that is open are put together to the object. -/
theorem foldlM_memberTokens : ∀ (ms : List (Option String × Json)), ms ≠ [] → LegibleMembers ms →
    ∀ (done : List (Option String × Json)) (stack : List Frame) (more : List Token),
    ([.comma].intercalate (memberTokens ms) ++ .closeBrace :: more).foldlM Reading.next (.nextKey done stack) =
        more.foldlM Reading.next (.complete (.object (done.reverse ++ ms)) stack)
  | [(some key, value)], _, h, done, stack, more => by
    have hvalue := foldlM_tokens value h.2.1 (.members done (some key) :: stack) (.closeBrace :: more)
    rw [memberTokens, memberTokens, List.intercalate_singleton, ← List.reverse_cons]
    exact hvalue
  | (some key, value) :: second :: rest, _, h, done, stack, more => by
    have hrest := foldlM_memberTokens (second :: rest) (by simp) h.2.2 ((some key, value) :: done) stack more
    rw [List.reverse_cons, List.append_assoc, List.singleton_append] at hrest
    rw [memberTokens, memberTokens, List.intercalate_cons_cons, ← memberTokens, List.append_assoc, List.append_assoc]
    exact (foldlM_tokens value h.2.1 (.members done (some key) :: stack) _).trans hrest

end

/-- The number of containers that are open after a token. -/
def Token.levelAfter (level : Nat) : Token → Nat
  | .openBracket | .openBrace => level + 1
  | .closeBracket | .closeBrace => level - 1
  | .colon | .comma | .scalar _ => level

/-- The greatest number of containers that are open at once from some level on. -/
def deepest (level : Nat) : List Token → Nat
  | [] => level
  | token :: rest => max level (deepest (token.levelAfter level) rest)

/-- How many arrays and objects stand inside one another in a text. -/
def nesting (text : String) : Nat := ((scan? text.toList).map (deepest 0)).getD 0

mutual

/-- How many arrays and objects stand inside one another in a value. -/
def depth : Json → Nat
  | array elements => depthElements elements + 1
  | object members => depthMembers members + 1
  | null => 0
  | bool _ => 0
  | number _ => 0
  | string _ => 0

/-- How many arrays and objects stand inside one another in elements. -/
def depthElements : List Json → Nat
  | [] => 0
  | e :: rest => max e.depth (depthElements rest)

/-- How many arrays and objects stand inside one another in members. -/
def depthMembers : List (Option String × Json) → Nat
  | [] => 0
  | (_, value) :: rest => max value.depth (depthMembers rest)

end

/-- The level at the start is reached. -/
theorem le_deepest (level : Nat) (tokens : List Token) : level ≤ deepest level tokens := by
  cases tokens with
  | nil => exact Nat.le_refl _
  | cons token rest => exact Nat.le_max_left _ _

/-- A token that neither opens nor closes a container does not count. -/
theorem deepest_of_levelAfter {level : Nat} {token : Token} (h : token.levelAfter level = level) (rest : List Token) :
    deepest level (token :: rest) = deepest level rest := by
  rw [deepest, h]
  exact Nat.max_eq_right (le_deepest level rest)

/-- A container adds a level around its entries. -/
theorem deepest_enclosed {level entries : Nat} {first last : Token} {row : List Token} (more : List Token)
    (hfirst : first.levelAfter level = level + 1) (hlast : last.levelAfter (level + 1) = level)
    (hrow : ∀ rest, deepest (level + 1) (row ++ rest) = max (level + 1 + entries) (deepest (level + 1) rest)) :
    deepest level ([first] ++ row ++ [last] ++ more) = max (level + (entries + 1)) (deepest level more) := by
  have hmore := le_deepest level more
  simp only [List.append_assoc, List.cons_append, List.nil_append, deepest, hfirst, hlast, hrow]
  omega

mutual

/-- The tokens of a value nest as deep as the value. -/
theorem deepest_tokens : ∀ (v : Json) (level : Nat) (more : List Token),
    deepest level (v.tokens ++ more) = max (level + v.depth) (deepest level more)
  | .null, _, _ => rfl
  | .bool _, _, _ => rfl
  | .number _, _, _ => rfl
  | .string _, _, _ => rfl
  | .array elements, level, more => by
    rw [tokens, depth]
    exact deepest_enclosed more rfl rfl (deepest_elementTokens elements (level + 1))
  | .object members, level, more => by
    rw [tokens, depth]
    exact deepest_enclosed more rfl rfl (deepest_memberTokens members (level + 1))

/-- The tokens of elements go as deep as the elements, above the level that they start from. -/
theorem deepest_elementTokens : ∀ (es : List Json) (level : Nat) (more : List Token),
    deepest level ([.comma].intercalate (elementTokens es) ++ more) =
      max (level + depthElements es) (deepest level more)
  | [], level, more => (Nat.max_eq_right (le_deepest level more)).symm
  | [e], level, more => by
    rw [elementTokens, elementTokens, List.intercalate_singleton, deepest_tokens e]
    simp [depthElements]
  | e :: second :: rest, level, more => by
    have hrest := deepest_elementTokens (second :: rest) level more
    rw [elementTokens, elementTokens, List.intercalate_cons_cons, ← elementTokens, List.append_assoc, List.append_assoc,
      deepest_tokens e, List.singleton_append, deepest_of_levelAfter rfl, hrest]
    have hdepth : depthElements (e :: second :: rest) = max e.depth (depthElements (second :: rest)) := rfl
    omega

/-- The tokens of members go as deep as the members, above the level that they start from. -/
theorem deepest_memberTokens : ∀ (ms : List (Option String × Json)) (level : Nat) (more : List Token),
    deepest level ([.comma].intercalate (memberTokens ms) ++ more) =
      max (level + depthMembers ms) (deepest level more)
  | [], level, more => (Nat.max_eq_right (le_deepest level more)).symm
  | [(key, value)], level, more => by
    rw [memberTokens, memberTokens, List.intercalate_singleton, List.cons_append, List.cons_append,
      deepest_of_levelAfter rfl, deepest_of_levelAfter rfl, deepest_tokens value]
    simp [depthMembers]
  | (key, value) :: second :: rest, level, more => by
    have hrest := deepest_memberTokens (second :: rest) level more
    rw [memberTokens, memberTokens, List.intercalate_cons_cons, ← memberTokens, List.append_assoc, List.append_assoc,
      List.cons_append, List.cons_append, deepest_of_levelAfter rfl, deepest_of_levelAfter rfl, deepest_tokens value,
      List.singleton_append, deepest_of_levelAfter rfl, hrest]
    have hdepth : depthMembers ((key, value) :: second :: rest) = max value.depth (depthMembers (second :: rest)) := rfl
    omega

end

/-- The text is one of those that a value is written as. -/
def IsTextOf (text : String) (v : Json) : Prop := text = v.compact ∨ text = v.pretty

/-- A text of a value is split into the tokens of the value. -/
theorem IsTextOf.scan? {text : String} {v : Json} (h : IsTextOf text v) : Json.scan? text.toList = some v.tokens := by
  have hwrites : Writes text v.tokens := by
    rcases h with rfl | rfl
    · exact writes_compact v
    · exact writes_prettyAt v 0
  have hscans := hwrites [] [] (by simp [Delimits]) .nil
  rw [List.append_nil, List.append_nil] at hscans
  exact scan?_of_scans hscans

/-- A text nests as deep as the value that it is written from. -/
theorem IsTextOf.nesting {text : String} {v : Json} (h : IsTextOf text v) : Json.nesting text = v.depth := by
  have hdeepest := deepest_tokens v 0 []
  rw [List.append_nil] at hdeepest
  simp [Json.nesting, h.scan?, hdeepest, deepest]

/-- A value whose strings denote texts is read back from its text. -/
theorem IsTextOf.parse? {text : String} {v : Json} (h : IsTextOf text v) (hv : v.Legible) :
    Json.parse? text = some v := by
  have hread := foldlM_tokens v hv [] []
  rw [List.append_nil] at hread
  simp [Json.parse?, h.scan?, ofTokens?, hread, Reading.complete, Reading.result?]

end DeclTree.Json

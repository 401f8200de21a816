import DeclTree.Proofs.Emission

/-!
# Control flow of printed statements

C's statement grammar does not say by itself to which `if` an `else` belongs: `if (a) if (b) x; else y;` has two
derivations. The rule that picks one is that an `else` belongs to the nearest `if` before it that still lacks one.

An outline is a derivation of the grammar, with simple statements and headers kept as their text; `units` is what it
derives. An outline is bound if it follows the rule: no statement that stands between an `if` and its `else` ends with
an `if` that lacks an `else`. A row of units has at most one bound outline, and what is printed for a scope has one, the
outline of the scope with braces around the first branch of every conditional that has an `else`.
-/

namespace DeclTree.C

/-- The control flow of a statement. -/
inductive Outline where
  | simple (text : String)
  | block (body : List Outline)
  | conditional (header : String) (consequent : Outline) (alternative : Option Outline)
  | loop (header : String) (body : Outline)

/-- Whether a piece is white space. -/
def Piece.isSpace : Piece → Bool
  | blank | newline | indent _ => true
  | simple _ | header .. | otherwise | openBrace | closeBrace => false

/-- The units of the statement grammar in a row of pieces. -/
def Piece.units (pieces : List Piece) : List Piece := pieces.filter (!·.isSpace)

/-- No pieces have no units. -/
@[simp] theorem Piece.units_nil : units [] = [] := rfl

/-- The units of pieces in a row are those of each part. -/
@[simp] theorem Piece.units_append (pieces others : List Piece) :
    units (pieces ++ others) = units pieces ++ units others := List.filter_append ..

/-- A piece is a unit unless it is space. -/
@[simp] theorem Piece.units_cons (piece : Piece) (pieces : List Piece) :
    units (piece :: pieces) = if piece.isSpace then units pieces else piece :: units pieces := by
  cases h : piece.isSpace <;> simp [units, h]

namespace Outline

mutual

/-- The units that an outline derives. -/
def units : Outline → List Piece
  | simple text => [.simple text]
  | block body => .openBrace :: (unitsAll body ++ [.closeBrace])
  | conditional header consequent none => .header .conditional header :: consequent.units
  | conditional header consequent (some alternative) =>
    .header .conditional header :: (consequent.units ++ .otherwise :: alternative.units)
  | loop header body => .header .loop header :: body.units

/-- The units that outlines derive one after the other. -/
def unitsAll : List Outline → List Piece
  | [] => []
  | first :: rest => first.units ++ unitsAll rest

end

/-- Whether an `else` behind the statement would belong to an `if` in it. -/
def endsOpen : Outline → Bool
  | simple _ => false
  | block _ => false
  | conditional _ _ none => true
  | conditional _ _ (some alternative) => alternative.endsOpen
  | loop _ body => body.endsOpen

mutual

/-- Every `else` belongs to the nearest `if` before it that lacks one. -/
def Bound : Outline → Prop
  | simple _ => True
  | block body => BoundAll body
  | conditional _ consequent none => consequent.Bound
  | conditional _ consequent (some alternative) =>
    consequent.endsOpen = false ∧ consequent.Bound ∧ alternative.Bound
  | loop _ body => body.Bound

/-- Every `else` in a row of statements belongs to the nearest `if` before it that lacks one. -/
def BoundAll : List Outline → Prop
  | [] => True
  | first :: rest => first.Bound ∧ BoundAll rest

end

/-- A row of units is read as a statement: the grammar derives the row, and no `else` is taken from its `if`. -/
def Parses (row : List Piece) (outline : Outline) : Prop := outline.units = row ∧ outline.Bound

/-- A statement starts with neither a closing brace nor an `else`. -/
theorem units_eq_cons (outline : Outline) :
    ∃ first rest, outline.units = first :: rest ∧ first ≠ .closeBrace ∧ first ≠ .otherwise := by
  cases outline with
  | simple text => exact ⟨_, _, rfl, nofun, nofun⟩
  | block body => exact ⟨_, _, rfl, nofun, nofun⟩
  | conditional header consequent alternative =>
    cases alternative <;> exact ⟨_, _, rfl, nofun, nofun⟩
  | loop header body => exact ⟨_, _, rfl, nofun, nofun⟩

/-- Statements before a closing brace do not start with an `else`. -/
theorem head_unitsAll (outlines : List Outline) (rest : List Piece) :
    (unitsAll outlines ++ .closeBrace :: rest).head? ≠ some .otherwise := by
  cases outlines with
  | nil => simp [unitsAll]
  | cons first others =>
    obtain ⟨piece, more, hunits, -, hotherwise⟩ := first.units_eq_cons
    simp [unitsAll, hunits, hotherwise]

mutual

/-- Bound outlines that derive the same row are equal. What follows them may be an `else` only if it cannot belong to an
`if` in them. -/
theorem units_inj : ∀ (s t : Outline) {rest others : List Piece}, s.Bound → t.Bound →
    (s.endsOpen = true → rest.head? ≠ some .otherwise) → (t.endsOpen = true → others.head? ≠ some .otherwise) →
    s.units ++ rest = t.units ++ others → s = t ∧ rest = others
  | simple text, t, rest, others, _, _, _, _, heq => by
    cases t with
    | simple text' => simpa [units] using heq
    | block body => simp [units] at heq
    | conditional header consequent alternative => cases alternative <;> simp [units] at heq
    | loop header body => simp [units] at heq
  | block body, t, rest, others, hs, ht, _, _, heq => by
    cases t with
    | simple text => simp [units] at heq
    | block body' =>
      simp only [units, List.cons_append, List.append_assoc, List.cons.injEq, true_and, List.nil_append] at heq
      obtain ⟨rfl, hrest⟩ := unitsAll_inj body body' hs ht heq
      exact ⟨rfl, hrest⟩
    | conditional header consequent alternative => cases alternative <;> simp [units] at heq
    | loop header body => simp [units] at heq
  | conditional header consequent none, t, rest, others, hs, ht, hopen, hopen', heq => by
    cases t with
    | simple text => simp [units] at heq
    | block body => simp [units] at heq
    | loop header body => simp [units] at heq
    | conditional header' consequent' alternative' =>
      cases alternative' with
      | none =>
        simp only [units, List.cons_append, List.cons.injEq, Piece.header.injEq, true_and] at heq
        obtain ⟨rfl, hrest⟩ := units_inj consequent consequent' hs ht (fun _ => hopen rfl) (fun _ => hopen' rfl) heq.2
        exact ⟨by rw [heq.1], hrest⟩
      | some alternative' =>
        -- The other reading takes an `else` from an `if` that lacks one, so it would have to stand in `rest`.
        simp only [units, List.cons_append, List.append_assoc, List.cons.injEq, Piece.header.injEq, true_and] at heq
        obtain ⟨-, hrest⟩ := units_inj consequent consequent' hs ht.2.1 (fun _ => hopen rfl) (by simp [ht.1]) heq.2
        exact absurd (by rw [hrest]; rfl) (hopen rfl)
  | conditional header consequent (some alternative), t, rest, others, hs, ht, hopen, hopen', heq => by
    cases t with
    | simple text => simp [units] at heq
    | block body => simp [units] at heq
    | loop header body => simp [units] at heq
    | conditional header' consequent' alternative' =>
      cases alternative' with
      | none =>
        simp only [units, List.cons_append, List.append_assoc, List.cons.injEq, Piece.header.injEq, true_and] at heq
        obtain ⟨-, hrest⟩ := units_inj consequent consequent' hs.2.1 ht (by simp [hs.1]) (fun _ => hopen' rfl) heq.2
        exact absurd (by rw [← hrest]; rfl) (hopen' rfl)
      | some alternative' =>
        simp only [units, List.cons_append, List.append_assoc, List.cons.injEq, Piece.header.injEq, true_and] at heq
        obtain ⟨rfl, hrest⟩ := units_inj consequent consequent' hs.2.1 ht.2.1 (by simp [hs.1]) (by simp [ht.1]) heq.2
        obtain ⟨rfl, hlast⟩ := units_inj alternative alternative' hs.2.2 ht.2.2 hopen hopen' (List.cons.inj hrest).2
        exact ⟨by rw [heq.1], hlast⟩
  | loop header body, t, rest, others, hs, ht, hopen, hopen', heq => by
    cases t with
    | simple text => simp [units] at heq
    | block body => simp [units] at heq
    | conditional header consequent alternative => cases alternative <;> simp [units] at heq
    | loop header' body' =>
      simp only [units, List.cons_append, List.cons.injEq, Piece.header.injEq, true_and] at heq
      obtain ⟨rfl, hrest⟩ := units_inj body body' hs ht hopen hopen' heq.2
      exact ⟨by rw [heq.1], hrest⟩

/-- Bound outlines in a block that derive the same row are equal. -/
theorem unitsAll_inj : ∀ (ss ts : List Outline) {rest others : List Piece}, BoundAll ss → BoundAll ts →
    unitsAll ss ++ .closeBrace :: rest = unitsAll ts ++ .closeBrace :: others → ss = ts ∧ rest = others
  | [], ts, rest, others, _, _, heq => by
    cases ts with
    | nil => exact ⟨rfl, (List.cons.inj heq).2⟩
    | cons t ts =>
      obtain ⟨first, more, hunits, hbrace, -⟩ := t.units_eq_cons
      simp only [unitsAll, hunits, List.nil_append, List.cons_append] at heq
      exact absurd (List.cons.inj heq).1.symm hbrace
  | s :: ss, ts, rest, others, hs, ht, heq => by
    cases ts with
    | nil =>
      obtain ⟨first, more, hunits, hbrace, -⟩ := s.units_eq_cons
      simp only [unitsAll, hunits, List.nil_append, List.cons_append] at heq
      exact absurd (List.cons.inj heq).1 hbrace
    | cons t ts =>
      simp only [unitsAll, List.append_assoc] at heq
      obtain ⟨rfl, hrest⟩ := units_inj s t hs.1 ht.1 (fun _ => head_unitsAll ss rest)
        (fun _ => head_unitsAll ts others) heq
      obtain ⟨rfl, hlast⟩ := unitsAll_inj ss ts hs.2 ht.2 hrest
      exact ⟨rfl, hlast⟩

end

/-- A row of units is read as at most one statement. -/
theorem Parses.unique {row : List Piece} {s t : Outline} (hs : Parses row s) (ht : Parses row t) : s = t := by
  refine (@units_inj s t [] [] hs.2 ht.2 (by simp) (by simp) ?_).1
  rw [hs.1, ht.1]

/-- Whether an outline is that of a block. -/
def isBlock : Outline → Bool
  | block _ => true
  | simple _ | conditional .. | loop .. => false

mutual

/-- The outline with braces around the first branch of every conditional that has an `else`, unless it is a block. -/
def braced : Outline → Outline
  | simple text => simple text
  | block body => block (bracedAll body)
  | conditional header consequent none => conditional header consequent.braced none
  | conditional header consequent (some alternative) =>
    conditional header (if consequent.isBlock then consequent.braced else block [consequent.braced])
      (some alternative.braced)
  | loop header body => loop header body.braced

/-- The outlines with braces around first branches. -/
def bracedAll : List Outline → List Outline
  | [] => []
  | first :: rest => first.braced :: bracedAll rest

end

mutual

/-- With braces around first branches every `else` belongs to the nearest `if`. -/
theorem bound_braced : ∀ outline : Outline, outline.braced.Bound
  | simple _ => trivial
  | block body => bound_bracedAll body
  | conditional _ consequent none => consequent.bound_braced
  | conditional _ consequent (some alternative) => by
    have hconsequent := consequent.bound_braced
    cases consequent with
    | block body => exact ⟨rfl, hconsequent, alternative.bound_braced⟩
    | _ => exact ⟨rfl, ⟨hconsequent, trivial⟩, alternative.bound_braced⟩
  | loop _ body => body.bound_braced

/-- With braces around first branches every `else` in a row of statements belongs to the nearest `if`. -/
theorem bound_bracedAll : ∀ outlines : List Outline, BoundAll (bracedAll outlines)
  | [] => trivial
  | first :: rest => ⟨first.bound_braced, bound_bracedAll rest⟩

end

/-- What the outline with braces derives is read as nothing else. -/
theorem parses_braced_iff {row : List Piece} {outline : Outline} (h : row = outline.braced.units) (read : Outline) :
    Parses row read ↔ read = outline.braced := by
  have hparses : Parses row outline.braced := ⟨h.symm, outline.bound_braced⟩
  exact ⟨fun hread => hread.unique hparses, fun heq => heq ▸ hparses⟩

end Outline

end DeclTree.C

namespace DeclTree

namespace Scope

/-- Whether a scope is a block. -/
def isBlock : Scope → Bool
  | block .. => true
  | _ => false

/-- Whether a scope is a conditional. -/
def isConditional : Scope → Bool
  | conditional .. => true
  | _ => false

end Scope

/-- The level at which what stands behind a header is printed, given whether it starts on the line of the header. -/
def innerLevel (level : Nat) (onLine : Bool) : Nat := if onLine then level else level + 1

open Lowering in
mutual

/-- The control flow of a scope that is printed at a level. -/
def Scope.outline (file : SourceFile) : Scope → Nat → Except Error C.Outline
  | .statement stmt, level => do return .simple ((← simple file stmt).text level ++ ";")
  | .block scopes _, level => do return .block (← Scope.outlines file scopes (level + 1))
  | .conditional condition consequent none _, level => do
    return .conditional ("if (" ++ (← expr file condition).text ++ ")")
      (← consequent.outline file (innerLevel level consequent.isBlock)) none
  | .conditional condition consequent (some alternative) _, level => do
    return .conditional ("if (" ++ (← expr file condition).text ++ ")")
      (← consequent.outline file (innerLevel level consequent.isBlock))
      (some (← alternative.outline file (innerLevel level (alternative.isBlock || alternative.isConditional))))
  | .forLoop init condition step body _, level => do
    return .loop ("for (" ++ (← simple file init).text level ++ "; " ++ (← expr file condition).text ++ "; "
      ++ (← simple file step).text level ++ ")") (← body.outline file (innerLevel level body.isBlock))
  | .whileLoop condition body _, level => do
    return .loop ("while (" ++ (← expr file condition).text ++ ")")
      (← body.outline file (innerLevel level body.isBlock))
  | .forEach _ _ _ span, _ => .error (.unsupported .forEach span)
  | .matching _ _ span, _ => .error (.unsupported .matching span)

/-- The control flow of scopes that are printed at a level. -/
def Scope.outlines (file : SourceFile) : List Scope → Nat → Except Error (List C.Outline)
  | [], _ => .ok []
  | scope :: rest, level => do return (← scope.outline file level) :: (← Scope.outlines file rest level)

end

namespace C.Statement

/-- White space aside, a body behind a header is the statement at the level where it is printed. -/
theorem units_bodyPieces (level : Nat) (isBlock : Bool) (pieces : Nat → List Piece) :
    Piece.units (bodyPieces level isBlock pieces) = Piece.units (pieces (innerLevel level isBlock)) := by
  cases isBlock <;> simp [bodyPieces, innerLevel, Piece.isSpace]

/-- White space aside, a block is its lines in braces. -/
theorem units_blockPieces (level : Nat) (lines : List Piece) :
    Piece.units (blockPieces level lines) = .openBrace :: (Piece.units lines ++ [.closeBrace]) := by
  simp [blockPieces, Piece.isSpace]

/-- White space aside, the first branch before an `else` is a block: the branch itself, or one around it. -/
theorem units_consequentPieces (level : Nat) (isBlock : Bool) (pieces : Nat → List Piece) :
    Piece.units (if isBlock then .blank :: pieces level
      else .blank :: blockPieces level (.indent (level + 1) :: pieces (level + 1))) =
    if isBlock then Piece.units (pieces (innerLevel level isBlock))
      else .openBrace :: (Piece.units (pieces (innerLevel level isBlock)) ++ [.closeBrace]) := by
  cases isBlock <;> simp [units_blockPieces, innerLevel, Piece.isSpace]

/-- White space aside, what stands behind an `else` is the statement at the level where it is printed. -/
theorem units_alternativePieces (level : Nat) (isBlock isConditional : Bool) (pieces : Nat → List Piece) :
    Piece.units (if isConditional then .blank :: pieces level else bodyPieces level isBlock pieces) =
      Piece.units (pieces (innerLevel level (isBlock || isConditional))) := by
  cases isConditional <;> simp [units_bodyPieces, innerLevel, Piece.isSpace]

end C.Statement

section Printing

open Lowering C

variable {file : SourceFile}

/-- Lowering makes blocks of blocks and conditionals of conditionals, and of nothing else. -/
theorem Lowered.shape {scope : Scope} {s : Statement} (h : Lowered file scope s) :
    s.isBlock = scope.isBlock ∧ s.isConditional = scope.isConditional := by
  cases h <;> exact ⟨rfl, rfl⟩

mutual

/-- White space aside, what is printed for a scope is what its outline derives once first branches have braces. -/
theorem outline_of_statement : ∀ (scope : Scope) (level : Nat) {s : Statement}, statement file scope = .ok s →
    ∃ outline, scope.outline file level = .ok outline ∧ outline.isBlock = scope.isBlock ∧
      Piece.units (s.pieces level) = outline.braced.units
  | .statement stmt, level, s, h => by
    obtain ⟨hstmt⟩ := lowered_of_statement h
    exact ⟨_, by rw [Scope.outline, hstmt]; rfl, rfl, rfl⟩
  | .block scopes _, level, s, h => by
    obtain ⟨⟩ | ⟨hscopes⟩ := lowered_of_statement h
    obtain ⟨outlines, houtlines, hunits⟩ := outlines_of_statements scopes (level + 1) hscopes
    refine ⟨.block outlines, by rw [Scope.outline, houtlines]; rfl, rfl, ?_⟩
    rw [Statement.pieces, Statement.units_blockPieces, hunits, Outline.braced, Outline.units]
  | .conditional condition consequent none _, level, s, h => by
    cases lowered_of_statement h with
    | conditional hcondition hconsequent =>
    obtain ⟨first, hfirst, hblock, hunits⟩ :=
      outline_of_statement consequent (innerLevel level consequent.isBlock) hconsequent
    refine ⟨.conditional _ first none, by rw [Scope.outline, hcondition, hfirst]; rfl, rfl, ?_⟩
    rw [Statement.pieces, Piece.units_cons, Statement.units_bodyPieces, (lowered_of_statement hconsequent).shape.1,
      hunits]
    rfl
  | .conditional condition consequent (some alternative) _, level, s, h => by
    cases lowered_of_statement h with
    | alternative hcondition hconsequent halternative =>
    obtain ⟨first, hfirst, hblock, hunits⟩ :=
      outline_of_statement consequent (innerLevel level consequent.isBlock) hconsequent
    obtain ⟨second, hsecond, -, hothers⟩ := outline_of_statement alternative
      (innerLevel level (alternative.isBlock || alternative.isConditional)) halternative
    refine ⟨.conditional _ first (some second), by rw [Scope.outline, hcondition, hfirst, hsecond]; rfl, rfl, ?_⟩
    obtain ⟨hisBlock, hisConditional⟩ := (lowered_of_statement halternative).shape
    rw [Statement.pieces, Piece.units_append, Piece.units_append, Piece.units_cons, Statement.units_consequentPieces,
      Statement.units_alternativePieces, (lowered_of_statement hconsequent).shape.1, hisBlock, hisConditional, hunits,
      hothers, Outline.braced, hblock]
    cases consequent.isBlock <;> simp [Outline.units, Outline.unitsAll, Piece.isSpace]
  | .forLoop init condition step body _, level, s, h => by
    cases lowered_of_statement h with
    | forLoop hinit hcondition hstep hbody =>
    obtain ⟨inner, hinner, hblock, hunits⟩ := outline_of_statement body (innerLevel level body.isBlock) hbody
    refine ⟨.loop _ inner, by rw [Scope.outline, hinit, hcondition, hstep, hinner]; rfl, rfl, ?_⟩
    rw [Statement.pieces, Piece.units_cons, Statement.units_bodyPieces, (lowered_of_statement hbody).shape.1, hunits]
    rfl
  | .whileLoop condition body _, level, s, h => by
    cases lowered_of_statement h with
    | whileLoop hcondition hbody =>
    obtain ⟨inner, hinner, hblock, hunits⟩ := outline_of_statement body (innerLevel level body.isBlock) hbody
    refine ⟨.loop _ inner, by rw [Scope.outline, hcondition, hinner]; rfl, rfl, ?_⟩
    rw [Statement.pieces, Piece.units_cons, Statement.units_bodyPieces, (lowered_of_statement hbody).shape.1, hunits]
    rfl
  | .forEach _ _ _ _, _, _, h => by cases lowered_of_statement h
  | .matching _ _ _, _, _, h => by cases lowered_of_statement h

/-- White space aside, what is printed for the lines of a block is what their outlines derive. -/
theorem outlines_of_statements : ∀ (scopes : List Scope) (level : Nat) {ss : List Statement},
    statements file scopes = .ok ss → ∃ outlines, Scope.outlines file scopes level = .ok outlines ∧
      Piece.units (Statement.linePieces ss level) = Outline.unitsAll (Outline.bracedAll outlines)
  | [], _, ss, h => by
    obtain rfl := Except.ok.inj h
    exact ⟨[], rfl, rfl⟩
  | scope :: rest, level, ss, h => by
    obtain ⟨s, others, rfl, hs, hothers⟩ := statements_cons_eq_ok h
    obtain ⟨first, hfirst, -, hunits⟩ := outline_of_statement scope level hs
    obtain ⟨outlines, houtlines, hrest⟩ := outlines_of_statements rest level hothers
    refine ⟨first :: outlines, by rw [Scope.outlines, hfirst, houtlines]; rfl, ?_⟩
    simp [Statement.linePieces, Piece.isSpace, hunits, hrest, Outline.bracedAll, Outline.unitsAll]

end

/-- The scopes that stand directly in the body of a function are lowered one after the other. -/
theorem statements_of_body {scope : Scope} {ss : List Statement} (h : body file scope = .ok ss) :
    statements file scope.outermost = .ok ss := by
  cases scope with
  | block scopes span => exact h
  | forEach _ _ _ _ => cases h
  | matching _ _ _ => cases h
  | _ =>
    obtain ⟨s, hs, rfl⟩ := Except.map_eq_ok_iff.mp h
    simp only [Scope.outermost, statements, hs]
    rfl

/-- The body of a function that is lowered is made of the scopes that stand directly in it. -/
theorem body_of_function {name : String} {ascribed : Option TypeExpr} {signature : Signature TypeExpr} {scope : Scope}
    {f : Function} (h : (function file name ascribed signature scope).2 = .ok f) : body file scope = .ok f.body := by
  unfold function at h
  split at h
  · simp at h
  · obtain ⟨_, -, h⟩ := Except.bind_eq_ok_iff.mp h
    obtain ⟨_, hbody, ⟨⟩⟩ := Except.bind_eq_ok_iff.mp h
    exact hbody

/-- Control flow survives printing. What is printed for a scope at a level is a row of pieces, and white space aside C
reads it in exactly one way: as the control flow of the scope, with braces around the first branch of every conditional
that has an `else`. The body of a function is read as the block of the scopes that stand directly in it. -/
theorem control_flow_survives_printing (file : SourceFile) :
    (∀ (scope : Scope) (level : Nat) (s : Statement), statement file scope = .ok s →
      s.text level = Piece.spell (.indent level :: s.pieces level) ∧
      ∃ outline, scope.outline file level = .ok outline ∧
        ∀ read, Outline.Parses (Piece.units (.indent level :: s.pieces level)) read ↔ read = outline.braced) ∧
    ∀ (name : String) (ascribed : Option TypeExpr) (signature : Signature TypeExpr) (scope : Scope) (f : Function),
      (function file name ascribed signature scope).2 = .ok f →
      ∃ head row outlines, f.text = head ++ Piece.spell row ∧
        row = Statement.blockPieces 0 (Statement.linePieces f.body 1) ∧
        Scope.outlines file scope.outermost 1 = .ok outlines ∧
        ∀ read, Outline.Parses (Piece.units row) read ↔ read = (Outline.block outlines).braced := by
  refine ⟨fun scope level s h => ⟨rfl, ?_⟩, fun name ascribed signature scope f h => ?_⟩
  · obtain ⟨outline, houtline, -, hunits⟩ := outline_of_statement scope level h
    exact ⟨outline, houtline, Outline.parses_braced_iff (by rw [Piece.units_cons, ← hunits]; rfl)⟩
  · obtain ⟨outlines, houtlines, hunits⟩ := outlines_of_statements scope.outermost 1
      (statements_of_body (body_of_function h))
    refine ⟨_, _, outlines, rfl, rfl, houtlines, Outline.parses_braced_iff ?_⟩
    rw [Statement.units_blockPieces, hunits, Outline.braced, Outline.units]

/-- A loop that ends with a conditional without an `else`, in front of an `else`. -/
def dangling : Scope :=
  let here := Span.nowhere
  let named (name : String) : Expr := .ident ⟨name, here⟩
  .conditional (named "a")
    (.whileLoop (named "b") (.conditional (named "c") (.statement (.expr (named "x"))) none here) here)
    (some (.statement (.expr (named "y")))) here

/-- The `else` is read as that of the outer conditional. -/
theorem dangling_keeps_its_else : ∃ s, statement ⟨[], []⟩ dangling = .ok s ∧
    ∀ read, Outline.Parses (Piece.units (.indent 0 :: s.pieces 0)) read ↔
      read = .conditional "if (a)" (.block [.loop "while (b)" (.conditional "if (c)" (.simple "x;") none)])
        (some (.simple "y;")) := by
  obtain ⟨-, outline, houtline, hread⟩ := (control_flow_survives_printing ⟨[], []⟩).1 dangling 0 _ rfl
  obtain rfl := Except.ok.inj houtline
  exact ⟨_, rfl, hread⟩

end Printing

end DeclTree

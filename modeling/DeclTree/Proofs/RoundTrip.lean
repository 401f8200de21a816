import DeclTree.Compilation
import DeclTree.Proofs.Calls
import DeclTree.Proofs.Documents

/-!
# Files read back from their documents

A file in any state of resolution is read back from its document as the file without marks and links, so a document that
is written after a resolution and the one that is written before it lead to the same compilation. The positions that a
file names are those of the cleared file, so they lie in the arena that is read back.
-/

namespace DeclTree

mutual

/-- Clearing an expression keeps the positions that it names. -/
theorem Expr.ids_cleared : ∀ e : Expr, e.cleared.ids = e.ids
  | .paren inner _ => Expr.ids_cleared inner
  | .unary _ operand _ => Expr.ids_cleared operand
  | .binary left _ right _ => congrArg₂ (· ++ ·) (Expr.ids_cleared left) (Expr.ids_cleared right)
  | .cast operand _ _ => Expr.ids_cleared operand
  | .field object _ _ => Expr.ids_cleared object
  | .index object position _ => congrArg₂ (· ++ ·) (Expr.ids_cleared object) (Expr.ids_cleared position)
  | .function _ body _ => Scope.ids_cleared body
  | .call callee arguments _ => congrArg₂ (· ++ ·) (Expr.ids_cleared callee) (Expr.listIds_clearedList arguments)
  | .ident _ => rfl
  | .literal _ _ => rfl
  | .bool _ _ => rfl
  | .array none _ elements _ => Expr.listIds_clearedList elements
  | .array (some count) _ elements _ =>
    congrArg₂ (· ++ ·) (Expr.ids_cleared count) (Expr.listIds_clearedList elements)

/-- Clearing expressions keeps the positions that they name. -/
theorem Expr.listIds_clearedList : ∀ es : List Expr, Expr.listIds (Expr.clearedList es) = Expr.listIds es
  | [] => rfl
  | e :: rest => congrArg₂ (· ++ ·) (Expr.ids_cleared e) (Expr.listIds_clearedList rest)

/-- Clearing a statement keeps the positions that it names. -/
theorem Stmt.ids_cleared : ∀ s : Stmt, s.cleared.ids = s.ids
  | .declaration _ _ => rfl
  | .increment target _ => Expr.ids_cleared target
  | .decrement target _ => Expr.ids_cleared target
  | .assign _ target value _ => congrArg₂ (· ++ ·) (Expr.ids_cleared target) (Expr.ids_cleared value)
  | .expr value => Expr.ids_cleared value
  | .label _ => rfl
  | .goto _ => rfl
  | .returning none _ => rfl
  | .returning (some value) _ => Expr.ids_cleared value

/-- Clearing a scope keeps the positions that it names. -/
theorem Scope.ids_cleared : ∀ s : Scope, s.cleared.ids = s.ids
  | .statement stmt => Stmt.ids_cleared stmt
  | .block scopes _ => Scope.listIds_clearedList scopes
  | .conditional condition consequent none _ =>
    congrArg₂ (· ++ ·) (Expr.ids_cleared condition) (Scope.ids_cleared consequent)
  | .conditional condition consequent (some alternative) _ => by
    simp only [Scope.cleared, Scope.ids, Expr.ids_cleared condition, Scope.ids_cleared consequent,
      Scope.ids_cleared alternative]
  | .forLoop init condition step body _ => by
    simp only [Scope.cleared, Scope.ids, Stmt.ids_cleared init, Expr.ids_cleared condition, Stmt.ids_cleared step,
      Scope.ids_cleared body]
  | .whileLoop condition body _ => congrArg₂ (· ++ ·) (Expr.ids_cleared condition) (Scope.ids_cleared body)
  | .forEach _ iterable body _ => congrArg₂ (· ++ ·) (Expr.ids_cleared iterable) (Scope.ids_cleared body)
  | .matching subject arms _ => congrArg₂ (· ++ ·) (Expr.ids_cleared subject) (Scope.armIds_clearedArms arms)

/-- Clearing scopes keeps the positions that they name. -/
theorem Scope.listIds_clearedList : ∀ ss : List Scope, Scope.listIds (Scope.clearedList ss) = Scope.listIds ss
  | [] => rfl
  | s :: rest => congrArg₂ (· ++ ·) (Scope.ids_cleared s) (Scope.listIds_clearedList rest)

/-- Clearing the cases of a match keeps the positions that they name. -/
theorem Scope.armIds_clearedArms : ∀ arms : List (Arm Scope), Scope.armIds (Scope.clearedArms arms) = Scope.armIds arms
  | [] => rfl
  | ⟨_, scopes, _⟩ :: rest => congrArg₂ (· ++ ·) (Scope.listIds_clearedList scopes) (Scope.armIds_clearedArms rest)

end

/-- Clearing keeps the positions that a declaration names. -/
theorem DeclKind.ids_cleared (kind : DeclKind) : kind.cleared.ids = kind.ids := by
  cases kind with
  | constant type value => cases type <;> exact Expr.ids_cleared value
  | mutable type value =>
    cases value with
    | none => rfl
    | some value => exact Expr.ids_cleared value
  | enumeration members => rfl
  | record kind members => rfl
  | sum members => rfl

/-- Clearing a file keeps the positions that it names. -/
theorem SourceFile.ids_cleared (file : SourceFile) : file.cleared.ids = file.ids := by
  simp only [ids, cleared, List.flatMap_map, Declaration.cleared, DeclKind.ids_cleared]

/-- A file whose positions lie in its arena is accepted once it is read. -/
theorem SourceFile.ofDocument_of_read? {text : String} {file : SourceFile}
    (hread : Document.read? Document.sourceFile text = some file)
    (hrange : ∀ id ∈ file.ids, id < file.declarations.length) : ofDocument text = .ok file := by
  have hnone : file.rangeError? = none := by
    rw [rangeError?, Option.map_eq_none_iff, List.find?_eq_none]
    simpa using hrange
  rw [ofDocument, hread]
  dsimp only
  rw [hnone]

section Text

variable {file : SourceFile} {text : String} (hexact : ∀ l ∈ file.literals, l.isFloat = false)
  (hwords : ∀ id ∈ file.ids, id < UInt64.size) (htext : Json.IsTextOf text (Document.ofSourceFile file))
  (hdepth : (Document.ofSourceFile file).depth ≤ 127)

include hexact hwords htext hdepth

/-- A file without floating-point literals is read from a text of its document, if that nests at most 127 deep. -/
theorem Document.read?_of_isTextOf : read? sourceFile text = some file.cleared := by
  have hrepresents := represents_sourceFile file ⟨hexact, fun id hid => Nat.le_sub_one_of_lt (hwords id hid)⟩
  rw [read?, htext.parse? hrepresents.legible]
  exact hrepresents.decodes _ hdepth

/-- A text of the document of such a file is accepted, if the positions lie in the arena. -/
theorem SourceFile.ofDocument_of_isTextOf (hrange : ∀ id ∈ file.ids, id < file.declarations.length) :
    ofDocument text = .ok file.cleared := by
  refine ofDocument_of_read? (Document.read?_of_isTextOf hexact hwords htext hdepth) fun id hid => ?_
  rw [ids_cleared] at hid
  simpa [cleared] using hrange id hid

end Text

/-- A file without floating-point literals is read back from its compact and from its pretty document, if that nests at
most 127 deep: the declarations are untouched, the links are absent, and all else is as it was. So a document of what
any calls made of a fresh file is compiled like the fresh file. The positions are in range, and they are words of 64
bits, as a document has them. -/
theorem document_restores_file (file : SourceFile) {text : String} (hexact : ∀ l ∈ file.literals, l.isFloat = false)
    (hrange : ∀ id ∈ file.ids, id < file.declarations.length) (hwords : ∀ id ∈ file.ids, id < UInt64.size)
    (htext : text = (Document.ofSourceFile file).compact ∨ text = (Document.ofSourceFile file).pretty)
    (hnesting : Json.nesting text ≤ 127) :
    SourceFile.ofDocument text = .ok file.cleared ∧
      ∀ (hash : String → Nat) (fresh : SourceFile) (calls : List (Call hash)) (options : Options),
        fresh.cleared = fresh → (runCalls ⟨fresh, []⟩ calls).file = file →
        ∃ reloaded, SourceFile.ofDocument text = .ok reloaded ∧
          compile hash reloaded options = compile hash fresh options := by
  have hwritten : Json.IsTextOf text (Document.ofSourceFile file) := htext
  have hrestored : SourceFile.ofDocument text = .ok file.cleared :=
    SourceFile.ofDocument_of_isTextOf hexact hwords hwritten (hwritten.nesting ▸ hnesting) hrange
  refine ⟨hrestored, fun hash fresh calls options hfresh hcalls => ⟨fresh, ?_, rfl⟩⟩
  have hcleared := (runCalls_advances ⟨fresh, []⟩ calls).cleared
  rw [hcalls] at hcleared
  rw [hrestored, hcleared, hfresh]

/-- A file with integers at their limits, a string with escapes, and a variable whose type is not declared. -/
def greeting : SourceFile :=
  let here := Span.nowhere
  let node : TypeExpr := .pointer (.named ⟨"Node", here⟩ none) here
  ⟨[⟨⟨"Node", ⟨4294967295, 0, 1, 2⟩⟩, .record .struct [⟨⟨"next", here⟩, node, here⟩], here, .untouched⟩,
    ⟨⟨"greet", here⟩, .constant none (.function ⟨[⟨⟨"to", here⟩, node, here⟩], .primitive .void here, here⟩
      (.block [.statement (.declaration 2 here),
        .statement (.expr (.call (.ident ⟨"print", here⟩) [.literal (.string "\"\\\n\x01é😀") here] here)),
        .statement (.returning (some (.literal (.u64 18446744073709551615) here)) here)] here) here), here, .untouched⟩,
    ⟨⟨"least", here⟩, .constant (some (.primitive .i64 here)) (.literal (.i64 (-9223372036854775808)) here), here,
      .untouched⟩,
    ⟨⟨"lost", here⟩, .mutable (.named ⟨"Missing", here⟩ none) none, here, .untouched⟩,
    ⟨⟨"Choice", here⟩, .sum [⟨⟨"none", here⟩, none, here⟩, ⟨⟨"some", here⟩, some node, here⟩], here, .untouched⟩],
    [0, 1, 3]⟩

/-- The file as its resolution leaves it, which fails at the variable. -/
def halted : SourceFile := (runCalls ⟨greeting, []⟩ [(.resolveFile : Call nameHash)]).file

/-- The document of the file that is resolved half way is compiled like the file that is not resolved. -/
theorem halted_is_restored : halted.marks = [.closed, .closed, .closed, .opened, .untouched] ∧
    Json.nesting (Document.ofSourceFile halted).pretty = 19 ∧
    SourceFile.ofDocument (Document.ofSourceFile halted).pretty = .ok halted.cleared ∧
    ∃ reloaded, SourceFile.ofDocument (Document.ofSourceFile halted).pretty = .ok reloaded ∧
      compile nameHash reloaded ⟨true, true⟩ = compile nameHash greeting ⟨true, true⟩ := by
  have hwritten : Json.IsTextOf (Document.ofSourceFile halted).pretty (Document.ofSourceFile halted) := .inr rfl
  have hnesting : Json.nesting (Document.ofSourceFile halted).pretty = 19 :=
    hwritten.nesting.trans (by decide +kernel)
  obtain ⟨hrestored, hcompiled⟩ := document_restores_file halted (by decide +kernel) (by decide +kernel)
    (by decide +kernel) (.inr rfl) (hnesting ▸ by decide)
  exact ⟨by decide +kernel, hnesting, hrestored, hcompiled nameHash greeting [.resolveFile] ⟨true, true⟩ rfl rfl⟩

end DeclTree

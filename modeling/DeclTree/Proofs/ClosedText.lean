import DeclTree.Proofs.Lexing
import DeclTree.Proofs.TagBinding

/-!
# Closed texts

What is printed for a tree whose words are identifiers is closed: the words have no quotes and brackets in them, the
literals are closed by themselves, and every bracket that is printed is closed behind what stands in it. The proof
follows the syntax of the tree, and a whole file is closed because its items are.
-/

namespace DeclTree

open C

variable {file : SourceFile}

/-- A tag behind its keyword is plain if its name is. -/
theorem isPlain_tag (kind : TagKind) {tag : String} (htag : IsPlain tag) : IsPlain (kind.keyword ++ " " ++ tag) := by
  refine .append ?_ htag
  cases kind <;> rfl

/-- A type whose names are identifiers is closed. -/
theorem TypeExpr.closed_lexemes : ∀ type : TypeExpr, (∀ word ∈ type.words, isIdentifier word) →
    Lexeme.Closed (type.lexemes file)
  | .primitive p _, _ => .plain (by cases p <;> rfl) .nil
  | .pointer base _, h => (base.closed_lexemes h).append (.plain rfl .nil)
  | .nullable base _, h => (base.closed_lexemes h).append (.plain rfl .nil)
  | .array element _, h => element.closed_lexemes h
  | .named name link, h => by
    have hname : IsPlain name.name := .identifier (h _ (List.mem_singleton.mpr rfl))
    cases link with
    | none => exact .nil
    | some id =>
      rw [lexemes, Option.bind_some]
      cases file.tagKindAt? id with
      | none => exact .nil
      | some kind =>
        have huse : IsClosed (Lexeme.use kind name.name id).text := (isPlain_tag kind hname).isClosed
        exact .cons huse .nil
  | .function _, _ => .nil

/-- A unary operator is plain. -/
theorem isPlain_unaryGlyph (op : UnaryOp) : IsPlain (unaryGlyph op) := by cases op <;> rfl

/-- A binary operator is plain, with the blanks around it. -/
theorem isPlain_binaryGlyph (op : BinaryOp) : IsPlain (" " ++ binaryGlyph op ++ " ") := by cases op <;> rfl

/-- An assignment operator is plain, with the blanks around it. -/
theorem isPlain_assignGlyph (op : AssignOp) : IsPlain (" " ++ (Lowering.assignGlyph? op).getD "" ++ " ") := by
  cases op <;> rfl

mutual

/-- An expression is closed. -/
theorem Expr.closed_lexemes : ∀ e : Expr, (∀ word ∈ e.words, isIdentifier word) → Lexeme.Closed (e.lexemes file)
  | .paren inner _, h => .enclosed (fun _ => rfl) (inner.closed_lexemes h) (fun _ => rfl) .nil
  | .unary op operand _, h => .plain (isPlain_unaryGlyph op) (operand.closed_lexemes h)
  | .binary left op right _, h =>
    have h := List.forall_mem_append.mp h
    (left.closed_lexemes h.1).append (.plain (isPlain_binaryGlyph op) (right.closed_lexemes h.2))
  | .cast operand type _, h =>
    have h := List.forall_mem_append.mp h
    .enclosed (fun _ => rfl) (type.closed_lexemes h.2) (fun _ => rfl) (operand.closed_lexemes h.1)
  | .field object name _, h =>
    have h := List.forall_mem_append.mp h
    (object.closed_lexemes h.1).append
      (.plain (.append rfl (.identifier (h.2 _ (List.mem_singleton.mpr rfl)))) .nil)
  | .index object position _, h =>
    have h := List.forall_mem_append.mp h
    (object.closed_lexemes h.1).append (.enclosed (fun _ => rfl) (position.closed_lexemes h.2) (fun _ => rfl) .nil)
  | .function .., _ => .nil
  | .call callee arguments _, h =>
    have h := List.forall_mem_append.mp h
    (callee.closed_lexemes h.1).append
      (.enclosed (fun _ => rfl) (Expr.closed_listLexemes arguments h.2).1 (fun _ => rfl) .nil)
  | .ident _, h => .plain (.identifier (h _ (List.mem_singleton.mpr rfl))) .nil
  | .literal value _, _ => .cons (isClosed_literalText value) .nil
  | .bool value _, _ => .plain (by cases value <;> rfl) .nil
  | .array none _ elements _, h =>
    .enclosed (fun _ => rfl) (Expr.closed_listLexemes elements (List.forall_mem_append.mp h).2).1 (fun _ => rfl) .nil
  | .array (some _) _ elements _, h =>
    .enclosed (fun _ => rfl) (Expr.closed_listLexemes elements (List.forall_mem_append.mp h).2).1 (fun _ => rfl) .nil

/-- Expressions are closed, with commas between or a comma before each. -/
theorem Expr.closed_listLexemes : ∀ es : List Expr, (∀ word ∈ Expr.listWords es, isIdentifier word) →
    Lexeme.Closed (Expr.listLexemes file es) ∧ Lexeme.Closed (Expr.moreLexemes file es)
  | [], _ => ⟨.nil, .nil⟩
  | e :: rest, h =>
    have h := List.forall_mem_append.mp h
    have hfirst := e.closed_lexemes h.1
    have hrest := (Expr.closed_listLexemes rest h.2).2
    ⟨hfirst.append hrest, .plain rfl (.plain rfl (hfirst.append hrest))⟩

end

/-- The extent of an array is closed, with its brackets. -/
theorem closed_extentLexemes {count : Option Expr} (h : ∀ word ∈ Expr.optionWords count, isIdentifier word) :
    Lexeme.Closed (extentLexemes file count) := by
  cases count with
  | none => exact .cons (fun _ => rfl) .nil
  | some count => exact .enclosed (fun _ => rfl) (count.closed_lexemes h) (fun _ => rfl) .nil

/-- A declarator whose names are identifiers is closed. -/
theorem closed_declaratorLexemes {type : TypeExpr} {name : String} {count : Option Expr}
    (htype : ∀ word ∈ type.words, isIdentifier word) (hname : isIdentifier name)
    (hcount : ∀ word ∈ Expr.optionWords count, isIdentifier word) :
    Lexeme.Closed (declaratorLexemes file type name count) := by
  have hplain : IsPlain (" " ++ name) := .append rfl (.identifier hname)
  cases type with
  | array element _ => exact (element.closed_lexemes htype).append (.plain hplain (closed_extentLexemes hcount))
  | _ => exact (TypeExpr.closed_lexemes _ htype).append (.plain hplain .nil)

/-- Slots whose words are identifiers have declarators that are closed. -/
theorem closed_slots {slots : List (Slot TypeExpr)} (h : ∀ word ∈ TypeExpr.slotWords slots, isIdentifier word) :
    ∀ slot ∈ slots, Lexeme.Closed (declaratorLexemes file slot.type slot.name.name none) := by
  induction slots with
  | nil => exact List.forall_mem_nil _
  | cons slot rest ih =>
    obtain ⟨hname, h⟩ := List.forall_mem_cons.mp h
    obtain ⟨htype, hrest⟩ := List.forall_mem_append.mp h
    exact List.forall_mem_cons.mpr ⟨closed_declaratorLexemes htype hname (List.forall_mem_nil _), ih hrest⟩

/-- The members of a record are closed. -/
theorem closed_memberLexemes {level : Nat} {slots : List (Slot TypeExpr)}
    (h : ∀ word ∈ TypeExpr.slotWords slots, isIdentifier word) :
    Lexeme.Closed (slots.flatMap (memberLexemes file level)) :=
  .flatMap fun slot hslot => .plain (.indentation level) ((closed_slots h slot hslot).append (.plain rfl .nil))

/-- An initial value is closed. -/
theorem closed_initialLexemes {value : Option Expr} (h : ∀ word ∈ Expr.optionWords value, isIdentifier word) :
    Lexeme.Closed (initialLexemes file value) := by
  cases value with
  | none => exact .nil
  | some value => exact .plain rfl (value.closed_lexemes h)

/-- The definition of a tag is closed if its members are. -/
theorem closed_definitionLexemes (level : Nat) (kind : TagKind) {tag : String} (id : DeclId) {members : List Lexeme}
    (htag : isIdentifier tag) (hmembers : Lexeme.Closed members) :
    Lexeme.Closed (definitionLexemes level kind tag id members) :=
  .cons (isPlain_tag kind (.identifier htag)).isClosed
    (.enclosed (fun _ => rfl) hmembers ((IsPlain.indentation level).append_closes fun _ => rfl) .nil)

/-- The members of an enumeration are plain. -/
theorem isPlain_members {level : Nat} {members : List Ident}
    (h : ∀ word ∈ members.map (·.name), isIdentifier word) :
    IsPlain (",\n".intercalate (members.map (indentation level ++ ·.name)) ++
      if members.isEmpty then "" else "\n") := by
  have hseparator : IsPlain ",\n" := rfl
  refine .append (.intercalate hseparator fun text htext => ?_) (by cases members.isEmpty <;> rfl)
  obtain ⟨member, hmember, rfl⟩ := List.mem_map.mp htext
  exact (IsPlain.indentation level).append (.identifier (h _ (List.mem_map_of_mem hmember)))

/-- A declaration that is not a function is closed. -/
theorem Declaration.closed_lexemes (level : Nat) (id : DeclId) {d : Declaration}
    (h : ∀ word ∈ d.words, isIdentifier word) : Lexeme.Closed (d.lexemes file level id) := by
  obtain ⟨hname, h⟩ := List.forall_mem_cons.mp h
  unfold Declaration.lexemes
  cases hkind : d.kind with
  | constant ascribed value =>
    rw [hkind] at h
    obtain ⟨htype, hvalue⟩ := List.forall_mem_append.mp h
    cases ascribed with
    | none => exact .nil
    | some type =>
      exact (closed_declaratorLexemes htype hname fun word hword => hvalue word (value.words_arrayCount hword)).append
        (closed_initialLexemes hvalue)
  | mutable type value =>
    rw [hkind] at h
    obtain ⟨htype, hvalue⟩ := List.forall_mem_append.mp h
    refine (closed_declaratorLexemes htype hname fun word hword => ?_).append (closed_initialLexemes hvalue)
    cases value with
    | none => cases hword
    | some value => exact hvalue word (value.words_arrayCount hword)
  | enumeration members =>
    rw [hkind] at h
    exact closed_definitionLexemes level .enum id hname (.plain (isPlain_members h) .nil)
  | record kind members =>
    rw [hkind] at h
    cases kind with
    | struct => exact closed_definitionLexemes level .struct id hname (closed_memberLexemes h)
    | union => exact closed_definitionLexemes level .union id hname (closed_memberLexemes h)
  | sum members => exact .nil

/-- A statement is closed. What it declares has its words from the file. -/
theorem Stmt.closed_lexemes (hfile : ∀ word ∈ file.words, isIdentifier word) (stmt : Stmt) (level : Nat)
    (h : ∀ word ∈ stmt.words, isIdentifier word) : Lexeme.Closed (stmt.lexemes file level) := by
  cases stmt with
  | declaration id _ =>
    rw [Stmt.lexemes]
    cases hdecl : file.decl? id with
    | none => exact .nil
    | some d =>
      exact Declaration.closed_lexemes level id fun word hword => hfile word (SourceFile.words_of_decl? hdecl hword)
  | increment target _ => exact .plain rfl (target.closed_lexemes h)
  | decrement target _ => exact .plain rfl (target.closed_lexemes h)
  | assign op target value _ =>
    obtain ⟨htarget, hvalue⟩ := List.forall_mem_append.mp h
    exact (target.closed_lexemes htarget).append (.plain (isPlain_assignGlyph op) (value.closed_lexemes hvalue))
  | expr value => exact value.closed_lexemes h
  | label name => exact .plain (.append (.identifier (h _ (List.mem_singleton.mpr rfl))) rfl) .nil
  | goto name => exact .plain (.append rfl (.identifier (h _ (List.mem_singleton.mpr rfl)))) .nil
  | returning value _ =>
    cases value with
    | none => exact .plain rfl .nil
    | some value => exact .plain rfl (value.closed_lexemes h)

/-- The body of a loop is closed, on a line of its own or in braces. -/
theorem closed_bodyLexemes (level : Nat) (isBlock : Bool) {lexemes : Nat → List Lexeme}
    (h : ∀ n, Lexeme.Closed (lexemes n)) : Lexeme.Closed (bodyLexemes level isBlock lexemes) := by
  cases isBlock with
  | true => exact .plain rfl (h level)
  | false => exact .plain (.append rfl (.indentation _)) (h (level + 1))

/-- A block is closed if its lines are. -/
theorem closed_blockLexemes (level : Nat) {lines : List Lexeme} (h : Lexeme.Closed lines) :
    Lexeme.Closed (blockLexemes level lines) := by
  have hlines : Lexeme.Closed (.plain "\n" :: (lines ++ [.plain (indentation level)])) :=
    .plain rfl (h.append (.plain (.indentation level) .nil))
  have hblock : Lexeme.Closed (.openBrace :: (.plain "\n" :: (lines ++ [.plain (indentation level)])
      ++ .closeBrace :: [.plain "\n\n"])) := .enclosed (fun _ => rfl) hlines (fun _ => rfl) (.plain rfl .nil)
  simpa [blockLexemes] using hblock

/-- The first branch of a conditional is closed, also where it gets braces. -/
theorem closed_branchLexemes (level : Nat) (isBlock : Bool) {lexemes : Nat → List Lexeme}
    (h : ∀ n, Lexeme.Closed (lexemes n)) : Lexeme.Closed (branchLexemes level isBlock lexemes) := by
  cases isBlock with
  | true => exact .plain rfl (h level)
  | false => exact .plain rfl (closed_blockLexemes level (.plain (.indentation _) (h (level + 1))))

/-- The second branch of a conditional is closed. -/
theorem closed_elseLexemes (level : Nat) (isBlock isConditional : Bool) {lexemes : Nat → List Lexeme}
    (h : ∀ n, Lexeme.Closed (lexemes n)) : Lexeme.Closed (elseLexemes level isBlock isConditional lexemes) := by
  refine .plain (.append (.indentation level) rfl) ?_
  cases isConditional with
  | true => exact .plain rfl (h level)
  | false => exact closed_bodyLexemes level isBlock h

mutual

/-- A scope is closed. -/
theorem Scope.closed_lexemes (hfile : ∀ word ∈ file.words, isIdentifier word) : ∀ (scope : Scope) (level : Nat),
    (∀ word ∈ scope.words, isIdentifier word) → Lexeme.Closed (scope.lexemes file level)
  | .statement stmt, level, h => (stmt.closed_lexemes hfile level h).append (.plain rfl .nil)
  | .block scopes _, level, h => closed_blockLexemes level (Scope.closed_lineLexemes hfile scopes (level + 1) h)
  | .conditional condition consequent none _, level, h =>
    have h := List.forall_mem_append.mp h
    .enclosed (fun _ => rfl) (condition.closed_lexemes h.1) (fun _ => rfl)
      (closed_bodyLexemes level consequent.isBlock fun n => consequent.closed_lexemes hfile n h.2)
  | .conditional condition consequent (some alternative) _, level, h =>
    have h := List.forall_mem_append.mp h
    have hfirst := List.forall_mem_append.mp h.1
    .enclosed (fun _ => rfl) (condition.closed_lexemes hfirst.1) (fun _ => rfl)
      ((closed_branchLexemes level consequent.isBlock fun n => consequent.closed_lexemes hfile n hfirst.2).append
        (closed_elseLexemes level alternative.isBlock alternative.isConditional fun n =>
          alternative.closed_lexemes hfile n h.2))
  | .forLoop init condition step body _, level, h => by
    simp only [Scope.words, List.forall_mem_append] at h
    obtain ⟨⟨⟨hinit, hcondition⟩, hstep⟩, hbody⟩ := h
    have hheader : Lexeme.Closed (init.lexemes file level ++
        .plain "; " :: (condition.lexemes file ++ .plain "; " :: step.lexemes file level)) :=
      (init.closed_lexemes hfile level hinit).append
        (.plain rfl ((condition.closed_lexemes hcondition).append (.plain rfl (step.closed_lexemes hfile level hstep))))
    have hrest : Lexeme.Closed ((bodyLexemes level body.isBlock fun n => body.lexemes file n) ++ [.endLoop]) :=
      (closed_bodyLexemes level body.isBlock fun n => body.closed_lexemes hfile n hbody).append
        (.cons (fun _ => rfl) .nil)
    have hloop : Lexeme.Closed (.openHeader :: (_ ++ .closeHeader :: _)) :=
      .enclosed (fun _ => rfl) hheader (fun _ => rfl) hrest
    simpa [Scope.lexemes] using hloop
  | .whileLoop condition body _, level, h =>
    have h := List.forall_mem_append.mp h
    .enclosed (fun _ => rfl) (condition.closed_lexemes h.1) (fun _ => rfl)
      (closed_bodyLexemes level body.isBlock fun n => body.closed_lexemes hfile n h.2)
  | .forEach .., _, _ => .nil
  | .matching .., _, _ => .nil

/-- Scopes that each start a line are closed. -/
theorem Scope.closed_lineLexemes (hfile : ∀ word ∈ file.words, isIdentifier word) :
    ∀ (scopes : List Scope) (level : Nat), (∀ word ∈ Scope.listWords scopes, isIdentifier word) →
      Lexeme.Closed (Scope.lineLexemes file scopes level)
  | [], _, _ => .nil
  | scope :: rest, level, h =>
    have h := List.forall_mem_append.mp h
    .plain (.indentation level)
      ((scope.closed_lexemes hfile level h.1).append (Scope.closed_lineLexemes hfile rest level h.2))

end

/-- The head of a function is closed. -/
theorem closed_headLexemes {name : String} {ascribed : Option TypeExpr} {signature : Signature TypeExpr}
    (hname : isIdentifier name) (hascribed : ∀ word ∈ TypeExpr.optionWords ascribed, isIdentifier word)
    (hsignature : ∀ word ∈ signature.words, isIdentifier word) :
    Lexeme.Closed (headLexemes file name ascribed signature) := by
  have hresult : Lexeme.Closed ((Lowering.resultType ascribed signature).lexemes file) :=
    TypeExpr.closed_lexemes _ fun word hword =>
      List.forall_mem_append.mpr ⟨hascribed, hsignature⟩ word (words_resultType ascribed signature hword)
  have hname : IsPlain (" " ++ name) := .append rfl (.identifier hname)
  have hparams : Lexeme.Closed ([Lexeme.plain ", "].intercalate
      (signature.params.map fun slot => declaratorLexemes file slot.type slot.name.name none)) := by
    have hcomma : Lexeme.Closed [.plain ", "] := .plain rfl .nil
    refine .intercalate hcomma fun row hrow => ?_
    obtain ⟨slot, hslot, rfl⟩ := List.mem_map.mp hrow
    exact closed_slots (List.forall_mem_append.mp hsignature).1 slot hslot
  exact hresult.append (.enclosed (hname.append_opens fun _ => rfl) hparams (fun _ => rfl) .nil)

/-- An item is closed. -/
theorem SourceFile.closed_itemLexemes (hfile : ∀ word ∈ file.words, isIdentifier word) (id : DeclId) :
    Lexeme.Closed (file.itemLexemes id) := by
  cases hdecl : file.decl? id with
  | none =>
    rw [itemLexemes, hdecl]
    exact .nil
  | some d =>
    have hwords : ∀ word ∈ d.words, isIdentifier word := fun word hword => hfile word (words_of_decl? hdecl hword)
    cases hfunction : d.isFunction with
    | false =>
      rw [itemLexemes_of_not_function hdecl hfunction]
      exact (Declaration.closed_lexemes 0 id hwords).append (.plain rfl .nil)
    | true =>
      obtain ⟨ascribed, signature, scope, span, hkind⟩ := Declaration.exists_of_isFunction hfunction
      rw [Declaration.words, hkind, DeclKind.words, Expr.words] at hwords
      simp only [List.forall_mem_cons, List.forall_mem_append] at hwords
      obtain ⟨hname, hascribed, hsignature, hscope⟩ := hwords
      rw [itemLexemes_of_function hdecl hkind]
      refine (closed_headLexemes hname hascribed hsignature).append (closed_blockLexemes 0 ?_)
      exact Scope.closed_lineLexemes hfile scope.outermost 1 fun word hword => hscope word (scope.words_outermost hword)

/-- Literals and brackets are closed. A lexer that goes over the text that is generated from a file whose words are
identifiers, with or without a banner, ends in the code: every literal is closed on its line, and the brackets outside
literals are nested and closed, whatever characters the literals of the file hold. -/
theorem literals_and_brackets_are_closed {file : SourceFile} {banner : Bool} {text : String}
    (hwords : ∀ word ∈ file.words, isIdentifier word = true) (hgenerate : (generate file banner).2 = .ok text) :
    Lexing.start.run text = some Lexing.start := by
  obtain ⟨lowered, rfl, hemits⟩ := layout_of_generate hgenerate
  have hitems : Lexeme.Closed (file.resolutionOrder.flatMap file.itemLexemes) :=
    .flatMap fun id _ => SourceFile.closed_itemLexemes hwords id
  have hbanner : IsPlain (if banner then C.banner else "") := by cases banner <;> rfl
  rw [unitText, ← spell_items hemits, Lexing.run_append, Lexing.start, hbanner.run_eq]
  exact hitems []

/-- A function that returns a string with quotes, brackets, a backslash and the end of a line in it. -/
def quoting : SourceFile :=
  let here := Span.nowhere
  ⟨[⟨⟨"quote", here⟩, .constant none (.function ⟨[], .pointer (.primitive .char here) here, here⟩
    (.statement (.returning (some (.literal (.string "\\\x22)\n\x27\x7b[") here)) here)) here), here, .untouched⟩], [0]⟩

/-- The text of the function. -/
def quotingText : String :=
  "/* Generated by creedc */\nchar * quote() \x7b\n    return \x22\\\\\\\x22)\\n\\\x27\x7b[\x22;\n\x7d\n\n"

/-- The text of a function that returns a string of quotes and brackets is closed. -/
theorem quoting_is_closed : (∀ word ∈ quoting.words, isIdentifier word = true) ∧
    (generate quoting true).2 = .ok quotingText ∧ Lexing.start.run quotingText = some Lexing.start := by
  have hwords : ∀ word ∈ quoting.words, isIdentifier word = true := List.all_eq_true.mp rfl
  have hgenerate : (generate quoting true).2 = .ok quotingText := rfl
  exact ⟨hwords, hgenerate, literals_and_brackets_are_closed hwords hgenerate⟩

end DeclTree

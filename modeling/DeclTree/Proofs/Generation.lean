import DeclTree.Lowering.Unit
import DeclTree.Proofs.Settling
import DeclTree.Proofs.TypeNames

/-!
# Generating from settled declarations

What lowering needs of a tree: each link that it comes to leads to a record, and each declaration that a statement
names is closed. Then every type name that it makes is a primitive type or carries the tag of a record, and the only
errors left are those of constructs without a C form and of constants without a type.
-/

namespace DeclTree

/-- The errors that generation may give for a file that has been resolved. -/
def Error.isLimit : Error → Bool
  | .missingType .. | .unsupported .. => true
  | _ => false

/-- All type names are as stated of records. -/
def TagsRecords (names : List C.TypeName) : Prop := ∀ type ∈ names, type.TagsRecord

namespace TagsRecords

variable {names others : List C.TypeName} {type : C.TypeName}

/-- An empty row of type names carries no tags. -/
theorem nil : TagsRecords [] := by simp [TagsRecords]

/-- A type name that is as stated may stand before others that are. -/
theorem cons (htype : type.TagsRecord) (h : TagsRecords names) : TagsRecords (type :: names) :=
  List.forall_mem_cons.mpr ⟨htype, h⟩

/-- Type names that are as stated are so in one row. -/
theorem append (h : TagsRecords names) (h' : TagsRecords others) : TagsRecords (names ++ others) :=
  List.forall_mem_append.mpr ⟨h, h'⟩

end TagsRecords

/-- A result is as stated, or an error that generation may give. -/
def Yields {α : Type} (P : α → Prop) : Except Error α → Prop
  | .ok value => P value
  | .error error => error.isLimit = true

namespace Yields

variable {α β : Type} {P : α → Prop} {Q : β → Prop} {result : Except Error α}

/-- Results in sequence are as stated if each of them is. -/
theorem bind (h : Yields P result) {next : α → Except Error β} (hnext : ∀ value, P value → Yields Q (next value)) :
    Yields Q (result >>= next) := by
  cases result with
  | ok value => exact hnext value h
  | error error => exact h

/-- A result is as stated if the value it is changed from is. -/
theorem map (h : Yields P result) {change : α → β} (hchange : ∀ value, P value → Q (change value)) :
    Yields Q (result.map change) := by
  cases result with
  | ok value => exact hchange value h
  | error error => exact h

end Yields

section Tree

variable {now : SourceFile}

/-- A link leads to a record. -/
def LeadsToRecord (now : SourceFile) (link : Option DeclId) : Prop :=
  ∃ id d kind members, link = some id ∧ now.decl? id = some d ∧ d.kind = .record kind members

/-- A named type that is linked to a record takes its tag. -/
theorem namedType_yields {link : Option DeclId} (h : LeadsToRecord now link) (name : Ident) :
    Yields C.TypeName.TagsRecord (Lowering.namedType now name link) := by
  obtain ⟨id, ⟨_, _, _, _⟩, kind, members, rfl, hdecl, rfl⟩ := h
  rw [Lowering.namedType, Lowering.declAt, hdecl]
  cases kind with
  | struct => exact fun _ _ htag => .inl (C.TypeBase.tagged.inj htag).1.symm
  | union => exact fun _ _ htag => .inr (C.TypeBase.tagged.inj htag).1.symm

/-- The links of types lead to records, so their names carry the tags of records. -/
theorem typeName_yields : ∀ type : TypeExpr, (∀ link ∈ type.links, LeadsToRecord now link) →
    Yields C.TypeName.TagsRecord (Lowering.typeName now type)
  | .primitive p _, _ => by
    rintro _ _ ⟨⟩
  | .pointer base _, h => (typeName_yields base h).map fun _ htype => htype
  | .nullable base _, h => (typeName_yields base h).map fun _ htype => htype
  | .array element _, h => typeName_yields element h
  | .named name link, h => namedType_yields (h link (List.mem_singleton_self _)) name
  | .function _, _ => rfl

/-- Literals name no types. -/
theorem literal_yields (value : Literal) (span : Span) :
    Yields (fun e => TagsRecords e.typeNames) (Lowering.literal value span) := by
  unfold Lowering.literal
  split
  · split
    · exact .nil
    · rfl
  · split
    · exact .nil
    · rfl
  · exact .nil

mutual

/-- An expression whose links lead to records names only records. -/
theorem expr_yields : ∀ e : Expr, (∀ link ∈ e.links, LeadsToRecord now link) →
    Yields (fun lowered => TagsRecords lowered.typeNames) (Lowering.expr now e)
  | .paren inner _, h => (expr_yields inner h).bind fun _ hinner => hinner
  | .unary _ operand _, h => (expr_yields operand h).bind fun _ hoperand => hoperand
  | .binary left _ right _, h => by
    obtain ⟨hleft, hright⟩ := List.forall_mem_append.mp h
    exact (expr_yields left hleft).bind fun _ hl => (expr_yields right hright).bind fun _ hr => hl.append hr
  | .cast operand type _, h => by
    obtain ⟨htype, hoperand⟩ := List.forall_mem_append.mp h
    exact (typeName_yields type htype).bind fun _ ht => (expr_yields operand hoperand).bind fun _ ho => .cons ht ho
  | .field object _ _, h => (expr_yields object h).bind fun _ hobject => hobject
  | .index object position _, h => by
    obtain ⟨hobject, hposition⟩ := List.forall_mem_append.mp h
    exact (expr_yields object hobject).bind fun _ ho => (expr_yields position hposition).bind fun _ hp => ho.append hp
  | .function _ _ _, _ => rfl
  | .call callee arguments _, h => by
    obtain ⟨hcallee, harguments⟩ := List.forall_mem_append.mp h
    exact (expr_yields callee hcallee).bind fun _ hc =>
      (exprs_yields arguments harguments).bind fun _ ha => hc.append ha
  | .ident _, _ => .nil
  | .literal value span, _ => literal_yields value span
  | .bool _ _, _ => .nil
  | .array none _ elements _, h =>
    (exprs_yields elements (List.forall_mem_append.mp h).2).bind fun _ helements => helements
  | .array (some _) _ elements _, h =>
    (exprs_yields elements (List.forall_mem_append.mp (List.forall_mem_append.mp h).2).2).bind
      fun _ helements => helements

/-- Expressions whose links lead to records name only records. -/
theorem exprs_yields : ∀ es : List Expr, (∀ link ∈ Expr.listLinks es, LeadsToRecord now link) →
    Yields (fun lowered => TagsRecords (C.Expr.listTypeNames lowered)) (Lowering.exprs now es)
  | [], _ => .nil
  | e :: rest, h => by
    obtain ⟨hfirst, hrest⟩ := List.forall_mem_append.mp h
    exact (expr_yields e hfirst).bind fun _ hf => (exprs_yields rest hrest).bind fun _ hr => hf.append hr

end

/-- A value that may be absent names only records if its links lead to records. -/
theorem optionExpr_yields (e : Option Expr)
    (h : ∀ value, e = some value → ∀ link ∈ value.links, LeadsToRecord now link) :
    Yields (fun lowered => TagsRecords (C.Expr.optionTypeNames lowered)) (Lowering.optionExpr now e) := by
  cases e with
  | none => exact .nil
  | some value => exact (expr_yields value (h value rfl)).map fun _ hvalue => hvalue

/-- A declarator whose links lead to records names only records; so does the count of an array. -/
theorem declarator_yields (type : TypeExpr) (name : String) (count : Option Expr)
    (htype : ∀ link ∈ type.links, LeadsToRecord now link)
    (hcount : ∀ e, count = some e → ∀ link ∈ e.links, LeadsToRecord now link) :
    Yields (fun d => TagsRecords d.typeNames) (Lowering.declarator now type name count) := by
  unfold Lowering.declarator
  split
  · rfl
  · next element _ _ =>
    have hextent : Yields (fun extent => TagsRecords extent.typeNames) (Lowering.extent now count) := by
      cases count with
      | none => exact .nil
      | some e => exact (expr_yields e (hcount e rfl)).map fun _ he => he
    exact hextent.bind fun _ he => (typeName_yields element htype).bind fun _ ht => .cons ht he
  · exact (typeName_yields _ htype).bind fun _ ht => .cons ht .nil

/-- Slots whose links lead to records name only records. -/
theorem declarators_yields (slots : List (Slot TypeExpr))
    (h : ∀ link ∈ TypeExpr.slotLinks slots, LeadsToRecord now link) :
    Yields (fun ds => TagsRecords (ds.flatMap C.Declarator.typeNames)) (Lowering.declarators now slots) := by
  unfold Lowering.declarators
  induction slots with
  | nil => exact .nil
  | cons slot rest ih =>
    obtain ⟨hslot, hrest⟩ := List.forall_mem_append.mp h
    rw [List.mapM_cons]
    exact (declarator_yields slot.type _ none hslot (by simp)).bind fun _ hd =>
      (ih hrest).bind fun _ hds => hd.append hds

/-- The count of an array literal is part of the literal. -/
theorem links_of_arrayCount {value count : Expr} (h : Lowering.arrayCount value = some count) :
    ∀ link ∈ count.links, link ∈ value.links := by
  unfold Lowering.arrayCount at h
  split at h
  · subst h
    intro link hlink
    exact List.mem_append_right _ (List.mem_append_left _ hlink)
  · simp at h

/-- What lowering needs of a declaration: its links lead to records, and it is not an enumeration or a sum. -/
structure Lowerable (now : SourceFile) (d : Declaration) : Prop where
  links : ∀ link ∈ d.links, LeadsToRecord now link
  notEnumeration : ∀ members, d.kind ≠ .enumeration members
  notSum : ∀ members, d.kind ≠ .sum members

/-- A declaration that can be lowered names only records. -/
theorem declaration_yields {d : Declaration} (h : Lowerable now d) :
    Yields (fun lowered => TagsRecords lowered.typeNames) (Lowering.declaration now d) := by
  have hlinks := h.links
  rw [Declaration.links] at hlinks
  unfold Lowering.declaration
  cases hkind : d.kind with
  | constant type value =>
    rw [hkind] at hlinks
    cases type with
    | none => rfl
    | some type =>
      obtain ⟨htype, hvalue⟩ := List.forall_mem_append.mp hlinks
      have hdeclarator := declarator_yields type d.name.name (Lowering.arrayCount value) htype
        fun count hcount link hlink => hvalue link (links_of_arrayCount hcount link hlink)
      exact hdeclarator.bind fun _ hd => (expr_yields value hvalue).bind fun _ hv => hd.append hv
  | mutable type value =>
    rw [hkind] at hlinks
    obtain ⟨htype, hvalue⟩ : (∀ link ∈ type.links, LeadsToRecord now link) ∧
        ∀ e, value = some e → ∀ link ∈ e.links, LeadsToRecord now link := by
      cases value with
      | none => exact ⟨hlinks, by simp⟩
      | some e =>
        obtain ⟨htype, hvalue⟩ := List.forall_mem_append.mp hlinks
        exact ⟨htype, fun _ he => Option.some_inj.mp he ▸ hvalue⟩
    have hdeclarator := declarator_yields type d.name.name (value.bind Lowering.arrayCount) htype
      fun count hcount link hlink => by
        obtain ⟨e, he, hcount⟩ := Option.bind_eq_some_iff.mp hcount
        exact hvalue e he link (links_of_arrayCount hcount link hlink)
    exact hdeclarator.bind fun _ hd => (optionExpr_yields value hvalue).bind fun _ hv => hd.append hv
  | enumeration members => exact absurd hkind (h.notEnumeration members)
  | record kind members =>
    rw [hkind] at hlinks
    exact (declarators_yields members hlinks).bind fun _ hmembers => hmembers
  | sum members => exact absurd hkind (h.notSum members)

/-- What lowering needs of a statement: its links lead to records, and what it declares can be lowered. -/
structure Supports (now : SourceFile) (links : List (Option DeclId)) (steps : List Step) : Prop where
  links : ∀ link ∈ links, LeadsToRecord now link
  locals : ∀ id, .declare id ∈ steps → ∃ d, now.decl? id = some d ∧ Lowerable now d

namespace Supports

variable {links others : List (Option DeclId)} {steps more : List Step}

/-- What supports two parts supports the first. -/
theorem left (h : Supports now (links ++ others) (steps ++ more)) : Supports now links steps :=
  ⟨(List.forall_mem_append.mp h.links).1, fun id hid => h.locals id (List.mem_append_left _ hid)⟩

/-- What supports two parts supports the second. -/
theorem right (h : Supports now (links ++ others) (steps ++ more)) : Supports now others more :=
  ⟨(List.forall_mem_append.mp h.links).2, fun id hid => h.locals id (List.mem_append_right _ hid)⟩

/-- The scope that steps enter and leave does not matter. -/
theorem inside (h : Supports now links (.enter :: (steps ++ [.leave]))) : Supports now links steps :=
  ⟨h.links, fun id hid => h.locals id (by simp [hid])⟩

end Supports

/-- A simple statement that is supported names only records. -/
theorem simple_yields : ∀ stmt : Stmt, Supports now stmt.links stmt.steps →
    Yields (fun lowered => TagsRecords lowered.typeNames) (Lowering.simple now stmt)
  | .declaration id span, h => by
    obtain ⟨d, hdecl, hlowerable⟩ := h.locals id (List.mem_singleton_self _)
    have hdeclAt : Yields (fun e => e = d) (Lowering.declAt now id) := by
      rw [Lowering.declAt, hdecl]
      rfl
    refine hdeclAt.bind fun e he => ?_
    subst he
    split
    · rfl
    · exact (declaration_yields hlowerable).bind fun _ hlowered => hlowered
  | .increment target _, h => (expr_yields target h.links).map fun _ htarget => htarget
  | .decrement target _, h => (expr_yields target h.links).map fun _ htarget => htarget
  | .assign op target value _, h => by
    obtain ⟨htarget, hvalue⟩ := List.forall_mem_append.mp h.links
    rw [Lowering.simple]
    split
    · rfl
    · exact (expr_yields target htarget).bind fun _ ht => (expr_yields value hvalue).bind fun _ hv => ht.append hv
  | .expr value, h => (expr_yields value h.links).map fun _ hvalue => hvalue
  | .label _, _ => .nil
  | .goto _, _ => .nil
  | .returning none _, _ => .nil
  | .returning (some value) _, h =>
    (optionExpr_yields (some value) fun _ hvalue => Option.some_inj.mp hvalue ▸ h.links).map fun _ hvalue => hvalue

mutual

/-- A scope that is supported names only records. -/
theorem statement_yields : ∀ scope : Scope, Supports now scope.links scope.steps →
    Yields (fun lowered => TagsRecords lowered.typeNames) (Lowering.statement now scope)
  | .statement stmt, h => (simple_yields stmt h).map fun _ hstmt => hstmt
  | .block scopes _, h => (statements_yields scopes h.inside).map fun _ hscopes => hscopes
  | .conditional condition consequent none _, h =>
    (expr_yields condition h.left.links).bind fun _ hc =>
      (statement_yields consequent h.right).bind fun _ hs => hc.append hs
  | .conditional condition consequent (some alternative) _, h => by
    have h' : Supports now (condition.links ++ consequent.links ++ alternative.links)
        (condition.steps ++ consequent.steps ++ alternative.steps) := by
      simpa only [Scope.links, Scope.steps, List.append_assoc] using h
    exact (expr_yields condition h'.left.left.links).bind fun _ hc =>
      (statement_yields consequent h'.left.right).bind fun _ hs =>
        (statement_yields alternative h'.right).bind fun _ ha => (hc.append hs).append ha
  | .forLoop init condition step body _, h => by
    have h' : Supports now (init.links ++ condition.links ++ step.links ++ body.links)
        (init.steps ++ condition.steps ++ step.steps ++ body.steps) := by
      refine Supports.inside ?_
      simpa only [Scope.links, Scope.steps, List.append_assoc, List.cons_append, List.nil_append] using h
    exact (simple_yields init h'.left.left.left).bind fun _ hi =>
      (expr_yields condition h'.left.left.right.links).bind fun _ hc =>
        (simple_yields step h'.left.right).bind fun _ hs =>
          (statement_yields body h'.right).bind fun _ hb => ((hi.append hc).append hs).append hb
  | .whileLoop condition body _, h =>
    (expr_yields condition h.left.links).bind fun _ hc => (statement_yields body h.right).bind fun _ hb => hc.append hb
  | .forEach _ _ _ _, _ => rfl
  | .matching _ _ _, _ => rfl

/-- Scopes that are supported name only records. -/
theorem statements_yields : ∀ scopes : List Scope, Supports now (Scope.listLinks scopes) (Scope.listSteps scopes) →
    Yields (fun lowered => TagsRecords (C.Statement.listTypeNames lowered)) (Lowering.statements now scopes)
  | [], _ => .nil
  | scope :: rest, h =>
    (statement_yields scope h.left).bind fun _ hs => (statements_yields rest h.right).bind fun _ hr => hs.append hr

end

/-- The body of a function that is supported names only records. -/
theorem body_yields {scope : Scope} (h : Supports now scope.links scope.steps) :
    Yields (fun lowered => TagsRecords (C.Statement.listTypeNames lowered)) (Lowering.body now scope) := by
  unfold Lowering.body
  split
  · exact statements_yields _ h.inside
  · refine (statement_yields scope h).map fun s hs => ?_
    rw [C.Statement.listTypeNames, C.Statement.listTypeNames, List.append_nil]
    exact hs

/-- The result type of a function is part of its annotation or of its signature. -/
theorem resultType_links {ascribed : Option TypeExpr} {signature : Signature TypeExpr}
    (hascribed : ∀ type, ascribed = some type → ∀ link ∈ type.links, LeadsToRecord now link)
    (hsignature : ∀ link ∈ signature.links, LeadsToRecord now link) :
    ∀ link ∈ (Lowering.resultType ascribed signature).links, LeadsToRecord now link := by
  unfold Lowering.resultType
  split
  · exact fun link hlink => hascribed _ rfl link (List.mem_append_right _ hlink)
  · exact hascribed _ rfl
  · exact (List.forall_mem_append.mp hsignature).2

/-- A function whose signature leads to records and whose body is supported names only records. -/
theorem function_yields (name : String) {ascribed : Option TypeExpr} {signature : Signature TypeExpr} {scope : Scope}
    (hascribed : ∀ type, ascribed = some type → ∀ link ∈ type.links, LeadsToRecord now link)
    (hsignature : ∀ link ∈ signature.links, LeadsToRecord now link) (hscope : Supports now scope.links scope.steps) :
    Yields (fun lowered => TagsRecords (C.Item.function lowered).typeNames)
      (Lowering.function now name ascribed signature scope).2 := by
  have hparams := declarators_yields signature.params (List.forall_mem_append.mp hsignature).1
  unfold Lowering.function
  split
  · next e he =>
    rw [he] at hparams
    exact hparams
  · next params hok =>
    rw [hok] at hparams
    exact (typeName_yields _ (resultType_links hascribed hsignature)).bind fun _ hresult =>
      (body_yields hscope).bind fun _ hbody => (TagsRecords.cons hresult hparams).append hbody

/-- What lowering needs of an item: what it needs of a declaration, and that what its plan declares can be lowered. -/
structure ItemLowerable (now : SourceFile) (d : Declaration) : Prop extends Lowerable now d where
  locals : ∀ plan, d.plan? = some plan → ∀ id, .declare id ∈ plan → ∃ e, now.decl? id = some e ∧ Lowerable now e

/-- An item that can be lowered names only records. -/
theorem item_yields {d : Declaration} (h : ItemLowerable now d) :
    Yields (fun lowered => TagsRecords lowered.typeNames) (Lowering.item now d).2 := by
  have hother (hitem : (Lowering.item now d).2 = (Lowering.declaration now d).map C.Item.declaration) :
      Yields (fun lowered => TagsRecords lowered.typeNames) (Lowering.item now d).2 :=
    hitem ▸ (declaration_yields h.toLowerable).map fun _ hlowered => hlowered
  obtain ⟨name, kind, span, mark⟩ := d
  cases kind with
  | constant ascribed value =>
    cases value with
    | function signature scope _ =>
      have hplan : ∀ id, .declare id ∈ (Expr.function signature scope span).steps →
          ∃ e, now.decl? id = some e ∧ Lowerable now e := by
        intro id hid
        cases ascribed with
        | none => exact h.locals _ rfl id hid
        | some type => exact h.locals _ rfl id (List.mem_append_right _ hid)
      have hlinks : (∀ type, ascribed = some type → ∀ link ∈ type.links, LeadsToRecord now link) ∧
          ∀ link ∈ signature.links ++ scope.links, LeadsToRecord now link := by
        cases ascribed with
        | none => exact ⟨by simp, h.links⟩
        | some type =>
          obtain ⟨htype, hvalue⟩ := List.forall_mem_append.mp h.links
          exact ⟨fun _ heq => Option.some_inj.mp heq ▸ htype, hvalue⟩
      obtain ⟨hsignature, hscope⟩ := List.forall_mem_append.mp hlinks.2
      have hsupports : Supports now scope.links scope.steps :=
        ⟨hscope, fun id hid => hplan id (by simp [Expr.steps, hid])⟩
      exact (function_yields name.name hlinks.1 hsignature hsupports).map fun _ hlowered => hlowered
    | _ => exact hother rfl
  | _ => exact hother rfl

/-- Items that can be lowered are all lowered, or the error is one that generation may give. -/
theorem items_yields {ds : List Declaration} (h : ∀ d ∈ ds, ItemLowerable now d) :
    Yields (fun _ => True) (Lowering.items now ds).2 := by
  induction ds with
  | nil => trivial
  | cons d rest ih =>
    obtain ⟨hfirst, hrest⟩ := List.forall_mem_cons.mp h
    have hitem := item_yields hfirst
    rw [Lowering.items]
    split
    · next events e he =>
      rw [he] at hitem
      exact hitem
    · exact (ih hrest).map fun _ _ => trivial

/-- A file whose items can be lowered is generated, or the error is one that generation may give. -/
theorem generate_yields (h : ∀ d ∈ Lowering.emissionOrder now, ItemLowerable now d) (banner : Bool) :
    Yields (fun _ => True) (generate now banner).2 := by
  have hitems := items_yields h
  rw [generate]
  split
  · next events e he =>
    rw [he] at hitems
    exact hitems
  · trivial

end Tree

end DeclTree

import DeclTree.Proofs.Lexemes
import DeclTree.Proofs.Scoping

/-!
# The scopes of tags in C

A tag that is defined in C is visible from its definition to the closing brace of the innermost pair of braces around
it, or to the end of the for loop if it is defined in the parentheses of one; of several visible definitions the
innermost counts. `TagScopes.after` follows the rule from lexeme to lexeme, and `TagScopes.Binds` says that every use
that is met on the way is bound to the declaration that is linked there.

What a scope leaves defined behind it is a matter of the rule alone (`Scope.afterAll_lexemes`). It is not what the scope
declares in the scope around it: the first branch of a conditional that has an `else` stands in braces even if it is not
a block, and the body of a for loop need not stand in any.
-/

namespace DeclTree.C

/-- What bounds the visibility of a tag. -/
inductive Region where
  /-- A pair of braces, or the whole text. -/
  | braces
  /-- A for loop, between its parentheses. -/
  | header
  /-- A for loop, behind its parentheses; what is defined there does not belong to it. -/
  | loop
deriving DecidableEq

/-- A region that is open, with the tags that have been defined in it, the latest first. -/
structure Frame where
  region : Region
  tags : List (String × DeclId)
deriving DecidableEq

/-- The regions that are open, the innermost first. -/
abbrev TagScopes := List Frame

namespace TagScopes

/-- The regions at the start of a text. -/
def start : TagScopes := [⟨.braces, []⟩]

/-- The declaration that a tag is bound to: the innermost that is visible. -/
def find? (scopes : TagScopes) (tag : String) : Option DeclId := scopes.findSome? fun frame => frame.tags.lookup tag

/-- The regions after the definition of a tag. -/
def define (tag : String) (id : DeclId) : TagScopes → TagScopes
  | [] => []
  | ⟨.loop, tags⟩ :: outer => ⟨.loop, tags⟩ :: define tag id outer
  | ⟨region, tags⟩ :: outer => ⟨region, (tag, id) :: tags⟩ :: outer

/-- The regions behind the parentheses of a for loop. -/
def closeHeader : TagScopes → TagScopes
  | [] => []
  | frame :: outer => ⟨.loop, frame.tags⟩ :: outer

/-- The regions after a lexeme. -/
def after (scopes : TagScopes) : Lexeme → TagScopes
  | .plain _ | .use .. => scopes
  | .define _ tag id => scopes.define tag id
  | .openBrace => ⟨.braces, []⟩ :: scopes
  | .openHeader => ⟨.header, []⟩ :: scopes
  | .closeHeader => scopes.closeHeader
  | .closeBrace | .endLoop => scopes.tail

/-- The regions after a row of lexemes. -/
def afterAll (scopes : TagScopes) (lexemes : List Lexeme) : TagScopes := lexemes.foldl after scopes

/-- The use of a tag is bound to the declaration that is linked. -/
def Bound (scopes : TagScopes) : Lexeme → Prop
  | .use _ tag link => scopes.find? tag = some link
  | _ => True

instance (scopes : TagScopes) : DecidablePred scopes.Bound
  | .use _ tag link => inferInstanceAs (Decidable (scopes.find? tag = some link))
  | .plain _ | .define .. | .openBrace | .closeBrace | .openHeader | .closeHeader | .endLoop => isTrue trivial

/-- Every use of a tag in a row of lexemes is bound to the declaration that is linked. -/
def Binds : TagScopes → List Lexeme → Prop
  | _, [] => True
  | scopes, lexeme :: rest => scopes.Bound lexeme ∧ Binds (scopes.after lexeme) rest

instance decidableBinds : ∀ (scopes : TagScopes) (lexemes : List Lexeme), Decidable (scopes.Binds lexemes)
  | _, [] => isTrue trivial
  | scopes, lexeme :: rest =>
    have := decidableBinds (scopes.after lexeme) rest
    inferInstanceAs (Decidable (scopes.Bound lexeme ∧ Binds (scopes.after lexeme) rest))

variable {scopes : TagScopes}

/-- No lexemes change no regions. -/
@[simp] theorem afterAll_nil : scopes.afterAll [] = scopes := rfl

/-- Lexemes are followed one after the other. -/
@[simp] theorem afterAll_cons (lexeme : Lexeme) (rest : List Lexeme) :
    scopes.afterAll (lexeme :: rest) = (scopes.after lexeme).afterAll rest := rfl

/-- A row of lexemes is followed from where the row before it has led. -/
@[simp] theorem afterAll_append (first second : List Lexeme) :
    scopes.afterAll (first ++ second) = (scopes.afterAll first).afterAll second := List.foldl_append

/-- No lexemes use no tags. -/
@[simp] theorem binds_nil : scopes.Binds [] := trivial

/-- The uses in a row are bound if the first lexeme is bound where it stands and the rest behind it. -/
@[simp] theorem binds_cons (lexeme : Lexeme) (rest : List Lexeme) :
    scopes.Binds (lexeme :: rest) ↔ scopes.Bound lexeme ∧ (scopes.after lexeme).Binds rest := Iff.rfl

/-- The uses in two rows are bound if those of each are, the second behind the first. -/
@[simp] theorem binds_append (first second : List Lexeme) :
    scopes.Binds (first ++ second) ↔ scopes.Binds first ∧ (scopes.afterAll first).Binds second := by
  induction first generalizing scopes with
  | nil => simp
  | cons lexeme rest ih => simp [ih, and_assoc]

end TagScopes

/-- A lexeme that opens, closes and defines nothing, and uses only tags that have a property. -/
def Lexeme.Quiet (P : String → DeclId → Prop) : Lexeme → Prop
  | plain _ => True
  | use _ tag link => P tag link
  | define .. | openBrace | closeBrace | openHeader | closeHeader | endLoop => False

/-- A row of lexemes that opens, closes and defines nothing, and uses only tags that have a property. -/
def Quiet (P : String → DeclId → Prop) (lexemes : List Lexeme) : Prop := ∀ lexeme ∈ lexemes, lexeme.Quiet P

section Quiet

variable {P : String → DeclId → Prop}

/-- An empty row is quiet. -/
@[simp] theorem quiet_nil : Quiet P [] := by simp [Quiet]

/-- A row is quiet if its first lexeme and the rest are. -/
@[simp] theorem quiet_cons (lexeme : Lexeme) (rest : List Lexeme) :
    Quiet P (lexeme :: rest) ↔ lexeme.Quiet P ∧ Quiet P rest := List.forall_mem_cons

/-- Two rows are quiet together if each is. -/
@[simp] theorem quiet_append (first second : List Lexeme) :
    Quiet P (first ++ second) ↔ Quiet P first ∧ Quiet P second :=
  List.forall_mem_append

/-- A plain lexeme is quiet. -/
@[simp] theorem quiet_plain (text : String) : (Lexeme.plain text).Quiet P := trivial

/-- Quiet rows with a quiet one between them are quiet. -/
theorem quiet_intercalate {mark : List Lexeme} {rows : List (List Lexeme)} (hmark : Quiet P mark)
    (h : ∀ row ∈ rows, Quiet P row) : Quiet P (mark.intercalate rows) := by
  induction rows with
  | nil => simp
  | cons row rest ih =>
    obtain ⟨hrow, hrest⟩ := List.forall_mem_cons.mp h
    cases rest with
    | nil => simpa using hrow
    | cons next rest => simpa [List.intercalate_cons_cons] using ⟨hrow, hmark, ih hrest⟩

/-- A quiet lexeme changes no regions. -/
theorem Lexeme.Quiet.after_eq {lexeme : Lexeme} (h : lexeme.Quiet P) (scopes : TagScopes) :
    scopes.after lexeme = scopes := by
  cases lexeme with
  | plain _ | use _ _ _ => rfl
  | _ => exact h.elim

/-- A quiet row changes nothing. -/
theorem Quiet.afterAll_eq {lexemes : List Lexeme} (h : Quiet P lexemes) (scopes : TagScopes) :
    scopes.afterAll lexemes = scopes := by
  induction lexemes with
  | nil => rfl
  | cons lexeme rest ih =>
    obtain ⟨hfirst, hrest⟩ := (quiet_cons lexeme rest).mp h
    rw [TagScopes.afterAll_cons, hfirst.after_eq, ih hrest]

/-- The uses of a quiet row are bound if each of them is. -/
theorem Quiet.binds {lexemes : List Lexeme} {scopes : TagScopes}
    (h : Quiet (fun tag link => scopes.find? tag = some link) lexemes) : scopes.Binds lexemes := by
  induction lexemes with
  | nil => trivial
  | cons lexeme rest ih =>
    obtain ⟨hfirst, hrest⟩ := (quiet_cons lexeme rest).mp h
    rw [TagScopes.binds_cons, hfirst.after_eq]
    refine ⟨?_, ih hrest⟩
    cases lexeme with
    | use _ _ _ => exact hfirst
    | _ => trivial

end Quiet

end DeclTree.C

namespace DeclTree

open C (Lexeme TagScopes Quiet quiet_nil quiet_append)

/-- Every named type that nodes show in an environment has a property together with its link. -/
def LinksMeet (P : String → DeclId → Prop) (env : Env) (nodes : List (Env × LexicalNode)) : Prop :=
  ∀ name reach id, (env, .named name reach (some id)) ∈ nodes → P name.name id

/-- The links of nodes in two rows are as stated if those of each row are. -/
@[simp] theorem linksMeet_append {P : String → DeclId → Prop} {env : Env} {nodes others : List (Env × LexicalNode)} :
    LinksMeet P env (nodes ++ others) ↔ LinksMeet P env nodes ∧ LinksMeet P env others := by
  simp only [LinksMeet, List.mem_append, or_imp, forall_and]

section Uses

variable {file : SourceFile} {P : String → DeclId → Prop} {env : Env}

/-- The tags that a type uses are those of its named types. -/
theorem TypeExpr.quiet_lexemes : ∀ (type : TypeExpr) (reach : Reach), LinksMeet P env (type.nodes env reach) →
    Quiet P (type.lexemes file)
  | .primitive _ _, _, _ => by simp [lexemes]
  | .pointer base _, _, h => by simpa [lexemes] using base.quiet_lexemes .indirect h
  | .nullable base _, _, h => by simpa [lexemes] using base.quiet_lexemes .indirect h
  | .array element _, reach, h => element.quiet_lexemes reach h
  | .named name link, reach, h => by
    intro lexeme hlexeme
    simp only [lexemes, Option.mem_toList, Option.bind_eq_some_iff, Option.map_eq_some_iff] at hlexeme
    obtain ⟨id, rfl, kind, -, rfl⟩ := hlexeme
    exact h name reach id (List.mem_singleton_self _)
  | .function _, _, _ => by simp [lexemes]

mutual

/-- The tags that an expression uses are those of its named types. -/
theorem Expr.quiet_lexemes : ∀ e : Expr, LinksMeet P env (e.nodes env) → Quiet P (e.lexemes file)
  | .paren inner _, h => by simpa [Expr.lexemes] using inner.quiet_lexemes h
  | .unary _ operand _, h => by simpa [Expr.lexemes] using operand.quiet_lexemes h
  | .binary left _ right _, h => by
    obtain ⟨hleft, hright⟩ := linksMeet_append.mp h
    simpa [Expr.lexemes] using ⟨left.quiet_lexemes hleft, right.quiet_lexemes hright⟩
  | .cast operand type _, h => by
    obtain ⟨htype, hoperand⟩ := linksMeet_append.mp h
    simpa [Expr.lexemes] using ⟨type.quiet_lexemes .byValue htype, operand.quiet_lexemes hoperand⟩
  | .field object _ _, h => by simpa [Expr.lexemes] using object.quiet_lexemes h
  | .index object position _, h => by
    obtain ⟨hobject, hposition⟩ := linksMeet_append.mp h
    simpa [Expr.lexemes] using ⟨object.quiet_lexemes hobject, position.quiet_lexemes hposition⟩
  | .function .., _ => by simp [Expr.lexemes]
  | .call callee arguments _, h => by
    obtain ⟨hcallee, harguments⟩ := linksMeet_append.mp h
    simpa [Expr.lexemes] using ⟨callee.quiet_lexemes hcallee, (Expr.quiet_listLexemes arguments harguments).1⟩
  | .ident _, _ => by simp [Expr.lexemes]
  | .literal _ _, _ => by simp [Expr.lexemes]
  | .bool _ _, _ => by simp [Expr.lexemes]
  | .array none element elements _, h => by
    obtain ⟨-, helements⟩ := linksMeet_append.mp h
    simpa [Expr.lexemes] using (Expr.quiet_listLexemes elements helements).1
  | .array (some count) element elements _, h => by
    obtain ⟨-, helements⟩ := linksMeet_append.mp h
    simpa [Expr.lexemes] using (Expr.quiet_listLexemes elements helements).1

/-- The tags that expressions use are those of their named types. -/
theorem Expr.quiet_listLexemes : ∀ es : List Expr, LinksMeet P env (Expr.listNodes env es) →
    Quiet P (Expr.listLexemes file es) ∧ Quiet P (Expr.moreLexemes file es)
  | [], _ => by simp [Expr.listLexemes, Expr.moreLexemes]
  | e :: rest, h => by
    obtain ⟨hfirst, hrest⟩ := linksMeet_append.mp h
    have hfirst : Quiet P (e.lexemes file) := e.quiet_lexemes hfirst
    have hrest := (Expr.quiet_listLexemes rest hrest).2
    exact ⟨by simpa [Expr.listLexemes] using ⟨hfirst, hrest⟩, by simpa [Expr.moreLexemes] using ⟨hfirst, hrest⟩⟩

end

/-- The count that an array literal spells out is part of it. -/
theorem linksMeet_arrayCount {value count : Expr} (hcount : Lowering.arrayCount value = some count)
    (h : LinksMeet P env (value.nodes env)) : LinksMeet P env (count.nodes env) := by
  cases value with
  | array written element elements span =>
    obtain rfl : written = some count := hcount
    exact (linksMeet_append.mp (linksMeet_append.mp h).1).2
  | _ => cases hcount

/-- The tags that a declarator uses are those of its type and of the count. -/
theorem quiet_declaratorLexemes {type : TypeExpr} {reach : Reach} (name : String) {count : Option Expr}
    (htype : LinksMeet P env (type.nodes env reach)) (hcount : ∀ e, count = some e → LinksMeet P env (e.nodes env)) :
    Quiet P (declaratorLexemes file type name count) := by
  have hextent : Quiet P (extentLexemes file count) := by
    cases count with
    | none => simp [extentLexemes]
    | some e => simpa [extentLexemes] using e.quiet_lexemes (hcount e rfl)
  cases type with
  | array element _ => simpa [declaratorLexemes] using ⟨element.quiet_lexemes reach htype, hextent⟩
  | _ => simpa [declaratorLexemes] using TypeExpr.quiet_lexemes _ reach htype

/-- The tags that members or parameters use are those of their types. -/
theorem quiet_slots {slots : List (Slot TypeExpr)} {reach : Reach}
    (h : LinksMeet P env (TypeExpr.slotNodes env slots reach)) :
    ∀ slot ∈ slots, Quiet P (declaratorLexemes file slot.type slot.name.name none) := by
  induction slots with
  | nil => simp
  | cons slot rest ih =>
    obtain ⟨hfirst, hrest⟩ := linksMeet_append.mp h
    refine List.forall_mem_cons.mpr ⟨quiet_declaratorLexemes _ hfirst (by simp), ih hrest⟩

/-- The lines of a record use the tags of its members. -/
theorem quiet_memberLexemes (level : Nat) {members : List (Slot TypeExpr)} {reach : Reach}
    (h : LinksMeet P env (TypeExpr.slotNodes env members reach)) :
    Quiet P (members.flatMap (memberLexemes file level)) := by
  intro lexeme hlexeme
  obtain ⟨slot, hslot, hmem⟩ := List.mem_flatMap.mp hlexeme
  have hline : Quiet P (memberLexemes file level slot) := by simpa [memberLexemes] using quiet_slots h slot hslot
  exact hline lexeme hmem

/-- A declaration that has a tag starts with its definition. The rest, or all of a declaration that has none, uses the
tags of its named types. -/
theorem Declaration.exists_lexemes (d : Declaration) (file : SourceFile) (level : Nat) (id : DeclId)
    (h : LinksMeet P env (d.kind.nodes env)) :
    ∃ rest,
      d.lexemes file level id = (d.kind.tagKind?.map fun kind => Lexeme.define kind d.name.name id).toList ++ rest ∧
      Quiet P rest := by
  unfold Declaration.lexemes
  cases hkind : d.kind with
  | constant type value =>
    cases type with
    | none => exact ⟨[], rfl, quiet_nil⟩
    | some type =>
      rw [hkind] at h
      obtain ⟨htype, hvalue⟩ := linksMeet_append.mp h
      refine ⟨_, rfl, (quiet_append _ _).mpr ⟨quiet_declaratorLexemes _ htype fun count hcount =>
        linksMeet_arrayCount hcount hvalue, ?_⟩⟩
      simpa [initialLexemes] using value.quiet_lexemes hvalue
  | mutable type value =>
    rw [hkind] at h
    cases value with
    | none => exact ⟨_, rfl, (quiet_append _ _).mpr ⟨quiet_declaratorLexemes _ h (by simp), quiet_nil⟩⟩
    | some value =>
      obtain ⟨htype, hvalue⟩ := linksMeet_append.mp h
      refine ⟨_, rfl, (quiet_append _ _).mpr ⟨quiet_declaratorLexemes _ htype fun count hcount =>
        linksMeet_arrayCount hcount hvalue, ?_⟩⟩
      simpa [initialLexemes] using value.quiet_lexemes hvalue
  | enumeration members => exact ⟨_, rfl, by simp⟩
  | record kind members =>
    rw [hkind] at h
    cases kind <;> exact ⟨_, rfl, by simpa using quiet_memberLexemes (level + 1) h⟩
  | sum members => exact ⟨[], rfl, quiet_nil⟩

/-- The tags that a statement uses are those of its named types, unless it declares something. -/
theorem Stmt.quiet_lexemes {stmt : Stmt} (level : Nat) (hdeclares : stmt.declares = [])
    (h : LinksMeet P env (stmt.nodes env)) : Quiet P (stmt.lexemes file level) := by
  cases stmt with
  | declaration _ _ => cases hdeclares
  | increment target _ => simpa [Stmt.lexemes] using target.quiet_lexemes h
  | decrement target _ => simpa [Stmt.lexemes] using target.quiet_lexemes h
  | assign _ target value _ =>
    obtain ⟨htarget, hvalue⟩ := linksMeet_append.mp h
    simpa [Stmt.lexemes] using ⟨target.quiet_lexemes htarget, value.quiet_lexemes hvalue⟩
  | expr value => exact value.quiet_lexemes h
  | label _ => simp [Stmt.lexemes]
  | goto _ => simp [Stmt.lexemes]
  | returning value _ =>
    cases value with
    | none => simp [Stmt.lexemes]
    | some value => simpa [Stmt.lexemes] using value.quiet_lexemes h

end Uses

/-- A property that says nothing, for what a row of lexemes opens, closes and defines. -/
theorem linksMeet_true (env : Env) (nodes : List (Env × LexicalNode)) : LinksMeet (fun _ _ => True) env nodes :=
  fun _ _ _ _ => trivial

namespace SourceFile

/-- Whether the declaration at a position has a tag in C. -/
def hasTag (file : SourceFile) (id : DeclId) : Bool := (file.tagKindAt? id).isSome

/-- The name of the declaration at a position. -/
def nameAt (file : SourceFile) (id : DeclId) : String := ((file.decl? id).map fun d => d.name.name).getD ""

/-- The name at a position is that of the declaration there. -/
theorem nameAt_of_decl? {file : SourceFile} {id : DeclId} {d : Declaration} (hdecl : file.decl? id = some d) :
    file.nameAt id = d.name.name := by rw [nameAt, hdecl, Option.map_some, Option.getD_some]

/-- Whether none of some declarations has a tag in C. -/
def tagless (file : SourceFile) (ids : List DeclId) : Bool := ids.all fun id => !file.hasTag id

end SourceFile

/-- The regions after declarations have been printed: those that have a tag are defined. -/
def C.TagScopes.declare (file : SourceFile) (scopes : TagScopes) (ids : List DeclId) : TagScopes :=
  (ids.filter file.hasTag).foldl (fun now id => now.define (file.nameAt id) id) scopes

namespace C.TagScopes

variable {file : SourceFile} {scopes : TagScopes}

/-- No declarations define no tags. -/
@[simp] theorem declare_nil : scopes.declare file [] = scopes := rfl

/-- Declarations define their tags one after the other. -/
theorem declare_append (first second : List DeclId) :
    scopes.declare file (first ++ second) = (scopes.declare file first).declare file second := by
  rw [declare, List.filter_append, List.foldl_append, declare, declare]

/-- Declarations without tags change no regions. -/
theorem declare_of_tagless {ids : List DeclId} (h : file.tagless ids = true) : scopes.declare file ids = scopes := by
  have hnone : ids.filter file.hasTag = [] := by simpa [SourceFile.tagless] using h
  rw [declare, hnone, List.foldl_nil]

/-- Between the parentheses of a for loop and in braces a definition goes into the innermost region. -/
theorem define_cons {region : Region} (hregion : region ≠ .loop) (tag : String) (id : DeclId)
    (tags : List (String × DeclId)) (scopes : TagScopes) :
    define tag id (⟨region, tags⟩ :: scopes) = ⟨region, (tag, id) :: tags⟩ :: scopes := by
  cases region with
  | loop => exact absurd rfl hregion
  | _ => rfl

/-- Between the parentheses of a for loop and in braces definitions stay in the innermost region. -/
theorem exists_declare_cons (file : SourceFile) (scopes : TagScopes) {region : Region} (hregion : region ≠ .loop)
    (tags : List (String × DeclId)) (ids : List DeclId) :
    ∃ more, declare file (⟨region, tags⟩ :: scopes) ids = ⟨region, more⟩ :: scopes := by
  rw [declare]
  induction ids.filter file.hasTag generalizing tags with
  | nil => exact ⟨tags, rfl⟩
  | cons id rest ih =>
    rw [List.foldl_cons, define_cons hregion]
    exact ih _

/-- What is declared between braces does not change the regions around them. -/
theorem tail_declare_braces (file : SourceFile) (scopes : TagScopes) (ids : List DeclId) :
    (declare file (⟨.braces, []⟩ :: scopes) ids).tail = scopes := by
  obtain ⟨tags, htags⟩ := exists_declare_cons file scopes (show Region.braces ≠ .loop by decide) [] ids
  rw [htags, List.tail_cons]

/-- Behind the parentheses of a for loop, what they declare is kept in a region of its own. -/
theorem exists_closeHeader_declare (file : SourceFile) (scopes : TagScopes) (ids : List DeclId) :
    ∃ tags, (declare file (⟨.header, []⟩ :: scopes) ids).closeHeader = ⟨.loop, tags⟩ :: scopes := by
  obtain ⟨tags, htags⟩ := exists_declare_cons file scopes (show Region.header ≠ .loop by decide) [] ids
  exact ⟨tags, by rw [htags]; rfl⟩

/-- Behind the parentheses of a for loop definitions belong to the region around the loop. -/
theorem declare_loop (tags : List (String × DeclId)) (ids : List DeclId) :
    declare file (⟨.loop, tags⟩ :: scopes) ids = ⟨.loop, tags⟩ :: scopes.declare file ids := by
  rw [declare, declare]
  induction ids.filter file.hasTag generalizing scopes with
  | nil => rfl
  | cons id rest ih => exact ih

end C.TagScopes

/-- What a scope leaves defined in C, in the braces around it. -/
def Scope.leaves : Scope → List DeclId
  | .statement stmt => stmt.declares
  | .conditional _ consequent none _ => consequent.leaves
  | .conditional _ _ (some alternative) _ => alternative.leaves
  | .forLoop _ _ _ body _ => body.leaves
  | .whileLoop _ body _ => body.leaves
  | .block .. | .forEach .. | .matching .. => []

section After

variable {file : SourceFile}

/-- An expression defines nothing. -/
theorem Expr.afterAll_lexemes (e : Expr) (scopes : TagScopes) : scopes.afterAll (e.lexemes file) = scopes :=
  (e.quiet_lexemes (linksMeet_true [] _)).afterAll_eq scopes

/-- A statement defines what it declares. -/
theorem Stmt.afterAll_lexemes (stmt : Stmt) (level : Nat) (scopes : TagScopes) :
    scopes.afterAll (stmt.lexemes file level) = scopes.declare file stmt.declares := by
  cases stmt with
  | declaration id span =>
    cases hdecl : file.decl? id with
    | none => simp [Stmt.lexemes, Stmt.declares, hdecl, C.TagScopes.declare, SourceFile.hasTag, SourceFile.tagKindAt?]
    | some d =>
      obtain ⟨rest, hlexemes, hrest⟩ := d.exists_lexemes file level id (linksMeet_true [] _)
      cases hkind : d.kind.tagKind? <;>
        simp [Stmt.lexemes, Stmt.declares, hdecl, hlexemes, hkind, hrest.afterAll_eq, C.TagScopes.declare,
          C.TagScopes.after, SourceFile.hasTag, SourceFile.tagKindAt?, SourceFile.nameAt]
  | _ => exact (Stmt.quiet_lexemes level rfl (linksMeet_true [] _)).afterAll_eq scopes

/-- A body behind a header leaves what the scope leaves. -/
theorem afterAll_bodyLexemes {lexemes : Nat → List Lexeme} {scopes last : TagScopes} (level : Nat) (isBlock : Bool)
    (h : ∀ n, scopes.afterAll (lexemes n) = last) : scopes.afterAll (bodyLexemes level isBlock lexemes) = last := by
  cases isBlock <;> simp [bodyLexemes, C.TagScopes.after, h]

/-- A block leaves nothing. -/
theorem afterAll_blockLexemes {lines : List Lexeme} {scopes : TagScopes} {ids : List DeclId} (level : Nat)
    (h : C.TagScopes.afterAll (⟨.braces, []⟩ :: scopes) lines =
      C.TagScopes.declare file (⟨.braces, []⟩ :: scopes) ids) :
    scopes.afterAll (blockLexemes level lines) = scopes := by
  simp [blockLexemes, C.TagScopes.after, h, C.TagScopes.tail_declare_braces]

/-- The first branch before an `else` leaves nothing: it stands in braces. -/
theorem afterAll_branchLexemes {lexemes : Nat → List Lexeme} {ids : List DeclId} (scopes : TagScopes) (level : Nat)
    {isBlock : Bool} (hblock : isBlock = true → ids = [])
    (h : ∀ n (scopes : TagScopes), scopes.afterAll (lexemes n) = scopes.declare file ids) :
    scopes.afterAll (branchLexemes level isBlock lexemes) = scopes := by
  cases isBlock with
  | true => simp [branchLexemes, C.TagScopes.after, h, hblock rfl]
  | false =>
    have hline : C.TagScopes.afterAll (⟨.braces, []⟩ :: scopes)
        (.plain (C.indentation (level + 1)) :: lexemes (level + 1)) =
        C.TagScopes.declare file (⟨.braces, []⟩ :: scopes) ids := h _ _
    simp [branchLexemes, C.TagScopes.after, afterAll_blockLexemes level hline]

/-- What stands behind an `else` leaves what the scope leaves. -/
theorem afterAll_elseLexemes {lexemes : Nat → List Lexeme} {scopes last : TagScopes} (level : Nat)
    (isBlock isConditional : Bool) (h : ∀ n, scopes.afterAll (lexemes n) = last) :
    scopes.afterAll (elseLexemes level isBlock isConditional lexemes) = last := by
  cases isConditional <;> simp [elseLexemes, C.TagScopes.after, h, afterAll_bodyLexemes level isBlock h]

/-- A block leaves no tags behind it. -/
theorem Scope.leaves_of_isBlock {scope : Scope} (h : scope.isBlock = true) : scope.leaves = [] := by
  cases scope with
  | block _ _ => rfl
  | _ => cases h

mutual

/-- What a scope leaves defined behind it. -/
theorem Scope.afterAll_lexemes : ∀ (scope : Scope) (level : Nat) (scopes : TagScopes),
    scopes.afterAll (scope.lexemes file level) = scopes.declare file scope.leaves
  | .statement stmt, level, scopes => by
    simp [Scope.lexemes, Scope.leaves, stmt.afterAll_lexemes, C.TagScopes.after]
  | .block body _, level, scopes => by
    obtain ⟨ids, hids⟩ := Scope.exists_afterAll_lineLexemes body (level + 1) (⟨.braces, []⟩ :: scopes)
    simpa [Scope.lexemes, Scope.leaves] using afterAll_blockLexemes level hids
  | .conditional condition consequent none _, level, scopes => by
    have hbody := afterAll_bodyLexemes level consequent.isBlock fun n => consequent.afterAll_lexemes n scopes
    simpa [Scope.lexemes, Scope.leaves, condition.afterAll_lexemes, C.TagScopes.after] using hbody
  | .conditional condition consequent (some alternative) _, level, scopes => by
    have hbranch := afterAll_branchLexemes scopes level Scope.leaves_of_isBlock
      fun n scopes => consequent.afterAll_lexemes n scopes
    have helse := afterAll_elseLexemes level alternative.isBlock alternative.isConditional
      fun n => alternative.afterAll_lexemes n scopes
    simp [Scope.lexemes, Scope.leaves, condition.afterAll_lexemes, C.TagScopes.after, hbranch, helse]
  | .forLoop init condition step body _, level, scopes => by
    obtain ⟨tags, htags⟩ := C.TagScopes.exists_closeHeader_declare file scopes (init.declares ++ step.declares)
    rw [C.TagScopes.declare_append] at htags
    have hbody := afterAll_bodyLexemes level body.isBlock fun n => body.afterAll_lexemes n (⟨.loop, tags⟩ :: scopes)
    simp [Scope.lexemes, Scope.leaves, init.afterAll_lexemes, condition.afterAll_lexemes, step.afterAll_lexemes,
      C.TagScopes.after, htags, hbody, C.TagScopes.declare_loop]
  | .whileLoop condition body _, level, scopes => by
    have hbody := afterAll_bodyLexemes level body.isBlock fun n => body.afterAll_lexemes n scopes
    simpa [Scope.lexemes, Scope.leaves, condition.afterAll_lexemes, C.TagScopes.after] using hbody
  | .forEach .., _, _ => by simp [Scope.lexemes, Scope.leaves]
  | .matching .., _, _ => by simp [Scope.lexemes, Scope.leaves]

/-- Scopes leave what each of them leaves. -/
theorem Scope.exists_afterAll_lineLexemes : ∀ (body : List Scope) (level : Nat) (scopes : TagScopes),
    ∃ ids, scopes.afterAll (Scope.lineLexemes file body level) = scopes.declare file ids
  | [], _, _ => ⟨[], rfl⟩
  | scope :: rest, level, scopes => by
    obtain ⟨ids, hids⟩ := Scope.exists_afterAll_lineLexemes rest level (scopes.declare file scope.leaves)
    refine ⟨scope.leaves ++ ids, ?_⟩
    simp [Scope.lineLexemes, scope.afterAll_lexemes, C.TagScopes.after, hids, C.TagScopes.declare_append]

end

end After

end DeclTree

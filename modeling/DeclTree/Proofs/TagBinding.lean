import DeclTree.Proofs.Definitions
import DeclTree.Proofs.TagScopes

/-!
# Tags and lexical scoping

Lexical scoping gives a name to a declaration, and the scopes of tags in C give it to a definition in the text. The two
go together along a function body as long as each part leaves the same types behind in both. They part where the first
branch of a conditional that has an `else` declares a type without being a block: the branch is printed in braces, so
the definition ends with them, while the name stays visible behind the branch. They also part where the body of a for
loop declares a type without being a block: the name ends with the loop, while the definition lasts to the next closing
brace. A body without either is confined, and there every use of a tag is bound to the declaration that is linked.
-/

namespace DeclTree

open C (Lexeme TagScopes Quiet)

variable {hash : String → Nat}

mutual

/-- Every part of a scope leaves the same types behind in C as it declares. -/
def Scope.confined (file : SourceFile) : Scope → Bool
  | .statement _ => true
  | .block body _ => Scope.allConfined file body
  | .conditional _ consequent none _ => consequent.confined file
  | .conditional _ consequent (some alternative) _ =>
    file.tagless consequent.declares && consequent.confined file && alternative.confined file
  | .forLoop _ _ _ body _ => file.tagless body.leaves && body.confined file
  | .whileLoop _ body _ => body.confined file
  | .forEach .. => true
  | .matching .. => true

/-- Every part of some scopes leaves the same types behind in C as it declares. -/
def Scope.allConfined (file : SourceFile) : List Scope → Bool
  | [] => true
  | scope :: rest => scope.confined file && Scope.allConfined file rest

end

namespace SourceFile

variable {file : SourceFile}

/-- Declarations are without tags if none is left of those with one. -/
theorem tagless_iff {ids : List DeclId} : file.tagless ids = true ↔ ids.filter file.hasTag = [] := by simp [tagless]

/-- A declaration has a tag if what it declares has one. -/
theorem hasTag_of_decl? {id : DeclId} {d : Declaration} (hdecl : file.decl? id = some d) :
    file.hasTag id = d.kind.tagKind?.isSome := by rw [hasTag, tagKindAt?, hdecl, Option.bind_some]

/-- A declaration that has a name is named so. -/
theorem nameAt_of_isNamed {id : DeclId} {name : String} (h : file.isNamed name id = true) : file.nameAt id = name := by
  obtain ⟨d, hdecl, rfl⟩ := isNamed_iff.mp h
  exact nameAt_of_decl? hdecl

/-- A declaration is visible under its name unless the name is taken in its scope. -/
theorem visible?_declare (scope : List DeclId) (outer : Env) (id : DeclId) (name : String) :
    file.visible? ((scope ++ [id]) :: outer) name =
      if file.isNamed name id = true ∧ scope.find? (file.isNamed name) = none then some id
      else file.visible? (scope :: outer) name := by
  rw [visible?, visible?, List.findSome?_cons, List.findSome?_cons, List.find?_append]
  cases scope.find? (file.isNamed name) with
  | some other => simp
  | none => cases hid : file.isNamed name id <;> simp [hid]

/-- What has a tag is a type. -/
theorem exists_of_hasTag {id : DeclId} (h : file.hasTag id = true) :
    ∃ d, file.decl? id = some d ∧ d.isVariable = false := by
  cases hdecl : file.decl? id with
  | none => simp [hasTag, tagKindAt?, hdecl] at h
  | some d =>
    refine ⟨d, rfl, ?_⟩
    rw [hasTag_of_decl? hdecl] at h
    rw [Declaration.isVariable]
    cases hkind : d.kind with
    | constant _ _ | mutable _ _ => simp [hkind, DeclKind.tagKind?] at h
    | _ => rfl

end SourceFile

/-- In a scope that is confined the types that it leaves behind in C are those that it declares. -/
theorem Scope.filter_leaves {file : SourceFile} : ∀ scope : Scope, scope.confined file = true →
    scope.leaves.filter file.hasTag = scope.declares.filter file.hasTag
  | .statement _, _ => rfl
  | .block .., _ => rfl
  | .conditional _ consequent none _, h => consequent.filter_leaves h
  | .conditional _ consequent (some alternative) _, h => by
    simp only [Scope.confined, Bool.and_eq_true] at h
    rw [Scope.leaves, Scope.declares, List.filter_append, SourceFile.tagless_iff.mp h.1.1, List.nil_append]
    exact alternative.filter_leaves h.2
  | .forLoop _ _ _ body _, h => by
    simp only [Scope.confined, Bool.and_eq_true] at h
    rw [Scope.leaves, Scope.declares, SourceFile.tagless_iff.mp h.1, List.filter_nil]
  | .whileLoop _ body _, h => body.filter_leaves h
  | .forEach .., _ => rfl
  | .matching .., _ => rfl

/-- In a confined scope, what is left behind in C is what the scope declares. -/
theorem Scope.declare_leaves {file : SourceFile} {scope : Scope} (h : scope.confined file = true) (scopes : TagScopes) :
    scopes.declare file scope.leaves = scopes.declare file scope.declares := by
  rw [TagScopes.declare, scope.filter_leaves h, TagScopes.declare]

namespace C.TagScopes

/-- Definitions go into the innermost region. -/
def IsOpen (scopes : TagScopes) : Prop := ∃ region tags outer, region ≠ .loop ∧ scopes = ⟨region, tags⟩ :: outer

variable {file : SourceFile} {scopes : TagScopes}

/-- A pair of braces is open to declarations. -/
theorem isOpen_braces (tags : List (String × DeclId)) (scopes : TagScopes) : IsOpen (⟨.braces, tags⟩ :: scopes) :=
  ⟨_, _, _, by decide, rfl⟩

/-- The header of a loop is open to declarations. -/
theorem isOpen_header (tags : List (String × DeclId)) (scopes : TagScopes) : IsOpen (⟨.header, tags⟩ :: scopes) :=
  ⟨_, _, _, by decide, rfl⟩

/-- Declaring leaves the innermost scope open. -/
theorem IsOpen.declare (h : scopes.IsOpen) (file : SourceFile) (ids : List DeclId) :
    (scopes.declare file ids).IsOpen := by
  obtain ⟨region, tags, outer, hregion, rfl⟩ := h
  obtain ⟨more, hmore⟩ := exists_declare_cons file outer hregion tags ids
  exact ⟨region, more, outer, hregion, hmore⟩

/-- The tag that has just been defined is bound to its definition, and every other tag as before. -/
theorem IsOpen.find?_define (h : scopes.IsOpen) (tag : String) (id : DeclId) (other : String) :
    (scopes.define tag id).find? other = if other = tag then some id else scopes.find? other := by
  obtain ⟨region, tags, outer, hregion, rfl⟩ := h
  rw [define_cons hregion, find?, find?, List.findSome?_cons, List.findSome?_cons, List.lookup_cons]
  by_cases hother : other = tag
  · simp [hother]
  · have hne : (other == tag) = false := by simpa using hother
    simp [hother, hne]

/-- A declaration with a tag defines it in the innermost scope. -/
theorem declare_singleton {id : DeclId} (htag : file.hasTag id = true) :
    scopes.declare file [id] = scopes.define (file.nameAt id) id := by simp [declare, htag]

/-- Closing the header of a loop does not change what a tag is bound to. -/
theorem find?_closeHeader (scopes : TagScopes) (tag : String) : scopes.closeHeader.find? tag = scopes.find? tag := by
  cases scopes <;> rfl

end C.TagScopes

/-- A name that stands for a declaration with a tag is bound to its definition in C. -/
def Agree (file : SourceFile) (env : Env) (scopes : TagScopes) : Prop :=
  ∀ name id, file.visible? env name = some id → file.hasTag id = true → scopes.find? name = some id

namespace Agree

variable {file : SourceFile} {env : Env} {scopes : TagScopes}

/-- Entering a scope that declares nothing yet keeps the agreement. -/
theorem enter (h : Agree file env scopes) : Agree file ([] :: env) scopes := h

/-- Scopes in which every tag is bound alike agree alike. -/
theorem of_find?_eq {others : TagScopes} (h : Agree file env scopes)
    (hfind : ∀ tag, others.find? tag = scopes.find? tag) : Agree file env others :=
  fun name id hvisible htag => (hfind name).trans (h name id hvisible htag)

/-- A declaration whose name is free in the innermost scope keeps names and tags together, if its definition goes into
the innermost region. -/
theorem declare (h : Agree file env scopes) {id : DeclId} (hdecl : ∃ d, file.decl? id = some d)
    (hfree : ∀ before outer, env.declare [id] = (before ++ [id]) :: outer → ∀ other ∈ before, ¬file.SameName id other)
    (hopen : scopes.IsOpen ∨ file.tagless [id] = true) : Agree file (env.declare [id]) (scopes.declare file [id]) := by
  intro name target hvisible htag
  cases env with
  | nil => simp [Env.declare, SourceFile.visible?] at hvisible
  | cons scope outer =>
    rw [Env.declare, SourceFile.visible?_declare] at hvisible
    cases hid : file.hasTag id with
    | false =>
      rw [C.TagScopes.declare_of_tagless (by simp [SourceFile.tagless, hid])]
      split at hvisible
      · obtain rfl := Option.some_inj.mp hvisible
        simp [hid] at htag
      · exact h name target hvisible htag
    | true =>
      have hopen : scopes.IsOpen := hopen.resolve_right (by simp [SourceFile.tagless, hid])
      rw [C.TagScopes.declare_singleton hid, hopen.find?_define]
      split at hvisible
      · next hname => rw [if_pos (SourceFile.nameAt_of_isNamed hname.1).symm, hvisible]
      · next hname =>
        rw [if_neg, h name target hvisible htag]
        -- A name that was taken in the innermost scope is not that of the declaration.
        rintro rfl
        obtain ⟨d, hd⟩ := hdecl
        have hnamed : file.isNamed (file.nameAt id) id = true :=
          SourceFile.isNamed_iff.mpr ⟨d, hd, (SourceFile.nameAt_of_decl? hd).symm⟩
        obtain ⟨other, hother⟩ := Option.ne_none_iff_exists'.mp fun hnone => hname ⟨hnamed, hnone⟩
        obtain ⟨e, he, hsame⟩ := SourceFile.isNamed_iff.mp (List.find?_some hother)
        exact hfree scope outer rfl other (List.mem_of_find?_eq_some hother)
          ⟨d, e, hd, he, hsame.trans (SourceFile.nameAt_of_decl? hd)⟩

end Agree

namespace SourceFile

/-- What resolution has made of a node: a named type is linked to a declaration with a tag, the one that its name stands
for. A local declaration has a name that is free, and what it mentions itself is linked in the same way. -/
def IsSound (file : SourceFile) : Env × LexicalNode → Prop
  | (env, .named name _ link) => ∀ id, link = some id → file.visible? env name.name = some id ∧ file.hasTag id = true
  | (env, .declaration id _) => ∃ d, file.decl? id = some d ∧
    LinksMeet (fun name target => file.visible? env name = some target ∧ file.hasTag target = true) env
      (d.kind.nodes env) ∧
    ∀ before outer, env = (before ++ [id]) :: outer → ∀ other ∈ before, ¬file.SameName id other
  | (_, .function ..) => True
  | (_, .refused ..) => True

end SourceFile

section Binding

variable {file : SourceFile} {env : Env} {scopes : TagScopes}

/-- What names stand for is what tags are bound to. -/
theorem Agree.linksMeet (h : Agree file env scopes) {nodes : List (Env × LexicalNode)}
    (hlinks : LinksMeet (fun name target => file.visible? env name = some target ∧ file.hasTag target = true) env
      nodes) :
    LinksMeet (fun tag link => scopes.find? tag = some link) env nodes := by
  intro name reach id hnode
  obtain ⟨hvisible, htag⟩ := hlinks name reach id hnode
  exact h name.name id hvisible htag

/-- The nodes of a row that is sound are bound. -/
theorem Agree.linksMeet_of_sound (h : Agree file env scopes) {nodes : List (Env × LexicalNode)}
    (hsound : ∀ node ∈ nodes, file.IsSound node) : LinksMeet (fun tag link => scopes.find? tag = some link) env nodes :=
  h.linksMeet fun _ _ id hnode => hsound _ hnode id rfl

/-- The uses of an expression are bound. -/
theorem Expr.binds {e : Expr} (hsound : ∀ node ∈ e.nodes env, file.IsSound node) (hagree : Agree file env scopes) :
    scopes.Binds (e.lexemes file) := (e.quiet_lexemes (hagree.linksMeet_of_sound hsound)).binds

/-- The uses of a statement are bound, and behind it names and tags still go together. -/
theorem Stmt.binds {stmt : Stmt} (level : Nat) (hsound : ∀ node ∈ stmt.nodes env, file.IsSound node)
    (hagree : Agree file env scopes) (hopen : scopes.IsOpen ∨ file.tagless stmt.declares = true) :
    scopes.Binds (stmt.lexemes file level) ∧
      Agree file (env.declare stmt.declares) (scopes.declare file stmt.declares) := by
  cases stmt with
  | declaration id span =>
    obtain ⟨d, hdecl, hlinks, hfree⟩ := hsound _ (List.mem_singleton_self _)
    have hafter : Agree file (env.declare [id]) (scopes.declare file [id]) := hagree.declare ⟨d, hdecl⟩ hfree hopen
    refine ⟨?_, hafter⟩
    obtain ⟨rest, hlexemes, hrest⟩ := d.exists_lexemes file level id (hafter.linksMeet hlinks)
    cases hkind : d.kind.tagKind? with
    | none =>
      have htag : file.tagless [id] = true := by simp [SourceFile.tagless, SourceFile.hasTag_of_decl? hdecl, hkind]
      rw [C.TagScopes.declare_of_tagless htag] at hrest
      simpa [Stmt.lexemes, hdecl, hlexemes, hkind] using hrest.binds
    | some kind =>
      have htag : file.hasTag id = true := by simp [SourceFile.hasTag_of_decl? hdecl, hkind]
      rw [C.TagScopes.declare_singleton htag, SourceFile.nameAt_of_decl? hdecl] at hrest
      simpa [Stmt.lexemes, hdecl, hlexemes, hkind, C.TagScopes.Bound, C.TagScopes.after] using hrest.binds
  | _ =>
    refine ⟨(Stmt.quiet_lexemes level rfl (hagree.linksMeet_of_sound hsound)).binds, ?_⟩
    simpa only [Stmt.declares, Env.declare_nil, C.TagScopes.declare_nil] using hagree

/-- The uses of a body behind a header are those of the scope. -/
theorem binds_bodyLexemes {lexemes : Nat → List Lexeme} (level : Nat) (isBlock : Bool)
    (h : ∀ n, scopes.Binds (lexemes n)) : scopes.Binds (bodyLexemes level isBlock lexemes) := by
  cases isBlock <;> simp [bodyLexemes, C.TagScopes.Bound, C.TagScopes.after, h]

/-- The uses of a block are those of its lines, in a region of their own. -/
theorem binds_blockLexemes {lines : List Lexeme} (level : Nat) (h : C.TagScopes.Binds (⟨.braces, []⟩ :: scopes) lines) :
    scopes.Binds (blockLexemes level lines) := by
  simp [blockLexemes, C.TagScopes.Bound, C.TagScopes.after, h]

/-- The uses of the first branch before an `else` are those of the scope, in a region of its own. -/
theorem binds_branchLexemes {lexemes : Nat → List Lexeme} (level : Nat) (isBlock : Bool)
    (h : ∀ n, scopes.Binds (lexemes n)) (hbraces : ∀ n, C.TagScopes.Binds (⟨.braces, []⟩ :: scopes) (lexemes n)) :
    scopes.Binds (branchLexemes level isBlock lexemes) := by
  cases isBlock with
  | true => simp [branchLexemes, C.TagScopes.Bound, C.TagScopes.after, h]
  | false =>
    have hline : C.TagScopes.Binds (⟨.braces, []⟩ :: scopes)
        (.plain (C.indentation (level + 1)) :: lexemes (level + 1)) := ⟨trivial, hbraces _⟩
    exact ⟨trivial, binds_blockLexemes level hline⟩

/-- The uses of what stands behind an `else` are those of the scope. -/
theorem binds_elseLexemes {lexemes : Nat → List Lexeme} (level : Nat) (isBlock isConditional : Bool)
    (h : ∀ n, scopes.Binds (lexemes n)) : scopes.Binds (elseLexemes level isBlock isConditional lexemes) := by
  cases isConditional with
  | true => exact ⟨trivial, trivial, h level⟩
  | false => exact ⟨trivial, binds_bodyLexemes level isBlock h⟩

/-- Two rows are without tags if each is. -/
theorem tagless_append {first second : List DeclId} :
    file.tagless (first ++ second) = true ↔ file.tagless first = true ∧ file.tagless second = true := by
  simp [SourceFile.tagless]

/-- A confined scope that leaves no tags behind declares none. -/
theorem Scope.tagless_declares {scope : Scope} (hconfined : scope.confined file = true)
    (h : file.tagless scope.leaves = true) : file.tagless scope.declares = true := by
  rw [SourceFile.tagless_iff] at h ⊢
  rw [← scope.filter_leaves hconfined, h]

end Binding

mutual

/-- The uses of a scope that is confined are bound, and behind it names and tags still go together. -/
theorem Scope.binds {file : SourceFile} : ∀ (scope : Scope) (level : Nat) {env : Env} {scopes : TagScopes},
    (∀ node ∈ scope.nodes env, file.IsSound node) → Agree file env scopes → scope.confined file = true →
    (scopes.IsOpen ∨ file.tagless scope.declares = true) →
    scopes.Binds (scope.lexemes file level) ∧
      Agree file (env.declare scope.declares) (scopes.declare file scope.declares)
  | .statement stmt, level, env, scopes, hsound, hagree, _, hopen => by
    obtain ⟨hbinds, hafter⟩ := stmt.binds level hsound hagree hopen
    exact ⟨by simpa [Scope.lexemes, C.TagScopes.Bound] using hbinds, hafter⟩
  | .block body _, level, env, scopes, hsound, hagree, hconfined, _ => by
    have hinside : Agree file ([] :: env) (⟨.braces, []⟩ :: scopes) := hagree
    have hlines := Scope.binds_lines body (level + 1) hsound hinside hconfined (C.TagScopes.isOpen_braces _ _)
    refine ⟨binds_blockLexemes level hlines, ?_⟩
    simpa only [Scope.declares, Env.declare_nil, C.TagScopes.declare_nil] using hagree
  | .conditional condition consequent none _, level, env, scopes, hsound, hagree, hconfined, hopen => by
    obtain ⟨hcondition, hconsequent⟩ := List.forall_mem_append.mp hsound
    have hbody (n : Nat) := consequent.binds n hconsequent hagree hconfined hopen
    have hbinds := binds_bodyLexemes level consequent.isBlock fun n => (hbody n).1
    refine ⟨?_, (hbody level).2⟩
    simpa [Scope.lexemes, C.TagScopes.Bound, C.TagScopes.after, condition.afterAll_lexemes]
      using ⟨condition.binds hcondition hagree, hbinds⟩
  | .conditional condition consequent (some alternative) _, level, env, scopes, hsound, hagree, hconfined, hopen => by
    obtain ⟨hsound, halternative⟩ := List.forall_mem_append.mp hsound
    obtain ⟨hcondition, hconsequent⟩ := List.forall_mem_append.mp hsound
    simp only [Scope.confined, Bool.and_eq_true] at hconfined
    obtain ⟨⟨htagless, hfirst⟩, hsecond⟩ := hconfined
    -- The branch declares no type, so it makes no difference that it stands in braces.
    have hbranch (n : Nat) := consequent.binds n hconsequent hagree hfirst (.inr htagless)
    have hbraces (n : Nat) := consequent.binds n hconsequent
      (show Agree file env (⟨.braces, []⟩ :: scopes) from hagree) hfirst (.inr htagless)
    have hbehind := (hbranch level).2
    rw [C.TagScopes.declare_of_tagless htagless] at hbehind
    have helse (n : Nat) := alternative.binds n halternative hbehind hsecond
      (hopen.imp_right fun h => (tagless_append.mp h).2)
    refine ⟨?_, ?_⟩
    · have hleaves :
          scopes.afterAll (branchLexemes level consequent.isBlock fun n => consequent.lexemes file n) = scopes :=
        afterAll_branchLexemes scopes level Scope.leaves_of_isBlock consequent.afterAll_lexemes
      simpa [Scope.lexemes, C.TagScopes.Bound, C.TagScopes.after, condition.afterAll_lexemes, hleaves]
        using ⟨condition.binds hcondition hagree,
          binds_branchLexemes level consequent.isBlock (fun n => (hbranch n).1) fun n => (hbraces n).1,
          binds_elseLexemes level alternative.isBlock alternative.isConditional fun n => (helse n).1⟩
    · rw [Scope.declares, Env.declare_append, C.TagScopes.declare_append, C.TagScopes.declare_of_tagless htagless]
      exact (helse level).2
  | .forLoop init condition step body _, level, env, scopes, hsound, hagree, hconfined, _ => by
    obtain ⟨hsound, hbody⟩ := List.forall_mem_append.mp hsound
    obtain ⟨hsound, hstep⟩ := List.forall_mem_append.mp hsound
    obtain ⟨hinit, hcondition⟩ := List.forall_mem_append.mp hsound
    simp only [Scope.confined, Bool.and_eq_true] at hconfined
    have hheader : Agree file ([] :: env) (⟨.header, []⟩ :: scopes) := hagree
    obtain ⟨hinit, hfirst⟩ := init.binds level hinit hheader (.inl (C.TagScopes.isOpen_header _ _))
    obtain ⟨hstep, hsecond⟩ := step.binds level hstep hfirst (.inl ((C.TagScopes.isOpen_header _ _).declare file _))
    -- Behind the parentheses the body defines nothing, so it does not matter where its definitions would go.
    have hinside := hsecond.of_find?_eq (C.TagScopes.find?_closeHeader _)
    have hbinds (n : Nat) := body.binds n hbody hinside hconfined.2
      (.inr (body.tagless_declares hconfined.2 hconfined.1))
    refine ⟨?_, by simpa only [Scope.declares, Env.declare_nil, C.TagScopes.declare_nil] using hagree⟩
    simpa [Scope.lexemes, C.TagScopes.Bound, C.TagScopes.after, init.afterAll_lexemes, condition.afterAll_lexemes,
      step.afterAll_lexemes] using ⟨hinit, condition.binds hcondition hfirst, hstep,
        binds_bodyLexemes level body.isBlock fun n => (hbinds n).1⟩
  | .whileLoop condition body _, level, env, scopes, hsound, hagree, hconfined, hopen => by
    obtain ⟨hcondition, hbody⟩ := List.forall_mem_append.mp hsound
    have hbody (n : Nat) := body.binds n hbody hagree hconfined hopen
    have hbinds := binds_bodyLexemes level body.isBlock fun n => (hbody n).1
    refine ⟨?_, (hbody level).2⟩
    simpa [Scope.lexemes, C.TagScopes.Bound, C.TagScopes.after, condition.afterAll_lexemes]
      using ⟨condition.binds hcondition hagree, hbinds⟩
  | .forEach .., _, _, _, _, hagree, _, _ =>
    ⟨trivial, by simpa only [Scope.declares, Env.declare_nil, C.TagScopes.declare_nil] using hagree⟩
  | .matching .., _, _, _, _, hagree, _, _ =>
    ⟨trivial, by simpa only [Scope.declares, Env.declare_nil, C.TagScopes.declare_nil] using hagree⟩

/-- The uses of scopes that are confined are bound, each behind what those before it declare. -/
theorem Scope.binds_lines {file : SourceFile} : ∀ (body : List Scope) (level : Nat) {env : Env} {scopes : TagScopes},
    (∀ node ∈ Scope.listNodes env body, file.IsSound node) → Agree file env scopes →
    Scope.allConfined file body = true → scopes.IsOpen → scopes.Binds (Scope.lineLexemes file body level)
  | [], _, _, _, _, _, _, _ => trivial
  | scope :: rest, level, env, scopes, hsound, hagree, hconfined, hopen => by
    obtain ⟨hfirst, hrest⟩ := List.forall_mem_append.mp hsound
    simp only [Scope.allConfined, Bool.and_eq_true] at hconfined
    obtain ⟨hbinds, hafter⟩ := scope.binds level hfirst hagree hconfined.1 (.inl hopen)
    have hlines := Scope.binds_lines rest level hrest hafter hconfined.2 (hopen.declare file _)
    simpa [Scope.lineLexemes, C.TagScopes.Bound, C.TagScopes.after, scope.afterAll_lexemes,
      scope.declare_leaves hconfined.1] using ⟨hbinds, hlines⟩

end

/-- Whether something declared has a tag does not depend on links. -/
theorem DeclKind.tagKind?_cleared (kind : DeclKind) : kind.cleared.tagKind? = kind.tagKind? := by
  cases kind with
  | constant type _ => cases type <;> rfl
  | mutable _ value => cases value <;> rfl
  | record kind _ => cases kind <;> rfl
  | enumeration _ | sum _ => rfl

namespace SourceFile

/-- What a position is named does not depend on links and marks. -/
theorem isNamed_cleared (file : SourceFile) (name : String) : file.cleared.isNamed name = file.isNamed name := by
  funext id
  rw [isNamed, isNamed, decl?_cleared, Option.any_map]
  rfl

/-- Whether a position has a tag does not depend on links and marks. -/
theorem hasTag_cleared (file : SourceFile) : file.cleared.hasTag = file.hasTag := by
  funext id
  rw [hasTag, hasTag, tagKindAt?, tagKindAt?, decl?_cleared]
  cases file.decl? id with
  | none => rfl
  | some d =>
    rw [Option.map_some, Option.bind_some, Option.bind_some, Declaration.cleared, DeclKind.tagKind?_cleared]

/-- Two positions have the same name if one name is that of both. -/
theorem sameName_iff {file : SourceFile} {id other : DeclId} :
    file.SameName id other ↔ ∃ name, file.isNamed name id = true ∧ file.isNamed name other = true := by
  simp only [SameName, isNamed_iff]
  constructor
  · rintro ⟨d, e, hd, he, hname⟩
    exact ⟨d.name.name, ⟨d, hd, rfl⟩, e, he, hname⟩
  · rintro ⟨name, ⟨d, hd, rfl⟩, e, he, hname⟩
    exact ⟨d, e, hd, he, hname⟩

end SourceFile

/-- The uses in the body of a function that is confined are bound. -/
theorem Scope.binds_function {file : SourceFile} (scope : Scope) {env : Env} {scopes : TagScopes}
    (hsound : ∀ node ∈ scope.nodes ([] :: env), file.IsSound node) (hagree : Agree file env scopes)
    (hconfined : scope.confined file = true) : scopes.Binds (scope.functionLexemes file) := by
  have hopen := C.TagScopes.isOpen_braces [] scopes
  have hinside : Agree file ([] :: env) (⟨.braces, []⟩ :: scopes) := hagree
  refine binds_blockLexemes 0 ?_
  cases scope with
  | block body span => exact Scope.binds_lines body 1 hsound hinside.enter hconfined hopen
  | _ =>
    refine Scope.binds_lines [_] 1 (List.forall_mem_append.mpr ⟨hsound, by simp [Scope.listNodes]⟩) hinside ?_ hopen
    simpa only [Scope.allConfined, Bool.and_true] using hconfined

/-- The nodes of the body of a function are nodes of the function. -/
theorem DeclKind.mem_nodes_of_body {env : Env} {ascribed : Option TypeExpr} {signature : Signature TypeExpr}
    {scope : Scope} {span : Span} {node : Env × LexicalNode} (h : node ∈ scope.nodes ([] :: env)) :
    node ∈ (DeclKind.constant ascribed (.function signature scope span)).nodes env := by
  have hvalue : node ∈ (Expr.function signature scope span).nodes env := List.mem_append_right _ h
  cases ascribed with
  | none => exact hvalue
  | some type => exact List.mem_append_right _ hvalue

section Finished

variable {file now : SourceFile}

/-- Resolution does not change what a position is named. -/
theorem Finished.isNamed_eq (hfinished : Finished file now) (name : String) : now.isNamed name = file.isNamed name := by
  rw [← now.isNamed_cleared, hfinished.resolved.cleared, file.isNamed_cleared]

/-- Resolution does not change whether a position has a tag. -/
theorem Finished.hasTag_eq (hfinished : Finished file now) : now.hasTag = file.hasTag := by
  rw [← now.hasTag_cleared, hfinished.resolved.cleared, file.hasTag_cleared]

variable (hunique : file.ids.Nodup) (hfinished : Finished file now)

include hunique hfinished

/-- In a declaration that is reached every named type is linked to the record that its name stands for. -/
theorem Reached.linksMeet {env : Env} (inner : Env) {id : DeclId} {d e : Declaration} (hreached : Reached file env id)
    (hdecl : file.decl? id = some d) (he : now.decl? id = some e) :
    LinksMeet (fun name target => now.visible? inner name = some target ∧ now.hasTag target = true) inner
      (e.kind.nodes env) := by
  intro name reach target hnode
  obtain ⟨e', plan, he', hmark, -, -, -, -, hfits⟩ := hreached.carried hunique hfinished hdecl
  obtain rfl := Option.some_inj.mp (he.symm.trans he')
  obtain ⟨_, ⟨rfl⟩, hvisible⟩ := hfits inner name reach (some target) hnode
  have hlink : some target ∈ e.links := by
    rw [Declaration.links, ← DeclKind.nodeLinks_nodes env]
    exact List.mem_filterMap.mpr ⟨_, hnode, rfl⟩
  obtain ⟨_, ⟨rfl⟩, htarget⟩ := (hfinished.resolved.settled id e he hmark).links _ hlink
  obtain ⟨t, kind, members, ht, hkind⟩ := hfinished.resolved.record_of_isTarget htarget
  constructor
  · simpa only [SourceFile.visible?, hfinished.isNamed_eq] using hvisible
  · rw [hfinished.hasTag_eq, SourceFile.hasTag_of_decl? ht, hkind]
    cases kind <;> rfl

/-- A local declaration in one that is reached is reached as well, and its name is free where it is declared. -/
theorem Reached.nested_of_node {env inner : Env} {id other : DeclId} {span : Span} {d e : Declaration}
    (hreached : Reached file env id) (hdecl : file.decl? id = some d) (he : now.decl? id = some e)
    (hnode : (inner, .declaration other span) ∈ e.kind.nodes env) :
    Reached file inner other ∧
      ∀ before outer, inner = (before ++ [other]) :: outer → ∀ t ∈ before, ¬now.SameName other t := by
  obtain ⟨e', plan, he', -, hplan, heplan, -⟩ := hreached.carried hunique hfinished hdecl
  obtain rfl := Option.some_inj.mp (he.symm.trans he')
  obtain ⟨done, rest, rfl, rfl⟩ := Declaration.exists_split_of_node heplan hnode (List.mem_singleton_self _)
  obtain ⟨place, hplace⟩ := Declaration.node_of_declare env hplan
  refine ⟨.nested hreached hdecl hplace, fun before outer hinner t ht hsame => ?_⟩
  have hfree : file.HasNode ((before ++ [other]) :: outer) (.declaration other place) :=
    ⟨env, id, d, hreached, hdecl, hinner ▸ hplace⟩
  refine hfree.declaration_free hunique hfinished ht ?_
  simpa only [SourceFile.sameName_iff, hfinished.isNamed_eq] using hsame

/-- Resolution leaves every node of a declaration that is reached sound. -/
theorem Reached.isSound {env : Env} {id : DeclId} {e : Declaration} (hreached : Reached file env id)
    (he : now.decl? id = some e) : ∀ node ∈ e.kind.nodes env, now.IsSound node := by
  have hdecl {t : DeclId} {e : Declaration} (he : now.decl? t = some e) : ∃ d, file.decl? t = some d := by
    obtain ⟨d, hd, -⟩ := SourceFile.decl?_of_cleared_eq hfinished.resolved.cleared.symm he
    exact ⟨d, hd⟩
  obtain ⟨d, hd⟩ := hdecl he
  rintro ⟨inner, node⟩ hnode
  cases node with
  | named name reach link =>
    rintro target rfl
    exact hreached.linksMeet hunique hfinished inner hd he name reach target hnode
  | declaration other span =>
    obtain ⟨hnested, hfree⟩ := hreached.nested_of_node hunique hfinished hd he hnode
    obtain ⟨t, ht, -⟩ := SourceFile.mark?_eq_some.mp (hnested.closed hfinished.resolved)
    obtain ⟨t₀, ht₀⟩ := hdecl ht
    exact ⟨t, ht, hnested.linksMeet hunique hfinished inner ht₀ ht, hfree⟩
  | function _ _ => trivial
  | refused _ _ => trivial

end Finished

/-- The body of a function. -/
def DeclKind.body? : DeclKind → Option Scope
  | .constant _ (.function _ scope _) => some scope
  | _ => none

/-- The body of the function at a position. -/
def SourceFile.body? (file : SourceFile) (id : DeclId) : Option Scope := (file.decl? id).bind fun d => d.kind.body?

/-- What has a body is a constant whose value is a function literal. -/
theorem SourceFile.exists_of_body? {file : SourceFile} {id : DeclId} {scope : Scope} (h : file.body? id = some scope) :
    ∃ d ascribed signature span, file.decl? id = some d ∧
      d.kind = .constant ascribed (.function signature scope span) := by
  obtain ⟨d, hdecl, hbody⟩ := Option.bind_eq_some_iff.mp h
  unfold DeclKind.body? at hbody
  split at hbody
  · next ascribed signature _ span hkind =>
    exact ⟨d, ascribed, signature, span, hdecl, Option.some_inj.mp hbody ▸ hkind⟩
  · cases hbody

/-- A function is a constant whose value is a function literal. -/
theorem Declaration.exists_of_isFunction {d : Declaration} (h : d.isFunction = true) :
    ∃ ascribed signature scope span, d.kind = .constant ascribed (.function signature scope span) := by
  unfold Declaration.isFunction DeclKind.isFunction at h
  split at h
  · next ascribed signature scope span hkind => exact ⟨ascribed, signature, scope, span, hkind⟩
  · cases h

section Text

variable {file : SourceFile}

/-- What stands in front of the body of a function defines nothing. -/
theorem afterAll_headLexemes (name : String) (ascribed : Option TypeExpr) (signature : Signature TypeExpr)
    (scopes : TagScopes) : scopes.afterAll (headLexemes file name ascribed signature) = scopes := by
  have hresult : Quiet (fun _ _ => True) ((Lowering.resultType ascribed signature).lexemes file) :=
    TypeExpr.quiet_lexemes _ .byValue (linksMeet_true [] _)
  have hslots : ∀ slot ∈ signature.params,
      Quiet (fun _ _ => True) (declaratorLexemes file slot.type slot.name.name none) :=
    quiet_slots (linksMeet_true [] (TypeExpr.slotNodes [] signature.params .indirect))
  have hparams : Quiet (fun _ _ => True) ([Lexeme.plain ", "].intercalate
      (signature.params.map fun slot => declaratorLexemes file slot.type slot.name.name none)) := by
    refine C.quiet_intercalate (by simp) fun row hrow => ?_
    obtain ⟨slot, hslot, rfl⟩ := List.mem_map.mp hrow
    exact hslots slot hslot
  have hhead : Quiet (fun _ _ => True) (headLexemes file name ascribed signature) := by
    simpa [headLexemes] using ⟨hresult, hparams⟩
  exact hhead.afterAll_eq scopes

/-- The body of a function leaves nothing. -/
theorem Scope.afterAll_functionLexemes (scope : Scope) (scopes : TagScopes) :
    scopes.afterAll (scope.functionLexemes file) = scopes := by
  obtain ⟨ids, hids⟩ := Scope.exists_afterAll_lineLexemes scope.outermost 1 (⟨.braces, []⟩ :: scopes)
  exact afterAll_blockLexemes 0 hids

/-- An item leaves its definition behind if it has a tag. -/
theorem SourceFile.afterAll_itemLexemes (id : DeclId) (scopes : TagScopes) :
    scopes.afterAll (file.itemLexemes id) = scopes.declare file [id] := by
  cases hdecl : file.decl? id with
  | none => simp [itemLexemes, hdecl, C.TagScopes.declare, hasTag, tagKindAt?]
  | some d =>
    cases hfunction : d.isFunction with
    | true =>
      obtain ⟨ascribed, signature, scope, span, hkind⟩ := Declaration.exists_of_isFunction hfunction
      rw [itemLexemes_of_function hdecl hkind, C.TagScopes.afterAll_append, afterAll_headLexemes,
        Scope.afterAll_functionLexemes, C.TagScopes.declare_of_tagless]
      simp [tagless, hasTag_of_decl? hdecl, hkind, DeclKind.tagKind?]
    | false =>
      have hstmt : scopes.afterAll (Stmt.lexemes file 0 (.declaration id .nowhere)) = scopes.declare file [id] :=
        Stmt.afterAll_lexemes _ 0 scopes
      rw [Stmt.lexemes, hdecl, Option.map_some, Option.getD_some] at hstmt
      rw [itemLexemes_of_not_function hdecl hfunction, C.TagScopes.afterAll_append, hstmt]
      rfl

/-- Behind the lexemes of items, the tags of the items are declared and all else is as before. -/
theorem SourceFile.afterAll_items (ids : List DeclId) (scopes : TagScopes) :
    scopes.afterAll (ids.flatMap file.itemLexemes) = scopes.declare file ids := by
  induction ids generalizing scopes with
  | nil => rfl
  | cons id rest ih =>
    rw [List.flatMap_cons, C.TagScopes.afterAll_append, SourceFile.afterAll_itemLexemes, ih,
      ← C.TagScopes.declare_append, List.singleton_append]

/-- A tag that has been defined once is bound to its definition. -/
theorem C.TagScopes.IsOpen.find?_declare {scopes : TagScopes} (h : scopes.IsOpen) {ids : List DeclId} {t : DeclId}
    (ht : t ∈ ids) (htag : file.hasTag t = true)
    (hunique : ∀ other ∈ ids, file.hasTag other = true → file.nameAt other = file.nameAt t → other = t) :
    (scopes.declare file ids).find? (file.nameAt t) = some t := by
  induction ids using List.reverseRecOn with
  | nil => simp at ht
  | append_singleton rest last ih =>
    rw [C.TagScopes.declare_append]
    cases hlast : file.hasTag last with
    | false =>
      have hrest : t ∈ rest := by
        rcases List.mem_append.mp ht with ht | ht
        · exact ht
        · rw [List.mem_singleton.mp ht, hlast] at htag
          cases htag
      rw [C.TagScopes.declare_of_tagless (by simp [SourceFile.tagless, hlast])]
      exact ih hrest fun other hother => hunique other (List.mem_append_left _ hother)
    | true =>
      rw [C.TagScopes.declare_singleton hlast, (h.declare file rest).find?_define]
      split
      · next hname => rw [hunique last (by simp) hlast hname.symm]
      · next hname =>
        have hrest : t ∈ rest := by
          rcases List.mem_append.mp ht with ht | ht
          · exact ht
          · exact absurd (congrArg file.nameAt (List.mem_singleton.mp ht)) hname
        exact ih hrest fun other hother => hunique other (List.mem_append_left _ hother)

/-- The lexemes of the items spell the text that is generated, banner aside. -/
theorem spell_items {ids : List DeclId} {lowered : List C.Item} (h : List.Forall₂ (EmitsAt file) ids lowered) :
    Lexeme.spell (ids.flatMap file.itemLexemes) = String.join (lowered.map C.Item.text) := by
  induction h with
  | nil => rfl
  | cons hfirst _ ih =>
    obtain ⟨d, hdecl, hemits⟩ := hfirst
    rw [List.flatMap_cons, C.Lexeme.spell_append, spell_itemLexemes hdecl hemits, ih, List.map_cons, String.join_cons]

end Text

/-- Where the turn of a function comes, names and tags of the items go together. -/
theorem Finished.agree {file now : SourceFile} (hfinished : Finished file now) {before after : List DeclId}
    {id : DeclId} {d : Declaration} (horder : now.resolutionOrder = before ++ id :: after)
    (hdecl : now.decl? id = some d)
    (hvariable : d.isVariable = true) : Agree now [now.items] (TagScopes.start.declare now before) := by
  have hitems : now.items = file.items := SourceFile.items_of_cleared_eq hfinished.resolved.cleared
  have hmem {t : DeclId} (ht : t ∈ before) : t ∈ now.items :=
    SourceFile.mem_items_of_resolutionOrder (horder ▸ List.mem_append_left _ ht)
  intro name t hvisible htag
  have hfind : now.items.find? (now.isNamed name) = some t := by simpa [SourceFile.visible?] using hvisible
  have hname : now.isNamed name t = true := List.find?_some hfind
  obtain ⟨e, he, htype⟩ := SourceFile.exists_of_hasTag htag
  have hbefore : t ∈ before :=
    SourceFile.types_before_values horder hdecl hvariable (List.mem_of_find?_eq_some hfind) he htype
  rw [← SourceFile.nameAt_of_isNamed hname]
  refine (C.TagScopes.isOpen_braces _ _).find?_declare hbefore htag fun other hother htag' hsame => ?_
  obtain ⟨o, ho, -⟩ := SourceFile.exists_of_hasTag htag'
  have hother' : now.isNamed name other = true := by
    refine SourceFile.isNamed_iff.mpr ⟨o, ho, ?_⟩
    rw [← SourceFile.nameAt_of_decl? ho, hsame, SourceFile.nameAt_of_isNamed hname]
  rw [hfinished.isNamed_eq] at hname hother'
  exact hfinished.bindable.eq_of_isNamed (hitems ▸ hmem hother) (hitems ▸ hmem hbefore) hother' hname

/-- Lexical scoping and the scopes of tags agree on function bodies that are confined. The text that is generated from a
file that has been resolved is spelled by the lexemes of its items, in the order of emission, and those of a function
end with the lexemes of its body. In the body of a function that is confined, C binds every tag that is used to the
definition printed for the declaration that is linked there. -/
theorem tags_bind_to_links {p p' : Progress} {banner : Bool} {text : String}
    (hrange : ∀ id ∈ p.file.ids, id < p.file.declarations.length)
    (huntouched : ∀ d ∈ p.file.declarations, d.mark = .untouched) (hunique : p.file.ids.Nodup)
    (hresolve : resolveFile hash p = (p', none)) (hgenerate : (generate p'.file banner).2 = .ok text) :
    text = (if banner then C.banner else "") ++
      Lexeme.spell (p'.file.resolutionOrder.flatMap p'.file.itemLexemes) ∧
    ∀ before id after scope, p'.file.resolutionOrder = before ++ id :: after → p'.file.body? id = some scope →
      ∃ head, p'.file.itemLexemes id = head ++ scope.functionLexemes p'.file ∧
        (scope.confined p'.file = true →
          (TagScopes.start.afterAll (before.flatMap p'.file.itemLexemes ++ head)).Binds
            (scope.functionLexemes p'.file)) := by
  have hfinished := resolveFile_finishes hash hrange huntouched hunique
  rw [hresolve] at hfinished
  replace hfinished : Finished p.file p'.file := hfinished
  have hitems : p'.file.items = p.file.items := SourceFile.items_of_cleared_eq hfinished.resolved.cleared
  constructor
  · obtain ⟨lowered, rfl, hemits⟩ := layout_of_generate hgenerate
    rw [C.unitText, spell_items hemits]
  · intro before id after scope horder hbody
    obtain ⟨d, ascribed, signature, span, hdecl, hkind⟩ := SourceFile.exists_of_body? hbody
    refine ⟨_, SourceFile.itemLexemes_of_function hdecl hkind, fun hconfined => ?_⟩
    have hitem : id ∈ p'.file.items := SourceFile.mem_items_of_resolutionOrder (horder ▸ by simp)
    have hreached : Reached p.file [p'.file.items] id := hitems ▸ .item (hitems ▸ hitem)
    have hsound := hreached.isSound hunique hfinished hdecl
    have hagree := hfinished.agree horder hdecl (by rw [Declaration.isVariable, hkind]; rfl)
    rw [C.TagScopes.afterAll_append, SourceFile.afterAll_items, afterAll_headLexemes]
    refine scope.binds_function (fun node hnode => hsound node ?_) hagree hconfined
    rw [hkind]
    exact DeclKind.mem_nodes_of_body hnode

/-- The file that resolution leaves. -/
def linkedFile (file : SourceFile) : SourceFile := (resolveFile nameHash ⟨file, []⟩).1.file

/-- A function that declares records with the name of an item in a block before an `else` and in a for loop. -/
def sheltered : SourceFile :=
  let here := Span.nowhere
  let condition := Expr.bool true here
  let declared (id : DeclId) : Scope := .statement (.declaration id here)
  let object (name : String) : Declaration :=
    ⟨⟨name, here⟩, .mutable (.named ⟨"T", here⟩ none) none, here, .untouched⟩
  ⟨[⟨⟨"T", here⟩, .record .struct [], here, .untouched⟩,
    ⟨⟨"f", here⟩, .constant none (.function ⟨[], .primitive .void here, here⟩
      (.block [.conditional condition (.block [declared 2, declared 3] here) (some (declared 4)) here,
        .forLoop (.declaration 5 here) condition (.expr condition) (declared 6) here, declared 7] here) here), here,
      .untouched⟩,
    ⟨⟨"T", here⟩, .record .union [], here, .untouched⟩, object "x", object "y",
    ⟨⟨"T", here⟩, .record .struct [], here, .untouched⟩, object "z", object "w"], [0, 1]⟩

/-- The uses in it are bound: behind the `else` and behind the loop to the item, in the loop to the record of the
loop. -/
theorem sheltered_tags_bind : (resolveFile nameHash ⟨sheltered, []⟩).2 = none ∧
    (∃ text, (generate (linkedFile sheltered) false).2 = .ok text) ∧
    .use .struct "T" 5 ∈ (linkedFile sheltered).itemLexemes 1 ∧
    ∃ scope head, (linkedFile sheltered).body? 1 = some scope ∧ scope.confined (linkedFile sheltered) = true ∧
      (linkedFile sheltered).itemLexemes 1 = head ++ scope.functionLexemes (linkedFile sheltered) ∧
      (TagScopes.start.afterAll ([0].flatMap (linkedFile sheltered).itemLexemes ++ head)).Binds
        (scope.functionLexemes (linkedFile sheltered)) := by
  have hresolve : resolveFile nameHash ⟨sheltered, []⟩ = ((resolveFile nameHash ⟨sheltered, []⟩).1, none) := by
    have hnone : (resolveFile nameHash ⟨sheltered, []⟩).2 = none := by decide +kernel
    rw [← hnone]
  obtain ⟨text, hgenerate⟩ : ∃ text, (generate (linkedFile sheltered) false).2 = .ok text := by
    have hok : (generate (linkedFile sheltered) false).2.toBool = true := by decide +kernel
    cases hresult : (generate (linkedFile sheltered) false).2 with
    | ok text => exact ⟨text, rfl⟩
    | error e => simp [hresult, Except.toBool] at hok
  obtain ⟨scope, hbody⟩ := Option.isSome_iff_exists.mp
    (show ((linkedFile sheltered).body? 1).isSome = true by decide +kernel)
  have hconfined : ((linkedFile sheltered).body? 1).all (·.confined (linkedFile sheltered)) = true := by decide +kernel
  rw [hbody] at hconfined
  obtain ⟨-, hbinds⟩ := tags_bind_to_links (p := ⟨sheltered, []⟩) (by decide) (by simp [sheltered]) (by decide) hresolve
    hgenerate
  obtain ⟨head, hlexemes, hbound⟩ := hbinds [0] 1 [] scope (by decide +kernel) hbody
  exact ⟨congrArg (·.2) hresolve, ⟨text, hgenerate⟩, by decide +kernel, scope, head, hbody, hconfined, hlexemes,
    hbound hconfined⟩

/-- A conditional that declares a record with the name of an item in its first branch, which is not a block, and then a
variable of that name. -/
def branching : SourceFile :=
  let here := Span.nowhere
  ⟨[⟨⟨"P", here⟩, .record .struct [], here, .untouched⟩,
    ⟨⟨"f", here⟩, .constant none (.function ⟨[], .primitive .void here, here⟩
      (.block [.conditional (.bool true here) (.statement (.declaration 2 here)) (some (.block [] here)) here,
        .statement (.declaration 3 here)] here) here), here, .untouched⟩,
    ⟨⟨"P", here⟩, .record .struct [], here, .untouched⟩,
    ⟨⟨"y", here⟩, .mutable (.named ⟨"P", here⟩ none) none, here, .untouched⟩], [0, 1]⟩

/-- The name is linked to the record of the branch, and the tag that is printed for it is bound to the item. -/
theorem branching_tag_binds_elsewhere : (resolveFile nameHash ⟨branching, []⟩).2 = none ∧
    (generate (linkedFile branching) false).2 = .ok ("struct P \x7b\n\x7d;\n\nvoid f() \x7b\n    if (1) \x7b\n"
      ++ "        struct P \x7b\n        \x7d;\n    \x7d\n\n    else \x7b\n    \x7d\n\n    struct P y;\n\x7d\n\n") ∧
    ∃ before rest, (linkedFile branching).itemLexemes 1 = before ++ .use .struct "P" 2 :: rest ∧
      (TagScopes.start.afterAll ((linkedFile branching).itemLexemes 0 ++ before)).find? "P" = some 0 ∧
      ¬(TagScopes.start.afterAll ((linkedFile branching).itemLexemes 0)).Binds ((linkedFile branching).itemLexemes 1) :=
  ⟨by decide +kernel, rfl, ((linkedFile branching).itemLexemes 1).take 28,
    ((linkedFile branching).itemLexemes 1).drop 29, by decide +kernel, by decide +kernel, by decide +kernel⟩

end DeclTree

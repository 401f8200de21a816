import DeclTree.Proofs.Parameters
import DeclTree.Proofs.Settling
import DeclTree.Proofs.Visibility

/-!
# Linking along lexical scopes

A type that is met by value is resolved with the tables of the declaration that mentions it. That this gives the same
links as the tables at its own place rests on when it can happen. Types among the items are resolved first, with the
table of the items only. Once a variable is resolved, every type that a table binds has been resolved already, except
the one that is being declared (`Ready`), so that no visit leaves its lexical scope.

A run keeps the following. What is closed is linked as lexical scoping says (`Linked`); the tables represent the
environment of the step that is being carried out; and everything that is open leads to the declaration that is being
visited (`Enters`), so that meeting an open declaration shows a cycle of records.
-/

namespace DeclTree

open Relation (TransGen)

variable {hash : String → Nat}

namespace SourceFile

/-- A type is declared. -/
def IsType (file : SourceFile) (id : DeclId) : Prop := ∃ d, file.decl? id = some d ∧ d.isVariable = false

/-- A variable is declared. -/
def IsValue (file : SourceFile) (id : DeclId) : Prop := ∃ d, file.decl? id = some d ∧ d.isVariable = true

/-- What the resolution of a declaration may lead to next: a type that it links by value, or what it declares. -/
def Enters (file : SourceFile) (t u : DeclId) : Prop :=
  (file.IsType u ∧ (file.Contains t u ∨ file.IsValue t)) ∨ file.Declares t u

/-- Some run has opened the declaration. -/
def Touched (now : SourceFile) (id : DeclId) : Prop := ∃ m, now.mark? id = some m ∧ m ≠ .untouched

variable {file : SourceFile} {t u : DeclId}

/-- A type is no variable. -/
theorem IsType.not_isValue (h : file.IsType t) : ¬file.IsValue t := by
  rintro ⟨e, he, hvalue⟩
  obtain ⟨d, hd, htype⟩ := h
  obtain rfl := Option.some_inj.mp (hd.symm.trans he)
  simp [hvalue] at htype

/-- Only variables declare. -/
theorem Declares.isValue (h : file.Declares t u) : file.IsValue t := by
  obtain ⟨d, hd, hmem⟩ := h
  refine ⟨d, hd, ?_⟩
  rw [Declaration.isVariable]
  cases hkind : d.kind with
  | constant => rfl
  | mutable => rfl
  | _ => simp [hkind, DeclKind.ids] at hmem

/-- From a type only types are entered, and by value. -/
theorem contains_of_enters (h : TransGen file.Enters t u) (ht : file.IsType t) :
    TransGen file.Contains t u ∧ file.IsType u := by
  have hstep {a b : DeclId} (ha : file.IsType a) (hab : file.Enters a b) : file.Contains a b ∧ file.IsType b := by
    rcases hab with ⟨hb, hcontains | hvalue⟩ | hdeclares
    · exact ⟨hcontains, hb⟩
    · exact absurd hvalue ha.not_isValue
    · exact absurd hdeclares.isValue ha.not_isValue
  induction h with
  | single hfirst =>
    obtain ⟨hcontains, hb⟩ := hstep ht hfirst
    exact ⟨.single hcontains, hb⟩
  | tail _ hlast ih =>
    obtain ⟨hcontains, hb⟩ := hstep ih.2 hlast
    exact ⟨ih.1.tail hcontains, hb⟩

/-- A variable is entered by declaring it, from a variable. -/
theorem declares_of_enters (h : TransGen file.Enters t u) (hu : file.IsValue u) : TransGen file.Declares t u := by
  induction h with
  | single hfirst =>
    rcases hfirst with ⟨htype, -⟩ | hdeclares
    · exact absurd hu htype.not_isValue
    · exact .single hdeclares
  | tail _ hlast ih =>
    rcases hlast with ⟨htype, -⟩ | hdeclares
    · exact absurd hu htype.not_isValue
    · exact (ih hdeclares.isValue).tail hdeclares

/-- What has been opened stays so while marks that are not untouched stay. -/
theorem Touched.mono {before after : SourceFile} (h : before.Touched t)
    (hmarks : ∀ m, before.mark? t = some m → m ≠ .untouched → after.mark? t = some m) : after.Touched t := by
  obtain ⟨m, hm, hne⟩ := h
  exact ⟨m, hmarks m hm hne, hne⟩

end SourceFile

/-- The plan of a type only links and refuses. -/
theorem Declaration.plan?_of_type {d : Declaration} (htype : d.isVariable = false) {plan : List Step}
    (hplan : d.plan? = some plan) {step : Step} (hstep : step ∈ plan) :
    (∃ error, step = .reject error) ∨ ∃ kind members name reach, d.kind = .record kind members ∧
      step = .link name reach ∧ (reach = .byValue → ∃ slot ∈ members, slot.type.stored? = some name) := by
  rw [isVariable] at htype
  rw [plan?] at hplan
  cases hkind : d.kind with
  | constant type value => simp [hkind, DeclKind.isVariable] at htype
  | mutable type value => simp [hkind, DeclKind.isVariable] at htype
  | enumeration members => simp [hkind] at hplan
  | sum members => simp [hkind] at hplan
  | record kind members =>
    simp only [hkind, Option.some_inj] at hplan
    rw [← hplan] at hstep
    rcases List.mem_append.mp hstep with hstep | hstep
    · obtain ⟨name, -, reach, rfl, hstored⟩ := TypeExpr.eq_link_of_mem_slotSteps members .byValue hstep
      exact .inr ⟨kind, members, name, reach, rfl, rfl, fun hv => (hstored hv).2⟩
    · rw [memberChecks] at hstep
      split at hstep
      · exact .inl ⟨_, List.mem_singleton.mp hstep⟩
      · simp at hstep

/-- The environment does not change while the plan of a type is carried out. -/
theorem Declaration.foldl_after_of_type {d : Declaration} (htype : d.isVariable = false) {done rest : List Step}
    (hplan : d.plan? = some (done ++ rest)) (env : Env) : done.foldl Env.after env = env := by
  refine foldl_after_eq fun step hstep => ?_
  rcases plan?_of_type htype hplan (List.mem_append_left _ hstep) with ⟨error, rfl⟩ | ⟨_, _, name, reach, -, rfl, -⟩
  · rfl
  · rfl

/-- The links of a declaration are those that lexical scoping gives its names. -/
def Declaration.Fits (d : Declaration) (file : SourceFile) (env : Env) : Prop :=
  ∀ inner name reach link, (inner, .named name reach link) ∈ d.kind.nodes env →
    ∃ target, link = some target ∧ file.visible? inner name.name = some target

/-- What a step has found out about names when it does not fail. -/
def Step.Passes (file : SourceFile) (env : Env) : Step → Prop
  | .declare id => ∀ scope outer, env = scope :: outer → ∀ other ∈ scope, ¬file.SameName id other
  | .avoid names id _ => ∀ d, file.decl? id = some d → d.name.name ∉ names
  | .link .. | .enter | .leave | .reject _ => True

/-- What the steps of a plan have found out about names, each in its environment. -/
def Passes (file : SourceFile) : Env → List Step → Prop
  | _, [] => True
  | env, step :: rest => step.Passes file env ∧ Passes file (env.after step) rest

/-- Steps in a row have found out what each part has. -/
theorem Passes.append {file : SourceFile} {env : Env} {steps more : List Step} (first : Passes file env steps)
    (second : Passes file (steps.foldl Env.after env) more) : Passes file env (steps ++ more) := by
  induction steps generalizing env with
  | nil => exact second
  | cons step rest ih => exact ⟨first.1, ih first.2 second⟩

/-- A step of a plan has found out its part in the environment that the steps before it leave. -/
theorem Passes.split {file : SourceFile} {env : Env} {done rest : List Step} {step : Step}
    (h : Passes file env (done ++ step :: rest)) : step.Passes file (done.foldl Env.after env) := by
  induction done generalizing env with
  | nil => exact h.1
  | cons first done ih => exact ih h.2

/-- What is closed is linked as lexical scoping says, and no name has been declared twice on the way. -/
structure Linked (file now : SourceFile) : Prop where
  cleared : now.cleared = file.cleared
  fits : ∀ id d, now.decl? id = some d → d.mark = .closed → ∃ env, Reached file env id ∧ d.Fits file env
  passed : ∀ id d, now.decl? id = some d → d.mark = .closed →
    ∃ env plan, Reached file env id ∧ d.plan? = some plan ∧ Passes file env plan

/-- While a declaration is visited, the types of an environment have been opened, or they are items and types are being
resolved with the table of the items only. -/
def Ready (file now : SourceFile) (env : Env) (id : DeclId) : Prop :=
  (env = [file.items] ∧ file.IsType id) ∨ ∀ t ∈ env.flatten, file.IsType t → now.Touched t ∨ t = id

/-- The state in which a declaration is visited. -/
structure Visiting (file : SourceFile) (scopes : Scopes hash) (env : Env) (id : DeclId) (now : SourceFile) : Prop where
  linked : Linked file now
  known : id < file.declarations.length
  tables : Represents file scopes env
  /-- Everything that is open leads to the declaration. -/
  stack : ∀ t, now.mark? t = some .opened → TransGen file.Enters t id
  home : file.IsValue id ∨ now.mark? id = some .untouched → Reached file env id
  ready : now.mark? id = some .untouched → Ready file now env id

section Keeping

variable {file before after : SourceFile} {env : Env} {id : DeclId}

/-- Types that are ready stay so while marks that are not untouched stay. -/
theorem Ready.mono (h : Ready file before env id)
    (hmarks : ∀ t m, before.mark? t = some m → m ≠ .untouched → after.mark? t = some m) : Ready file after env id :=
  h.imp (fun h => h) fun hall t ht htype => (hall t ht htype).imp (fun h => h.mono (hmarks t)) fun h => h

namespace Linked

/-- A declaration of the file with its name, its span and whether it is a variable. -/
theorem original (h : Linked file before) {e : Declaration} (he : before.decl? id = some e) :
    ∃ d, file.decl? id = some d ∧ e.name = d.name ∧ e.span = d.span ∧ e.isVariable = d.isVariable := by
  obtain ⟨d, hd, hcleared⟩ := SourceFile.decl?_of_cleared_eq h.cleared.symm he
  exact ⟨d, hd, (Declaration.name_of_cleared_eq hcleared).symm, (Declaration.span_of_cleared_eq hcleared).symm,
    (Declaration.isVariable_of_cleared_eq hcleared).symm⟩

/-- There is a declaration at every position of the arena, however far resolution has come. -/
theorem exists_decl? (h : Linked file before) (hid : id < file.declarations.length) : ∃ e, before.decl? id = some e :=
  SourceFile.exists_decl? ((SourceFile.length_of_cleared_eq h.cleared).symm ▸ hid)

/-- A change of a declaration that is not closed, and that does not close it, does not matter. -/
theorem update (h : Linked file before) {change : Declaration → Declaration}
    (hcleared : ∀ d, (change d).cleared = d.cleared)
    (hchange : ∀ d, before.decl? id = some d → (change d).mark ≠ .closed) : Linked file (before.update id change) where
  cleared := (SourceFile.cleared_update before id hcleared).trans h.cleared
  fits t d hdecl hmark := h.fits t d (SourceFile.decl?_of_update hchange hdecl hmark) hmark
  passed t d hdecl hmark := h.passed t d (SourceFile.decl?_of_update hchange hdecl hmark) hmark

/-- Filling a link of an open declaration does not matter. -/
theorem setLink (h : Linked file before) (hopen : before.mark? id = some .opened) (k : Nat) (target : DeclId) :
    Linked file (before.setLink id k target) :=
  h.update (fun d => by simp only [Declaration.cleared, DeclKind.cleared_setLink])
    fun d hd => by simp [SourceFile.mark_of_mark? hd hopen]

end Linked

end Keeping

section Step

variable {file : SourceFile}

/-- The state in which a step of the plan of an open declaration is carried out, in the environment of the step. -/
structure Stepping (file : SourceFile) (owner : DeclId) (env : Env) (frame : Frame hash) : Prop where
  linked : Linked file frame.progress.file
  tables : Represents file frame.scopes env
  ready : Ready file frame.progress.file env owner

/-- Where a step finds itself: in the plan of a declaration that is reached, whose environment is `env`. -/
structure StepPlace (file : SourceFile) (env : Env) (owner : DeclId) (d : Declaration) (done : List Step) (step : Step)
    (rest : List Step) : Prop where
  reached : Reached file env owner
  decl : file.decl? owner = some d
  plan : d.plan? = some (done ++ step :: rest)

namespace StepPlace

variable {env : Env} {owner : DeclId} {d : Declaration} {done rest : List Step}

/-- A link by value leads on from its owner. -/
theorem enters {name : Ident} {target : DeclId} (h : StepPlace file env owner d done (.link name .byValue) rest)
    (hvisible : file.visible? (done.foldl Env.after env) name.name = some target) (htarget : file.IsType target) :
    file.Enters owner target := by
  cases hvariable : d.isVariable with
  | true => exact .inl ⟨htarget, .inr ⟨d, h.decl, hvariable⟩⟩
  | false =>
    rw [Declaration.foldl_after_of_type hvariable h.plan] at hvisible
    have hmem : Step.link name .byValue ∈ done ++ .link name .byValue :: rest := by simp
    rcases Declaration.plan?_of_type hvariable h.plan hmem with
      ⟨error, heq⟩ | ⟨kind, members, label, reach, hkind, heq, hstored⟩
    · simp at heq
    · obtain ⟨rfl, rfl⟩ := Step.link.inj heq
      obtain ⟨slot, hslot, hname⟩ := hstored rfl
      exact .inl ⟨htarget, .inl ⟨env, h.reached, d, kind, members, h.decl, hkind, slot, hslot, name, hname, hvisible⟩⟩

/-- Only the plan of a variable enters, leaves or declares. -/
theorem isVariable {step : Step} (h : StepPlace file env owner d done step rest)
    (hlink : ∀ name reach, step ≠ .link name reach) (hreject : ∀ error, step ≠ .reject error) :
    d.isVariable = true := by
  cases hvariable : d.isVariable with
  | true => rfl
  | false =>
    have hmem : step ∈ done ++ step :: rest := by simp
    rcases Declaration.plan?_of_type hvariable h.plan hmem with
      ⟨error, heq⟩ | ⟨_, _, name, reach, -, heq, -⟩
    · exact absurd heq (hreject error)
    · exact absurd heq (hlink name reach)

/-- For a variable every type of the environment has been opened. -/
theorem touched {step : Step} (h : StepPlace file env owner d done step rest) (hvariable : d.isVariable = true)
    {now : SourceFile} {inner : Env} (hready : Ready file now inner owner) (hopen : now.mark? owner = some .opened) :
    ∀ t ∈ inner.flatten, file.IsType t → now.Touched t := by
  rcases hready with ⟨-, htype⟩ | hall
  · exact absurd ⟨d, h.decl, hvariable⟩ htype.not_isValue
  · intro t ht htype
    rcases hall t ht htype with htouched | rfl
    · exact htouched
    · exact ⟨.opened, hopen, by decide⟩

/-- Where a declaration is made, every type of the environment has been opened, except possibly what is declared. -/
theorem touched_or_declared {id : DeclId} (h : StepPlace file env owner d done (.declare id) rest) {now : SourceFile}
    {inner : Env} (hready : Ready file now inner owner) (hopen : now.mark? owner = some .opened) :
    ∀ t ∈ (inner.declare [id]).flatten, file.IsType t → now.Touched t ∨ t = id := by
  have htouched := h.touched (h.isVariable (by simp) (by simp)) hready hopen
  intro t ht htype
  have hmem : t ∈ inner.flatten ∨ t = id := by
    cases inner with
    | nil => simp [Env.declare] at ht
    | cons scope outer =>
      simp only [Env.declare, List.flatten_cons, List.mem_append, List.mem_singleton] at ht ⊢
      tauto
  exact hmem.imp (fun h => htouched t h htype) fun h => h

/-- The declaration of a statement is reached. -/
theorem declared {id : DeclId} (h : StepPlace file env owner d done (.declare id) rest) :
    file.Declares owner id ∧ Reached file ((done.foldl Env.after env).declare [id]) id ∧
      ∃ span, file.HasNode ((done.foldl Env.after env).declare [id]) (.declaration id span) := by
  obtain ⟨span, hnode⟩ := Declaration.node_of_declare env h.plan
  exact ⟨⟨d, h.decl, mem_ids_of_mem_nodes hnode⟩, .nested h.reached h.decl hnode,
    span, env, owner, d, h.reached, h.decl, hnode⟩

/-- A type that is linked by value is visited at its own place, unless it has been opened before. -/
theorem byValue {name : Ident} {target : DeclId} (h : StepPlace file env owner d done (.link name .byValue) rest)
    {now : SourceFile} (hopen : now.mark? owner = some .opened)
    (hready : Ready file now (done.foldl Env.after env) owner)
    (hvisible : file.visible? (done.foldl Env.after env) name.name = some target) (htarget : file.IsType target) :
    file.Enters owner target ∧
      (file.IsValue target ∨ now.mark? target = some .untouched → Reached file (done.foldl Env.after env) target) ∧
      (now.mark? target = some .untouched → Ready file now (done.foldl Env.after env) target) := by
  have hmem := (SourceFile.mem_of_visible? hvisible).1
  have huntouched (hmark : now.mark? target = some .untouched) :
      done.foldl Env.after env = [file.items] ∧ target ∈ file.items := by
    rcases hready with ⟨hitems, -⟩ | hall
    · exact ⟨hitems, by simpa [hitems] using hmem⟩
    · rcases hall target hmem htarget with ⟨m, hm, hne⟩ | rfl
      · rw [hmark, Option.some_inj] at hm
        exact absurd hm.symm hne
      · simp [hopen] at hmark
  refine ⟨h.enters hvisible htarget, ?_, fun hmark => .inl ⟨(huntouched hmark).1, htarget⟩⟩
  rintro (hvalue | hmark)
  · exact absurd hvalue htarget.not_isValue
  · obtain ⟨hitems, hitem⟩ := huntouched hmark
    exact hitems ▸ .item hitem

/-- What a plan refuses is a defect. -/
theorem defect_of_reject {error : Error} (h : StepPlace file env owner d done (.reject error) rest) :
    Defect file error := by
  rcases Declaration.node_of_reject env h.plan with
    ⟨construct, span, rfl, hnode⟩ | ⟨signature, body, slot, hnode, hslot, rfl⟩ |
    ⟨kind, members, slot, hkind, hslot, rfl⟩
  · exact .refused ⟨env, owner, d, h.reached, h.decl, hnode⟩
  · exact .repeatedParameter ⟨env, owner, d, h.reached, h.decl, hnode⟩ (Slot.isRepeated_of_firstRepeat? hslot)
  · exact .repeatedMember h.reached h.decl hkind (Slot.isRepeated_of_firstRepeat? hslot)

/-- A declaration that must be kept apart from parameters is named by the owner; if it is not, that is a defect. -/
theorem defect_of_avoid {names : List String} {id : DeclId} {span : Span}
    (h : StepPlace file env owner d done (.avoid names id span) rest) :
    file.Declares owner id ∧ ∀ e, file.decl? id = some e → e.name.name ∈ names →
      Defect file (.duplicateDeclaration e.name.name span) := by
  refine ⟨⟨d, h.decl, Declaration.plan?_avoids h.plan names id span (by simp)⟩, fun e he hname => ?_⟩
  obtain ⟨signature, body, hnode, rfl, hlocal⟩ := Declaration.node_of_avoid env h.plan
  obtain ⟨slot, hslot, hslotName⟩ := List.mem_map.mp hname
  obtain ⟨scope, hscope, hdeclared⟩ := List.mem_filterMap.mp hlocal
  rw [Scope.declared?_eq_some] at hdeclared
  exact .shadowedParameter ⟨env, owner, d, h.reached, h.decl, hnode⟩ hslot (hdeclared ▸ hscope) he hslotName

end StepPlace

/-- A step keeps the state, and an error of a step is a defect, if this is so of the visits that it makes. -/
theorem runStep_links {visit : Visit hash} (hvisit : visit.Lawful)
    (hrange : ∀ id ∈ file.ids, id < file.declarations.length) {env : Env} (henv : env ≠ []) {owner : DeclId}
    {d : Declaration} {done rest : List Step} {step : Step} {frame : Frame hash}
    (hplace : StepPlace file env owner d done step rest) (hopen : frame.progress.file.mark? owner = some .opened)
    (hstate : Stepping file owner (done.foldl Env.after env) frame)
    (hinner : ∀ scopes inner id event, file.Enters owner id → id < file.declarations.length →
      Represents file scopes inner →
      (file.IsValue id ∨ frame.progress.file.mark? id = some .untouched → Reached file inner id) →
      (frame.progress.file.mark? id = some .untouched → Ready file frame.progress.file inner id) →
      (visit scopes id (frame.progress.note event)).Meets (fun p => Linked file p.file)
        fun _ error => Defect file error) :
    (runStep visit owner step frame).Meets (Stepping file owner ((done ++ [step]).foldl Env.after env))
      fun _ error => Defect file error := by
  obtain ⟨hlinked, htables, hready⟩ := hstate
  have hlink (name : Ident) (target : DeclId) (e : Declaration)
      (hhere : StepPlace file env owner d done (.link name .byValue) rest)
      (hfind : frame.scopes.lookup name.name = some target)
      (he : frame.progress.file.decl? target = some e) (hvariable : e.isVariable = false) :
      (visit frame.scopes target (frame.progress.note (.linked name.name target .byValue))).Meets
        (fun p => Linked file p.file) fun _ error => Defect file error := by
    obtain ⟨e₀, he₀, -, -, heq⟩ := hlinked.original he
    obtain ⟨henters, hhome, hready'⟩ := hhere.byValue hopen hready ((htables.find_eq _).symm.trans hfind)
      ⟨e₀, he₀, heq ▸ hvariable⟩
    exact hinner frame.scopes _ target _ henters (List.getElem?_eq_some_iff.mp he₀).1 htables hhome hready'
  rw [List.foldl_append, List.foldl_cons, List.foldl_nil]
  generalize hinnerEnv : done.foldl Env.after env = inner at *
  have hends := runStep_ends visit owner step frame
  generalize runStep visit owner step frame = outcome at hends ⊢
  cases hends with
  | @unknown name reach hfind =>
    obtain ⟨link, hnode⟩ := Declaration.node_of_link env hplace.plan
    rw [hinnerEnv] at hnode
    exact .unknownType ⟨env, owner, d, hplace.reached, hplace.decl, hnode⟩ ((htables.find_eq _).symm.trans hfind)
  | @dangling name reach target hfind hdecl =>
    obtain ⟨-, e, he⟩ := SourceFile.mem_of_visible? ((htables.find_eq _).symm.trans hfind)
    obtain ⟨e', he'⟩ := hlinked.exists_decl? (List.getElem?_eq_some_iff.mp he).1
    simp [hdecl] at he'
  | @notType name reach target e hfind hdecl hvariable =>
    obtain ⟨link, hnode⟩ := Declaration.node_of_link env hplace.plan
    rw [hinnerEnv] at hnode
    obtain ⟨e₀, he₀, -, -, heq⟩ := hlinked.original hdecl
    exact .notAType ⟨env, owner, d, hplace.reached, hplace.decl, hnode⟩ ((htables.find_eq _).symm.trans hfind) he₀
      (heq ▸ hvariable)
  | @visitFailed name target e p error hfind hdecl hvariable hrun =>
    have hvisited := hlink name target e hplace hfind hdecl hvariable
    rw [hrun] at hvisited
    exact hvisited
  | @stored name target e p hfind hdecl hvariable hrun =>
    have hadvances := hvisit.advances hrun
    have hvisited := hlink name target e hplace hfind hdecl hvariable
    rw [hrun] at hvisited
    have hopened := hadvances.mark?_eq hopen (by decide)
    refine ⟨hvisited.setLink hopened frame.filled target, htables, hready.mono fun t m hm hne => ?_⟩
    exact (SourceFile.mark?_setLink _ _ _ _ t).trans (hadvances.mark?_eq hm hne)
  | @referred name target e hfind hdecl hvariable =>
    refine ⟨hlinked.setLink hopen frame.filled target, htables, hready.mono fun t m hm hne => ?_⟩
    exact (SourceFile.mark?_setLink _ _ _ _ t).trans hm
  | entered =>
    have htouched := hplace.touched (hplace.isVariable (by simp) (by simp)) hready hopen
    exact ⟨hlinked, htables.push, .inr fun t ht htype => .inl (htouched t (by simpa [Env.after] using ht) htype)⟩
  | left =>
    have htouched := hplace.touched (hplace.isVariable (by simp) (by simp)) hready hopen
    have htail := Declaration.tail_ne_nil_of_leave henv hplace.plan
    rw [hinnerEnv] at htail
    cases inner with
    | nil => exact absurd rfl htail
    | cons scope outer =>
      refine ⟨hlinked, htables.pop htail, .inr fun t ht htype => .inl (htouched t ?_ htype)⟩
      rw [List.flatten_cons]
      exact List.mem_append_right _ ht
  | absent hdecl =>
    obtain ⟨e, he⟩ := hlinked.exists_decl? (hrange _ hplace.declared.1.mem_ids)
    simp [hdecl] at he
  | nameless hdecl hname =>
    obtain ⟨e₀, he₀, heqName, heqSpan, -⟩ := hlinked.original hdecl
    rw [heqSpan]
    exact .nameless hplace.declared.2.1 he₀ (heqName ▸ hname)
  | @repeated id e hdecl hname hinsert =>
    obtain ⟨e₀, he₀, heqName, heqSpan, -⟩ := hlinked.original hdecl
    obtain ⟨-, -, span, hnode⟩ := hplace.declared
    rw [hinnerEnv] at hnode
    rw [heqName] at hinsert
    rw [heqName, heqSpan]
    cases inner with
    | nil => exact absurd rfl htables.ne_nil
    | cons scope outer =>
      obtain ⟨other, hother, hsameName⟩ := htables.exists_of_insert_none he₀ hinsert
      exact .repeatedLocal hnode hother he₀ hsameName
  | @declared id e scopes p result hdecl hname hinsert hrun =>
    obtain ⟨e₀, he₀, heqName, -, -⟩ := hlinked.original hdecl
    obtain ⟨hdeclares, hreached, -⟩ := hplace.declared
    have htouched := hplace.touched_or_declared hready hopen
    rw [hinnerEnv] at hreached
    rw [heqName] at hinsert
    have htables' := htables.insert he₀ hinsert
    have hvisited := hinner scopes (inner.declare [id]) id (.declared e.name.name) (.inr hdeclares)
      (hrange _ hdeclares.mem_ids) htables' (fun _ => hreached) fun _ => .inr htouched
    rw [hrun] at hvisited
    cases result with
    | some error => exact hvisited
    | none =>
      have hadvances := hvisit.advances hrun
      have hclosed := hvisit.closes hrun
      refine ⟨hvisited, htables', .inr fun t ht htype => .inl ?_⟩
      rcases htouched t ht htype with htouched | rfl
      · exact htouched.mono fun m hm hne => hadvances.mark?_eq hm hne
      · exact ⟨.closed, hclosed, by decide⟩
  | unavoidable hdecl =>
    obtain ⟨e, he⟩ := hlinked.exists_decl? (hrange _ hplace.defect_of_avoid.1.mem_ids)
    simp [hdecl] at he
  | collided hdecl hname =>
    obtain ⟨e₀, he₀, heqName, -, -⟩ := hlinked.original hdecl
    rw [heqName] at hname ⊢
    exact hplace.defect_of_avoid.2 e₀ he₀ hname
  | avoided hdecl hname => exact ⟨hlinked, htables, hready⟩
  | rejected => exact hplace.defect_of_reject

/-- A step that declares or avoids a name fails unless the name is free. -/
theorem runStep_passes (visit : Visit hash) (owner : DeclId) (step : Step) {frame : Frame hash} {env : Env}
    (hstate : Stepping file owner env frame) :
    (runStep visit owner step frame).Meets (fun _ => step.Passes file env) fun _ _ => True := by
  have hends := runStep_ends visit owner step frame
  generalize runStep visit owner step frame = outcome at hends ⊢
  cases hends with
  | @declared id e scopes p result hdecl hname hinsert hrun =>
    obtain ⟨e₀, he₀, heqName, -, -⟩ := hstate.linked.original hdecl
    cases result with
    | some error => trivial
    | none =>
      rintro scope outer rfl other hother ⟨d, e', hd, he', hsame⟩
      obtain rfl := Option.some_inj.mp (he₀.symm.trans hd)
      refine hstate.tables.not_named hinsert hother ?_
      exact SourceFile.isNamed_iff.mpr ⟨e', he', hsame.trans (congrArg Ident.name heqName.symm)⟩
  | avoided hdecl hname =>
    obtain ⟨e₀, he₀, heqName, -, -⟩ := hstate.linked.original hdecl
    intro d hd
    obtain rfl := Option.some_inj.mp (he₀.symm.trans hd)
    rwa [← heqName]
  | _ => trivial

/-- Carrying out the plan of a declaration that is reached links it as lexical scoping says, or shows a defect. -/
theorem runSteps_links {visit : Visit hash} (hvisit : visit.Lawful)
    (hrange : ∀ id ∈ file.ids, id < file.declarations.length)
    {scopes : Scopes hash} {env : Env} {id : DeclId} {p : Progress} {d : Declaration} {plan : List Step}
    (hdecl : p.file.decl? id = some d) (hmark : d.mark = .untouched) (hplan : d.plan? = some plan)
    (hstate : Visiting file scopes env id p.file)
    (hinner : ∀ scopes' inner id' p', p'.file.fresh ⊂ p.file.fresh → Visiting file scopes' inner id' p'.file →
      (visit scopes' id' p').Meets (fun p'' => Linked file p''.file) fun _ error => Defect file error) :
    (runSteps visit id plan ⟨scopes, 0, p.start id d⟩).Meets
      (fun last => Linked file (last.progress.file.setMark id .closed)) fun _ error => Defect file error := by
  have huntouched : p.file.mark? id = some .untouched := SourceFile.mark?_eq_some.mpr ⟨d, hdecl, hmark⟩
  have hopen := Progress.mark?_start scopes hdecl
  have hreached := hstate.home (.inr huntouched)
  obtain ⟨d₀, hd₀, hplan₀⟩ := SourceFile.plan_of_cleared_eq hstate.linked.cleared.symm hdecl hplan
  have hstart : Stepping file id env ⟨scopes, 0, p.start id d⟩ := by
    refine ⟨hstate.linked.update (fun _ => rfl) (fun _ _ => by simp), hstate.tables,
      (hstate.ready huntouched).mono fun t m hm hne => ?_⟩
    have hid : id ≠ t := by
      rintro rfl
      rw [huntouched, Option.some_inj] at hm
      exact hne hm.symm
    exact (SourceFile.mark?_setMark_of_ne _ hid _).trans hm
  refine (runPlan_meets hvisit hopen (fun done frame => Stepping file id (done.foldl Env.after env) frame ∧
      Passes file env done ∧
      Filling (fun site target => file.visible? site.env site.name.name = some target) id (linkSites env done) frame)
    ⟨hstart, trivial, .start scopes hdecl⟩ ?_).imp ?_ fun _ _ h => h
  · rintro done step rest frame rfl hframe hsettled ⟨hstepping, hpasses, hfilling⟩
    obtain ⟨e, he, heplan⟩ := SourceFile.plan_of_cleared_eq (hframe.file_of_untouched hdecl hmark).cleared hdecl hplan
    -- What is open in the frame is the owner or was open before, and the owner leads on to what it visits.
    have hstack {t u : DeclId} (ht : frame.progress.file.mark? t = some .opened) (hu : file.Enters id u) :
        TransGen file.Enters t u := by
      by_cases heq : id = t
      · exact heq ▸ .single hu
      · have hbefore := hsettled t ht
        rw [show (Frame.mk scopes 0 (p.start id d)).progress.file = p.file.setMark id .opened from rfl,
          SourceFile.mark?_setMark_of_ne _ heq] at hbefore
        exact (hstate.stack t hbefore).tail hu
    have hlinks := runStep_links hvisit hrange hstate.tables.ne_nil ⟨hreached, hd₀, hplan₀⟩ hframe.opened hstepping
      fun scopes' inner id' event henters hid' htables hhome hready => hinner scopes' inner id' _
        (hframe.fresh_ssubset hdecl hmark)
        ⟨hstepping.linked, hid', htables, fun t ht => hstack ht henters, hhome, hready⟩
    have hfills := runStep_filling hvisit env hframe.opened he heplan
      (fun name reach target t _ hfind _ _ => (hstepping.tables.find_eq _).symm.trans hfind) hfilling
    exact (hlinks.and ((runStep_passes visit id step hstepping).and hfills)).imp
      (fun _ h => ⟨h.1, hpasses.append ⟨h.2.1, trivial⟩, h.2.2⟩) fun _ _ h => h.1
  · rintro last ⟨hlast, hstepping, hpasses, hfilling⟩
    obtain ⟨e, he, heplan⟩ := SourceFile.plan_of_cleared_eq (hlast.file_of_untouched hdecl hmark).cleared hdecl hplan
    obtain ⟨targets, hlinks, hfit⟩ := hfilling.finish he (Declaration.length_linkSites env heplan)
    rw [Declaration.linkSites_plan env heplan] at hfit
    refine ⟨(SourceFile.cleared_setMark _ _ _).trans hstepping.linked.cleared, fun t f hf hfmark => ?_,
      fun t f hf hfmark => ?_⟩
    · rcases SourceFile.decl?_of_setMark he .closed hf with ⟨rfl, rfl⟩ | hf
      · refine ⟨env, hreached, fun inner name reach link hnode => ?_⟩
        exact of_mem_nodes hfit ((DeclKind.nodeLinks_nodes env e.kind).trans hlinks) hnode
      · exact hstepping.linked.fits t f hf hfmark
    · rcases SourceFile.decl?_of_setMark he .closed hf with ⟨rfl, rfl⟩ | hf
      · exact ⟨env, plan, hreached, heplan, hpasses⟩
      · exact hstepping.linked.passed t f hf hfmark

/-- A visit links what it closes as lexical scoping says, or its error is a defect. -/
theorem visit_links (hunique : file.ids.Nodup) (hrange : ∀ id ∈ file.ids, id < file.declarations.length) :
    VisitStep (fun (scopes : Scopes hash) id p => ∃ env, Visiting file scopes env id p.file)
      (fun _ _ _ p' => Linked file p'.file) fun _ _ _ _ error => Defect file error := by
  rintro visit scopes id p outcome hvisit ⟨env, hstate⟩ hinner hends
  have hrun (d : Declaration) (plan : List Step) (hdecl : p.file.decl? id = some d) (hmark : d.mark = .untouched)
      (hplan : d.plan? = some plan) := runSteps_links hvisit hrange hdecl hmark hplan hstate
    fun scopes' inner id' p' hfresh hstate' => hinner scopes' id' p' hfresh ⟨inner, hstate'⟩
  obtain ⟨d₀, hd₀⟩ := SourceFile.exists_decl? hstate.known
  have hsame {d : Declaration} (hdecl : p.file.decl? id = some d) : d.cleared = d₀.cleared :=
    SourceFile.cleared_eq_of_decl? hstate.linked.cleared hd₀ hdecl
  have hhome {d : Declaration} (hdecl : p.file.decl? id = some d) (hmark : d.mark = .untouched) : Reached file env id :=
    hstate.home (.inr (SourceFile.mark?_eq_some.mpr ⟨d, hdecl, hmark⟩))
  cases hends with
  | absent hdecl =>
    obtain ⟨d, hd, -⟩ := SourceFile.decl?_of_cleared_eq hstate.linked.cleared hd₀
    simp [hdecl] at hd
  | closed hdecl hmark => exact hstate.linked
  | @opened d hdecl hmark =>
    have hcycle := hstate.stack id (SourceFile.mark?_eq_some.mpr ⟨d, hdecl, hmark⟩)
    rw [Declaration.name_of_cleared_eq (hsame hdecl), Declaration.span_of_cleared_eq (hsame hdecl)]
    cases hvariable : d₀.isVariable with
    | true =>
      have hvalue : file.IsValue id := ⟨d₀, hd₀, hvariable⟩
      have hdeclares := SourceFile.declares_of_enters hcycle hvalue
      exact absurd hdeclares ((hstate.home (.inl hvalue)).not_declares_itself hunique)
    | false =>
      obtain ⟨hcontains, -⟩ := SourceFile.contains_of_enters hcycle ⟨d₀, hd₀, hvariable⟩
      obtain ⟨_, ⟨home, hreached, -⟩, -⟩ := TransGen.head'_iff.mp hcontains
      exact .cycle hreached hd₀ hcontains
  | nameless hdecl hmark hname =>
    rw [Declaration.span_of_cleared_eq (hsame hdecl)]
    exact .nameless (hhome hdecl hmark) hd₀ (Declaration.name_of_cleared_eq (hsame hdecl) ▸ hname)
  | planless hdecl hmark hname hplan =>
    rw [Declaration.keyword_of_cleared_eq (hsame hdecl), Declaration.name_of_cleared_eq (hsame hdecl),
      Declaration.span_of_cleared_eq (hsame hdecl)]
    refine .unsupportedKind (hhome hdecl hmark) hd₀ (Declaration.plan?_eq_none_iff.mp ?_)
    rwa [← Declaration.plan?_of_cleared_eq (hsame hdecl)]
  | @finished d plan _ last hdecl hmark hname hplan hdeeper hsteps =>
    obtain rfl := Option.some_inj.mp hdeeper
    have hlast := hrun d plan hdecl hmark hplan
    rw [hsteps] at hlast
    exact hlast
  | @stopped d plan _ last error hdecl hmark hname hplan hdeeper hsteps =>
    obtain rfl := Option.some_inj.mp hdeeper
    have hlast := hrun d plan hdecl hmark hplan
    rw [hsteps] at hlast
    exact hlast
  | exhausted hdecl hmark hname hplan hdeeper => simp at hdeeper

end Step

end DeclTree

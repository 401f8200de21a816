import DeclTree.Proofs.Completeness
import DeclTree.Proofs.Positions
import DeclTree.Proofs.TagScopes

/-!
# No scope declares a name twice

A file that has been resolved declares no name twice in one scope, also where one declaration of the arena is declared
at several places. Each closed declaration has had its plan carried out once, with tables for some environment in which
every scope has names for its declarations, all of them different (`Settles`). The steps of a node stand together in the
plan, so what the plan has found out about names holds at every node, and the scopes that the node opens inherit it.
-/

namespace DeclTree

open Relation (ReflTransGen)

variable {hash : String → Nat}

/-- The declarations have names, all of them different. -/
structure SourceFile.NamesOnce (file : SourceFile) (ids : List DeclId) : Prop where
  named : ∀ id ∈ ids, file.nameAt id ≠ ""
  distinct : (ids.map file.nameAt).Nodup

/-- A node declares no name twice in a scope that it opens. The parameters of a function have different names, and
nothing that stands directly in its body has the name of one. Nothing that is refused as a whole occurs. -/
def Subtree.DeclaresOnce (file : SourceFile) : Subtree → Prop
  | expr (.function signature body _) =>
    (signature.params.map (·.name.name)).Nodup ∧
      (∀ id span, .statement (.declaration id span) ∈ body.outermost →
        file.nameAt id ∉ signature.params.map (·.name.name)) ∧
      file.NamesOnce body.declares
  | scope (.block scopes _) => file.NamesOnce (scopes.flatMap Scope.declares)
  | scope (.forLoop init _ step body _) => file.NamesOnce (init.declares ++ step.declares ++ body.declares)
  | scope (.forEach ..) => False
  | scope (.matching ..) => False
  | _ => True

section Names

variable {file : SourceFile} {id : DeclId}

/-- A name that is not empty is that of a declaration. -/
theorem SourceFile.isNamed_of_nameAt {name : String} (h : file.nameAt id = name) (hne : name ≠ "") :
    file.isNamed name id = true := by
  cases hdecl : file.decl? id with
  | none => simp [nameAt, hdecl, hne.symm] at h
  | some d => exact isNamed_iff.mpr ⟨d, hdecl, (nameAt_of_decl? hdecl).symm.trans h⟩

/-- No declarations have no names in common. -/
theorem SourceFile.NamesOnce.nil (file : SourceFile) : file.NamesOnce [] := ⟨List.forall_mem_nil _, List.nodup_nil⟩

/-- One more declaration. -/
theorem SourceFile.NamesOnce.concat {ids : List DeclId} (h : file.NamesOnce ids) (hname : file.nameAt id ≠ "")
    (hnew : ∀ other ∈ ids, file.nameAt other ≠ file.nameAt id) : file.NamesOnce (ids ++ [id]) where
  named := List.forall_mem_append.mpr ⟨h.named, List.forall_mem_singleton.mpr hname⟩
  distinct := by
    rw [List.map_append, List.map_singleton]
    refine List.nodup_append.mpr ⟨h.distinct, List.nodup_singleton _, ?_⟩
    intro a ha b hb heq
    obtain ⟨other, hother, rfl⟩ := List.mem_map.mp ha
    exact hnew other hother (heq.trans (List.mem_singleton.mp hb))

/-- The items of a file that can be bound in one scope. -/
theorem SourceFile.Bindable.namesOnce (h : file.Bindable) (hrange : ∀ id ∈ file.items, id < file.declarations.length) :
    file.NamesOnce file.items where
  named id hid := by
    obtain ⟨d, hd⟩ := exists_decl? (hrange id hid)
    rw [nameAt_of_decl? hd]
    exact h.named id hid d hd
  distinct := by
    refine List.pairwise_map.mpr (h.distinct.imp_of_mem fun ha hb hdiffer heq => hdiffer ?_)
    obtain ⟨d, hd⟩ := exists_decl? (hrange _ ha)
    obtain ⟨e, he⟩ := exists_decl? (hrange _ hb)
    rw [nameAt_of_decl? hd, nameAt_of_decl? he] at heq
    exact ⟨e, d, he, hd, heq⟩

end Names

/-- What a step has found out about names when it does not fail. -/
def Step.Admits (file : SourceFile) (env : Env) : Step → Prop
  | .declare id => file.nameAt id ≠ "" ∧ ∀ scope ∈ env.head?, ∀ other ∈ scope, file.nameAt other ≠ file.nameAt id
  | .avoid names id _ => file.nameAt id ∉ names
  | .reject _ => False
  | .link .. | .enter | .leave => True

/-- What steps have found out about names, each in its environment. -/
def Admitted (file : SourceFile) : Env → List Step → Prop
  | _, [] => True
  | env, step :: rest => step.Admits file env ∧ Admitted file (env.after step) rest

/-- Every scope has names for its declarations, all of them different. -/
def Env.Distinct (file : SourceFile) (env : Env) : Prop := ∀ scope ∈ env, file.NamesOnce scope

section Steps

variable {file : SourceFile} {env : Env} {steps more : List Step}

/-- Steps in two rows are admitted if each row is, the second in the environment behind the first. -/
theorem admitted_append : Admitted file env (steps ++ more) ↔
    Admitted file env steps ∧ Admitted file (steps.foldl Env.after env) more := by
  induction steps generalizing env with
  | nil => exact ⟨fun h => ⟨trivial, h⟩, fun h => h.2⟩
  | cons step rest ih => rw [List.cons_append, Admitted, Admitted, ih, List.foldl_cons, and_assoc]

/-- Every step of a row that is admitted is admitted in some environment. -/
theorem Admitted.of_mem (h : Admitted file env steps) {step : Step} (hstep : step ∈ steps) :
    ∃ inner, step.Admits file inner := by
  obtain ⟨done, rest, rfl⟩ := List.append_of_mem hstep
  exact ⟨_, (admitted_append.mp h).2.1⟩

/-- Nothing is refused in a row that is admitted. -/
theorem Admitted.not_reject (h : Admitted file env steps) (error : Error) : Step.reject error ∉ steps :=
  fun hreject => (h.of_mem hreject).elim fun _ hfalse => hfalse

/-- A step that does not fail keeps the names of every scope different. -/
theorem Env.Distinct.after (h : env.Distinct file) {step : Step} (hstep : step.Admits file env) :
    (env.after step).Distinct file := by
  cases step with
  | enter => exact List.forall_mem_cons.mpr ⟨.nil file, h⟩
  | leave => exact fun scope hscope => h scope (List.mem_of_mem_tail hscope)
  | declare id =>
    cases env with
    | nil => exact List.forall_mem_nil _
    | cons scope outer =>
      obtain ⟨hscope, houter⟩ := List.forall_mem_cons.mp h
      exact List.forall_mem_cons.mpr ⟨hscope.concat hstep.1 (hstep.2 scope rfl), houter⟩
  | link name reach => exact h
  | avoid names id span => exact h
  | reject error => exact h

/-- Steps that are admitted keep the names of every scope different. -/
theorem Env.Distinct.afterAll (h : env.Distinct file) (hsteps : Admitted file env steps) :
    (steps.foldl Env.after env).Distinct file := by
  induction steps generalizing env with
  | nil => exact h
  | cons step rest ih => exact ih (h.after hsteps.1) hsteps.2

/-- What steps declare in a scope that they enter and leave has names, all of them different. -/
theorem Env.Distinct.enclosed (h : env.Distinct file) (hsteps : Admitted file env (.enter :: (steps ++ [.leave])))
    {made : List DeclId} (hafter : steps.foldl Env.after ([] :: env) = made :: env) : file.NamesOnce made := by
  have hinner := (h.after hsteps.1).afterAll (admitted_append.mp hsteps.2).1
  exact hinner made (hafter ▸ List.mem_cons_self)

end Steps

/-- A plan of the declaration has been carried out, in some environment. -/
def SourceFile.Settles (file : SourceFile) (id : DeclId) : Prop :=
  ∃ d env plan, file.decl? id = some d ∧ d.plan? = some plan ∧ env.Distinct file ∧ Admitted file env plan

/-- Everything that is closed has had its plan carried out. -/
def SourceFile.AllSettle (file now : SourceFile) : Prop := ∀ id, now.mark? id = some .closed → file.Settles id

/-- The tables of a chain answer for scopes without repeated names. -/
def SourceFile.Serves (file : SourceFile) (scopes : Scopes hash) : Prop :=
  ∃ env, Represents file scopes env ∧ env.Distinct file

section Carrying

variable {file : SourceFile}

/-- A step that succeeds has found out about names what it says, and its tables go on to answer for the environment. -/
theorem runStep_admits {visit : Visit hash} (owner : DeclId) {frame : Frame hash} {env : Env} (step : Step)
    (hcleared : frame.progress.file.cleared = file.cleared) (htables : Represents file frame.scopes env)
    (hdistinct : env.Distinct file) (hleave : step = .leave → env.tail ≠ [])
    (hsettle : file.AllSettle frame.progress.file)
    (hinner : ∀ scopes id event, file.Serves scopes →
      (visit scopes id (frame.progress.note event)).Meets (fun p => file.AllSettle p.file) fun _ _ => True) :
    (runStep visit owner step frame).Meets (fun next => step.Admits file env ∧
      Represents file next.scopes (env.after step) ∧ file.AllSettle next.progress.file) fun _ _ => True := by
  have horiginal {id : DeclId} {d : Declaration} (hdecl : frame.progress.file.decl? id = some d) :
      ∃ d₀, file.decl? id = some d₀ ∧ d₀.name = d.name := by
    obtain ⟨d₀, hd₀, hsame⟩ := SourceFile.decl?_of_cleared_eq hcleared.symm hdecl
    exact ⟨d₀, hd₀, Declaration.name_of_cleared_eq hsame⟩
  have hends := runStep_ends visit owner step frame
  generalize runStep visit owner step frame = outcome at hends ⊢
  cases hends with
  | @stored name target d p hfind hdecl hvariable hrun =>
    have hvisited := hinner frame.scopes target (.linked name.name target .byValue) ⟨env, htables, hdistinct⟩
    rw [hrun] at hvisited
    exact ⟨trivial, htables, fun t ht => hvisited t ((SourceFile.mark?_setLink _ _ _ _ t).symm.trans ht)⟩
  | referred hfind hdecl hvariable =>
    exact ⟨trivial, htables, fun t ht => hsettle t ((SourceFile.mark?_setLink _ _ _ _ t).symm.trans ht)⟩
  | entered => exact ⟨trivial, htables.push, hsettle⟩
  | left =>
    refine ⟨trivial, ?_, hsettle⟩
    cases env with
    | nil => exact absurd rfl htables.ne_nil
    | cons scope outer => exact htables.pop (hleave rfl)
  | @declared id d scopes p result hdecl hname hinsert hrun =>
    obtain ⟨d₀, hd₀, hsame⟩ := horiginal hdecl
    rw [← hsame] at hname hinsert
    have hnameAt := SourceFile.nameAt_of_decl? hd₀
    have hadmits : (Step.declare id).Admits file env := by
      refine ⟨hnameAt ▸ hname, fun scope hscope other hother heq => ?_⟩
      cases env with
      | nil => cases hscope
      | cons first outer =>
        obtain rfl := Option.some_inj.mp hscope
        exact htables.not_named hinsert hother (SourceFile.isNamed_of_nameAt (heq.trans hnameAt) hname)
    -- The declaration is visited with its own name already bound.
    have hdeclared := htables.insert hd₀ hinsert
    have hvisited := hinner scopes id (.declared d.name.name) ⟨_, hdeclared, hdistinct.after hadmits⟩
    rw [hrun] at hvisited
    cases result with
    | some error => trivial
    | none => exact ⟨hadmits, hdeclared, hvisited⟩
  | @avoided names id span d hdecl hname =>
    obtain ⟨d₀, hd₀, hsame⟩ := horiginal hdecl
    refine ⟨?_, htables, hsettle⟩
    rw [Step.Admits, SourceFile.nameAt_of_decl? hd₀, hsame]
    exact hname
  | _ => trivial

/-- Carrying out the plan of an untouched declaration settles it. -/
theorem runSteps_admits {visit : Visit hash} (hvisit : visit.Lawful) {scopes : Scopes hash} {id : DeclId} {p : Progress}
    {d : Declaration} {plan : List Step} (hdecl : p.file.decl? id = some d) (hmark : d.mark = .untouched)
    (hplan : d.plan? = some plan) (hcleared : p.file.cleared = file.cleared) (hserves : file.Serves scopes)
    (hsettle : file.AllSettle p.file)
    (hinner : ∀ scopes' id' p', p'.file.fresh ⊂ p.file.fresh → p'.file.cleared = file.cleared →
      file.Serves scopes' → file.AllSettle p'.file →
      (visit scopes' id' p').Meets (fun p'' => file.AllSettle p''.file) fun _ _ => True) :
    (runSteps visit id plan ⟨scopes, 0, p.start id d⟩).Meets
      (fun last => file.AllSettle (last.progress.file.setMark id .closed)) fun _ _ => True := by
  obtain ⟨env, htables, hdistinct⟩ := hserves
  obtain ⟨d₀, hd₀, hplan₀⟩ := SourceFile.plan_of_cleared_eq hcleared.symm hdecl hplan
  have hstart : file.AllSettle (p.start id d).file := by
    intro t ht
    by_cases heq : id = t
    · subst heq
      exact absurd ((Progress.mark?_start scopes hdecl).symm.trans ht) (by decide)
    · exact hsettle t ((SourceFile.mark?_setMark_of_ne _ heq _).symm.trans ht)
  refine (runPlan_meets hvisit (Progress.mark?_start scopes hdecl) (fun done frame => Admitted file env done ∧
      Represents file frame.scopes (done.foldl Env.after env) ∧ file.AllSettle frame.progress.file)
    ⟨trivial, htables, hstart⟩ ?_).imp ?_ fun _ _ h => h
  · rintro done step rest frame rfl hframe - ⟨hdone, hscopes, hall⟩
    have hnow := (hframe.file_of_untouched hdecl hmark).cleared.trans hcleared
    have hleave (hstep : step = .leave) : (done.foldl Env.after env).tail ≠ [] :=
      Declaration.tail_ne_nil_of_leave htables.ne_nil (hstep ▸ hplan)
    have hstep := runStep_admits id step hnow hscopes (hdistinct.afterAll hdone) hleave hall
      fun scopes' id' event hserves => hinner scopes' id' (frame.progress.note event)
        (hframe.fresh_ssubset hdecl hmark) hnow hserves hall
    refine hstep.imp (fun next h => ?_) fun _ _ h => h
    rw [admitted_append, List.foldl_append]
    exact ⟨⟨hdone, h.1, trivial⟩, h.2⟩
  · rintro last ⟨-, hadmitted, -, hall⟩ t ht
    by_cases heq : id = t
    · exact heq ▸ ⟨d₀, env, plan, hd₀, hplan₀, hdistinct, hadmitted⟩
    · exact hall t ((SourceFile.mark?_setMark_of_ne _ heq _).symm.trans ht)

/-- A visit settles what it closes. -/
theorem visit_admits (file : SourceFile) :
    VisitStep
      (fun (scopes : Scopes hash) _ p => p.file.cleared = file.cleared ∧ file.Serves scopes ∧ file.AllSettle p.file)
      (fun _ _ _ p' => file.AllSettle p'.file) fun _ _ _ _ _ => True := by
  rintro visit scopes id p outcome hvisit ⟨hcleared, hserves, hsettle⟩ hinner hends
  cases hends with
  | closed hdecl hmark => exact hsettle
  | finished hdecl hmark hname hplan hdeeper hrun =>
    obtain rfl := Option.some_inj.mp hdeeper
    have hsteps := runSteps_admits hvisit hdecl hmark hplan hcleared hserves hsettle
      fun scopes' id' p' hfresh hcleared' hserves' hsettle' =>
        hinner scopes' id' p' hfresh ⟨hcleared', hserves', hsettle'⟩
    rw [hrun] at hsteps
    exact hsteps
  | _ => trivial

/-- Resolving an untouched file whose items have names, all of them different, settles what it closes. -/
theorem resolveFile_admits (hash : String → Nat) {p : Progress}
    (hrange : ∀ id ∈ p.file.items, id < p.file.declarations.length)
    (huntouched : ∀ d ∈ p.file.declarations, d.mark = .untouched) (hitems : p.file.NamesOnce p.file.items) :
    (resolveFile hash p).Meets (fun p' => p.file.AllSettle p'.file) fun _ _ => True := by
  refine (resolveFile_meets (fun done scopes => Represents p.file scopes [done])
    (fun scopes now => p.file.Serves scopes ∧ p.file.AllSettle now) hrange huntouched (.root p.file) ?_ ?_ ?_).imp ?_
    fun _ _ h => h
  · intro done id rest scopes d _ hdecl hbound
    exact ⟨fun _ => trivial, fun _ => trivial, fun changed hinsert => hbound.insert hdecl hinsert⟩
  · intro scopes hbound
    refine ⟨⟨_, hbound, List.forall_mem_singleton.mpr hitems⟩, fun id hclosed => ?_⟩
    obtain ⟨d, hd, hmark⟩ := SourceFile.mark?_eq_some.mp hclosed
    simp [huntouched d (List.mem_of_getElem? hd)] at hmark
  · rintro scopes done id rest q - hbetween ⟨hserves, hsettle⟩
    have hvisit := resolve_meets (visit_admits p.file) scopes id q ⟨hbetween.cleared, hserves, hsettle⟩
    exact hvisit.imp (fun _ h => ⟨hserves, h⟩) fun _ _ h => h
  · rintro p' ⟨-, scopes, -, hsettle⟩
    exact hsettle

end Carrying

/-- The steps of a node. -/
def Subtree.steps : Subtree → List Step
  | expr e => e.steps
  | stmt s => s.steps
  | scope s => s.steps

namespace Subtree

variable {file : SourceFile} {t child node : Subtree}

/-- The steps of one of several expressions stand together in those of all of them. -/
theorem steps_of_exprs {es : List Expr} (h : child ∈ es.map expr) : child.steps <:+: Expr.listSteps es := by
  induction es with
  | nil => cases h
  | cons e rest ih =>
    rcases List.mem_cons.mp h with rfl | h
    · exact List.infix_append_left
    · exact (ih h).trans List.infix_append_right

/-- The steps of one of several scopes stand together in those of all of them. -/
theorem steps_of_scopes {ss : List Scope} (h : child ∈ ss.map scope) : child.steps <:+: Scope.listSteps ss := by
  induction ss with
  | nil => cases h
  | cons s rest ih =>
    rcases List.mem_cons.mp h with rfl | h
    · exact List.infix_append_left
    · exact (ih h).trans List.infix_append_right

/-- The steps of what is directly below an expression stand together in those of the expression. -/
theorem steps_of_expr_child {e : Expr} (h : child ∈ (expr e).children) : child.steps <:+: e.steps := by
  cases e with
  | paren inner _ | unary _ inner _ | field inner _ _ =>
    obtain rfl := List.mem_singleton.mp h
    exact List.infix_rfl
  | binary first _ second _ | index first second _ =>
    rcases List.mem_pair.mp h with rfl | rfl
    · exact List.infix_append_left
    · exact List.infix_append_right
  | cast operand type _ =>
    obtain rfl := List.mem_singleton.mp h
    exact List.infix_append_right
  | function signature body _ =>
    obtain rfl := List.mem_singleton.mp h
    exact List.infix_append ..
  | call callee arguments _ =>
    rcases List.mem_cons.mp h with rfl | h
    · exact List.infix_append_left
    · exact (steps_of_exprs h).trans List.infix_append_right
  | array count element elements _ =>
    cases count with
    | none => exact (steps_of_exprs h).trans List.infix_append_right
    | some count =>
      rcases List.mem_cons.mp h with rfl | h
      · exact List.infix_append ..
      · exact (steps_of_exprs h).trans List.infix_append_right
  | ident | literal | bool => cases h

/-- The steps of what is directly below a statement stand together in those of the statement. -/
theorem steps_of_stmt_child {s : Stmt} (h : child ∈ (stmt s).children) : child.steps <:+: s.steps := by
  cases s with
  | increment target _ | decrement target _ | expr target =>
    obtain rfl := List.mem_singleton.mp h
    exact List.infix_rfl
  | assign _ target value _ =>
    rcases List.mem_pair.mp h with rfl | rfl
    · exact List.infix_append_left
    · exact List.infix_append_right
  | returning value _ =>
    cases value with
    | none => cases h
    | some value =>
      obtain rfl := List.mem_singleton.mp h
      exact List.infix_rfl
  | declaration | label | goto => cases h

/-- The steps of what is directly below a scope stand together, unless the scope is refused as a whole. -/
theorem steps_of_scope_child {s : Scope} (h : child ∈ (scope s).children) :
    child.steps <:+: s.steps ∨ ∃ error, .reject error ∈ s.steps := by
  cases s with
  | statement s =>
    obtain rfl := List.mem_singleton.mp h
    exact .inl List.infix_rfl
  | block scopes _ => exact .inl ((steps_of_scopes h).trans (List.infix_append ..))
  | conditional condition consequent alternative _ =>
    cases alternative with
    | none =>
      rcases List.mem_pair.mp h with rfl | rfl
      · exact .inl List.infix_append_left
      · exact .inl List.infix_append_right
    | some alternative =>
      rcases List.mem_cons.mp h with rfl | h
      · exact .inl (List.infix_append_left.trans List.infix_append_left)
      · rcases List.mem_pair.mp h with rfl | rfl
        · exact .inl (List.infix_append ..)
        · exact .inl List.infix_append_right
  | forLoop init condition step body _ =>
    refine .inl ?_
    rw [Scope.steps]
    rcases List.mem_cons.mp h with rfl | h
    · exact ⟨[.enter], condition.steps ++ step.steps ++ body.steps ++ [.leave], by simp [steps]⟩
    rcases List.mem_cons.mp h with rfl | h
    · exact ⟨[.enter] ++ init.steps, step.steps ++ body.steps ++ [.leave], by simp [steps]⟩
    rcases List.mem_pair.mp h with rfl | rfl
    · exact ⟨[.enter] ++ init.steps ++ condition.steps, body.steps ++ [.leave], by simp [steps]⟩
    · exact List.infix_append ..
  | whileLoop condition body _ =>
    rcases List.mem_pair.mp h with rfl | rfl
    · exact .inl List.infix_append_left
    · exact .inl List.infix_append_right
  | forEach | matching => exact .inr ⟨_, List.mem_singleton.mpr rfl⟩

/-- The steps of a child stand together in those of the node, unless something in the node is refused as a whole. -/
theorem steps_of_child (h : child ∈ t.children) : child.steps <:+: t.steps ∨ ∃ error, .reject error ∈ t.steps := by
  cases t with
  | expr e => exact .inl (steps_of_expr_child h)
  | stmt s => exact .inl (steps_of_stmt_child h)
  | scope s => exact steps_of_scope_child h

/-- The steps of what is anywhere below a node stand together, unless something in the node is refused as a whole. -/
theorem steps_of_at? {path : List Nat} (h : t.at? path = some node) :
    node.steps <:+: t.steps ∨ ∃ error, .reject error ∈ t.steps := by
  induction path generalizing t with
  | nil =>
    obtain rfl := Option.some_inj.mp h
    exact .inl List.infix_rfl
  | cons i path ih =>
    obtain ⟨child, hi, h⟩ := Option.bind_eq_some_iff.mp h
    rcases steps_of_child (List.mem_of_getElem? hi) with hchild | hreject
    · exact (ih h).imp (fun hnode => hnode.trans hchild) fun hreject =>
        hreject.imp fun error herror => hchild.subset herror
    · exact .inr hreject

/-- The steps of the node have been carried out, in some environment. -/
def Sound (file : SourceFile) (t : Subtree) : Prop := ∃ env : Env, env.Distinct file ∧ Admitted file env t.steps

/-- Below a node that is sound nothing is refused, so the steps of every node below it stand together in its own. -/
theorem Sound.steps_within (h : t.Sound file) {path : List Nat} (hnode : t.at? path = some node) :
    node.steps <:+: t.steps := by
  obtain ⟨env, -, hsteps⟩ := h
  refine (steps_of_at? hnode).elim (fun h => h) ?_
  rintro ⟨error, hreject⟩
  exact absurd hreject (hsteps.not_reject error)

/-- What has been found out about names holds at every node. -/
theorem Sound.at (h : t.Sound file) {path : List Nat} (hnode : t.at? path = some node) : node.Sound file := by
  obtain ⟨before, after, heq⟩ := h.steps_within hnode
  obtain ⟨env, hdistinct, hsteps⟩ := h
  rw [← heq, admitted_append, admitted_append] at hsteps
  exact ⟨before.foldl Env.after env, hdistinct.afterAll hsteps.1.1, hsteps.1.2⟩

/-- A function whose steps are carried out has parameters with different names, and its body declares none of them. -/
theorem Sound.function {signature : Signature TypeExpr} {body : Scope} {span : Span}
    (h : (expr (.function signature body span)).Sound file) :
    (expr (.function signature body span)).DeclaresOnce file := by
  obtain ⟨env, hdistinct, hsteps⟩ := h
  rw [steps, Expr.steps, List.append_assoc, List.append_assoc, admitted_append] at hsteps
  obtain ⟨hhead, hbody⟩ := hsteps
  have hchecks {step : Step} (hstep : step ∈ signature.checks body) : ∃ inner, step.Admits file inner :=
    hhead.of_mem (List.mem_append_right _ hstep)
  refine ⟨((Slot.firstRepeat?_eq_none_iff [] _).mp ?_).1, fun id other hlocal => ?_, ?_⟩
  · cases hrepeat : Slot.firstRepeat? [] signature.params with
    | none => rfl
    | some slot =>
      have hreject : .reject (.duplicateDeclaration slot.name.name slot.span) ∈ signature.checks body := by
        simp [Signature.checks, hrepeat]
      exact (hchecks hreject).elim fun _ hfalse => hfalse.elim
  · have havoid : .avoid (signature.params.map (·.name.name)) id other ∈ signature.checks body :=
      List.mem_append_right _ (List.mem_map.mpr ⟨(id, other), List.mem_filterMap.mpr ⟨_, hlocal, rfl⟩, rfl⟩)
    exact (hchecks havoid).elim fun _ hname => hname
  · exact (hdistinct.afterAll hhead).enclosed hbody (body.traces _).after

/-- A node whose steps are carried out declares no name twice in a scope that it opens. -/
theorem Sound.declaresOnce (h : t.Sound file) : t.DeclaresOnce file := by
  cases t with
  | expr e =>
    cases e with
    | function signature body span => exact h.function
    | _ => trivial
  | stmt s => trivial
  | scope s =>
    obtain ⟨env, hdistinct, hsteps⟩ := h
    cases s with
    | block scopes _ => exact hdistinct.enclosed hsteps (Scope.listTraces _ scopes).after
    | forLoop init condition step body _ =>
      exact hdistinct.enclosed hsteps
        ((((init.traces _).append (condition.traces _)).append (step.traces _)).append (body.traces _)).after
    | forEach element iterable body span => exact absurd (List.mem_singleton.mpr rfl) (hsteps.not_reject _)
    | matching subject arms span => exact absurd (List.mem_singleton.mpr rfl) (hsteps.not_reject _)
    | _ => trivial

end Subtree

/-- The steps of the initial value end the plan of a declaration. -/
theorem Declaration.plan?_of_value {d : Declaration} {value : Expr} (h : d.kind.value? = some value) :
    ∃ before, d.plan? = some (before ++ value.steps) := by
  rw [plan?]
  cases hkind : d.kind with
  | constant type other =>
    rw [hkind] at h
    obtain rfl := Option.some_inj.mp h
    cases type with
    | none => exact ⟨[], rfl⟩
    | some type => exact ⟨_, rfl⟩
  | mutable type other =>
    rw [hkind] at h
    obtain rfl : other = some value := h
    exact ⟨_, rfl⟩
  | enumeration members | record kind members | sum members =>
    rw [hkind] at h
    cases h

section Resolved

variable {file now : SourceFile} {id : DeclId} {d : Declaration} {value : Expr}

/-- The initial value of a declaration that has had its plan carried out. -/
theorem SourceFile.Settles.sound (h : file.Settles id) (hdecl : file.decl? id = some d)
    (hvalue : d.kind.value? = some value) : (Subtree.expr value).Sound file := by
  obtain ⟨e, env, plan, he, hplan, hdistinct, hadmitted⟩ := h
  obtain rfl := Option.some_inj.mp (he.symm.trans hdecl)
  obtain ⟨before, hbefore⟩ := Declaration.plan?_of_value hvalue
  obtain rfl := Option.some_inj.mp (hplan.symm.trans hbefore)
  obtain ⟨hfirst, hsteps⟩ := admitted_append.mp hadmitted
  exact ⟨_, hdistinct.afterAll hfirst, hsteps⟩

/-- What declaration statements lead to from the items of a resolved file is closed. -/
theorem Resolved.closed_of_declares (h : Resolved file now) (hsettle : file.AllSettle now) {item : DeclId}
    (hitem : item ∈ file.items) (hreach : ReflTransGen file.Declares item id) : now.mark? id = some .closed := by
  induction hreach with
  | refl => exact h.closed item hitem
  | @tail owner u _ hdeclares ih =>
    obtain ⟨d, hd, hu⟩ := hdeclares
    rw [DeclKind.ids_eq, List.mem_flatMap] at hu
    obtain ⟨value, hvalue, hu⟩ := hu
    have hvalue := Option.mem_toList.mp hvalue
    obtain ⟨path, hpath⟩ := (Subtree.mem_ids_iff (.expr value) u).mp hu
    obtain ⟨node, hnode, hdeclared⟩ := Option.bind_eq_some_iff.mp hpath
    have hsteps := ((hsettle owner ih).sound hd hvalue).steps_within hnode
    obtain ⟨before, hplan⟩ := Declaration.plan?_of_value hvalue
    -- The plan that has been carried out declares what the statement names.
    have hmem : .declare u ∈ before ++ value.steps := by
      unfold Subtree.declared? at hdeclared
      split at hdeclared
      · obtain rfl := Option.some_inj.mp hdeclared
        exact List.mem_append_right _ (hsteps.subset (List.mem_singleton.mpr rfl))
      · cases hdeclared
    obtain ⟨e, he, hmark⟩ := SourceFile.mark?_eq_some.mp ih
    obtain ⟨⟨plan, heplan, hcarried⟩, -⟩ := h.settled owner e he hmark
    have hsame := Declaration.plan?_of_cleared_eq (SourceFile.cleared_eq_of_decl? h.cleared hd he)
    obtain rfl := Option.some_inj.mp (heplan.symm.trans (hsame.trans hplan))
    exact (hcarried _ hmem).2 u rfl

end Resolved

/-- No scope of a resolved file declares a name twice. If an untouched file whose items are in range is resolved, then
its items have names, all of them different, and so have the declarations of each scope that is opened anywhere in the
initial value of an item or of a declaration that declaration statements lead to. -/
theorem no_scope_declares_twice {p p' : Progress} (hrange : ∀ id ∈ p.file.items, id < p.file.declarations.length)
    (huntouched : ∀ d ∈ p.file.declarations, d.mark = .untouched) (hresolve : resolveFile hash p = (p', none)) :
    p.file.NamesOnce p.file.items ∧
      ∀ item ∈ p.file.items, ∀ id, ReflTransGen p.file.Declares item id →
        ∀ d value, p.file.decl? id = some d → d.kind.value? = some value →
          ∀ path node, (Subtree.expr value).at? path = some node → node.DeclaresOnce p.file := by
  have hitems : p.file.NamesOnce p.file.items := by
    rcases resolveFile_cases hash hrange with ⟨hbindable, -⟩ | ⟨-, error, -, -, herror⟩
    · exact hbindable.namesOnce hrange
    · simp [hresolve] at herror
  have hsettles := resolveFile_settles hash hrange huntouched
  have hadmits := resolveFile_admits hash hrange huntouched hitems
  rw [hresolve] at hsettles hadmits
  refine ⟨hitems, fun item hitem id hreach d value hdecl hvalue path node hnode => ?_⟩
  have hclosed := Resolved.closed_of_declares hsettles hadmits hitem hreach
  exact (((hadmits id hclosed).sound hdecl hvalue).at hnode).declaresOnce

/-- A function with two blocks that declare the same declaration of the arena. -/
def redeclaring : SourceFile :=
  let here := Span.nowhere
  let counter (name : String) : Declaration := ⟨⟨name, here⟩, .mutable (.primitive .i32 here) none, here, .untouched⟩
  let body : Scope := .block [.block [.statement (.declaration 1 here)] here,
    .block [.statement (.declaration 1 here), .statement (.declaration 2 here)] here] here
  ⟨[⟨⟨"f", here⟩, .constant none (.function ⟨[⟨⟨"a", here⟩, .primitive .i32 here, here⟩], .primitive .void here, here⟩
      body here), here, .untouched⟩,
    counter "x", counter "y"], [0]⟩

/-- The file is resolved, and each of the two blocks has its own names. -/
theorem redeclaring_names : ∃ p', resolveFile nameHash ⟨redeclaring, []⟩ = (p', none) ∧ redeclaring.NamesOnce [1] ∧
    redeclaring.NamesOnce [1, 2] := by
  obtain ⟨p', hresolve⟩ := Outcome.exists_eq (show (resolveFile nameHash ⟨redeclaring, []⟩).2 = none by decide +kernel)
  have hnodes := (no_scope_declares_twice (p := ⟨redeclaring, []⟩) (by decide) (by simp [redeclaring]) hresolve).2 0
    (by decide) 0 .refl _ _ rfl rfl
  exact ⟨p', hresolve, hnodes [0, 0] _ rfl, hnodes [0, 1] _ rfl⟩

end DeclTree

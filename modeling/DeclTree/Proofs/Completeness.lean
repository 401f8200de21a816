import DeclTree.Proofs.Integrity
import DeclTree.Proofs.Lexical
import DeclTree.Proofs.Verdict

/-!
# A file without defects is resolved

An error of resolution is a defect of the file. Conversely a file that is resolved has no defect at all: whatever is
reached has been closed, so its plan has been carried out to the end, and a defect would have stopped it. Hence a file
is resolved exactly if it has no defect, and this does not depend on the order in which the resolver looks at it.
-/

namespace DeclTree

open Relation (TransGen)

variable {hash : String → Nat}

namespace SourceFile

/-- Having the same name goes both ways. -/
theorem SameName.symm {file : SourceFile} {id other : DeclId} (h : file.SameName id other) :
    file.SameName other id := by
  obtain ⟨d, e, hd, he, hname⟩ := h
  exact ⟨e, d, he, hd, hname.symm⟩

/-- The items can be bound in one scope: they have names, and no two of them have the same. -/
structure Bindable (file : SourceFile) : Prop where
  named : ∀ id ∈ file.items, ∀ d, file.decl? id = some d → d.name.name ≠ ""
  distinct : file.items.Pairwise fun other id => ¬file.SameName id other

end SourceFile

/-- An error that arises when a name is bound. -/
def Error.IsBinding (error : Error) : Prop :=
  (∃ span, error = .missingIdentifier span) ∨ ∃ name span, error = .duplicateDeclaration name span

/-- The items of a file are bound exactly if they can be, and then their table answers for them. -/
theorem declareAll_items (hash : String → Nat) {p : Progress}
    (hrange : ∀ id ∈ p.file.items, id < p.file.declarations.length) :
    (declareAll p.file.items (.root hash) p).Meets
      (fun reached => p.file.Bindable ∧ Represents p.file reached.1 [p.file.items])
      fun _ error => ¬p.file.Bindable ∧ error.IsBinding := by
  have hbind : (declareAll p.file.items (.root hash) p).Meets
      (fun reached => reached.2.file = p.file ∧
        p.file.items.Pairwise (fun other id => ¬p.file.SameName id other) ∧ Represents p.file reached.1 [p.file.items])
      fun _ error => ¬p.file.Bindable ∧ error.IsBinding := by
    refine declareAll_meets (fun done scopes =>
      done.Pairwise (fun other id => ¬p.file.SameName id other) ∧ Represents p.file scopes [done])
      hrange ⟨.nil, .root p.file⟩ ?_
    rintro done id rest scopes d hitems hdecl ⟨hdistinct, hbound⟩
    refine ⟨fun hname => ⟨fun h => ?_, .inl ⟨_, rfl⟩⟩, fun hinsert => ⟨fun h => ?_, .inr ⟨_, _, rfl⟩⟩, ?_⟩
    · exact h.named id (by simp [hitems]) d hdecl hname
    · obtain ⟨other, hother, hsame⟩ := hbound.exists_of_insert_none hdecl hinsert
      have hdistinct := h.distinct
      rw [hitems] at hdistinct
      exact (List.pairwise_append.mp hdistinct).2.2 other hother id List.mem_cons_self hsame
    · intro changed hinsert
      refine ⟨List.pairwise_append.mpr ⟨hdistinct, List.pairwise_singleton _ _, fun other hother t ht => ?_⟩,
        hbound.insert hdecl hinsert⟩
      obtain rfl := List.mem_singleton.mp ht
      rintro ⟨d', e, hd', he, hname⟩
      obtain rfl := Option.some_inj.mp (hdecl.symm.trans hd')
      exact hbound.not_named hinsert hother (SourceFile.isNamed_iff.mpr ⟨e, he, hname⟩)
  rcases hrun : declareAll p.file.items (.root hash) p with ⟨⟨scopes, q⟩, _ | error⟩
  · rw [hrun] at hbind
    obtain ⟨-, hdistinct, hbound⟩ := hbind
    refine ⟨⟨fun id hid d hdecl => ?_, hdistinct⟩, hbound⟩
    obtain ⟨e, he, hname⟩ := named_of_declareAll hrun id hid
    obtain rfl := Option.some_inj.mp (he.symm.trans hdecl)
    exact hname
  · rw [hrun] at hbind
    exact hbind

/-- Resolving a file resolves its items in order, with a table that answers for them, or fails because they cannot be
bound. -/
theorem resolveFile_cases (hash : String → Nat) {p : Progress}
    (hrange : ∀ id ∈ p.file.items, id < p.file.declarations.length) :
    (p.file.Bindable ∧ ∃ (scopes : Scopes hash) (q : Progress), Represents p.file scopes [p.file.items] ∧
      q.file = p.file ∧ resolveFile hash p = resolveAll scopes p.file.resolutionOrder q) ∨
    ¬p.file.Bindable ∧ ∃ error, error.IsBinding ∧ (declareAll p.file.items (.root hash) p).2 = some error ∧
      (resolveFile hash p).2 = some error := by
  have hbind := declareAll_items hash hrange
  have hstill := (declareAll_still p.file.items (.root hash) p).1
  rw [resolveFile]
  rcases hall : declareAll p.file.items (.root hash) p with ⟨⟨scopes, q⟩, _ | error⟩
  · rw [hall] at hbind hstill
    replace hstill : q.file = p.file := hstill
    refine .inl ⟨hbind.1, scopes, q.note (.rootScope scopes.top.size), hbind.2, hstill, ?_⟩
    rw [← hstill]
  · rw [hall] at hbind
    exact .inr ⟨hbind.1, error, hbind.2, rfl, rfl⟩

/-- A slot that repeats a name shows that the names are not distinct. -/
theorem Slot.IsRepeated.not_nodup {τ : Type} {slots : List (Slot τ)} {slot : Slot τ} (h : Slot.IsRepeated slots slot) :
    ¬(slots.map (·.name.name)).Nodup := by
  obtain ⟨before, after, other, rfl, hother, hname⟩ := h
  rw [List.map_append, List.map_cons]
  intro hnodup
  refine (List.nodup_append'.mp hnodup).2.2 (List.mem_map_of_mem hother) ?_
  rw [hname]
  exact List.mem_cons_self

/-- What a file that has been resolved is left as. -/
structure Finished (file now : SourceFile) : Prop where
  bindable : file.Bindable
  resolved : Resolved file now
  linked : Linked file now
  integrity : ∃ past ledger, Integrity (fun name id => file.isNamed name id = true) file past ledger ∧ ledger.file = now

/-- Resolving an untouched file whose positions are in range and named at most once finishes it, or shows a defect. -/
theorem resolveFile_finishes (hash : String → Nat) {p : Progress}
    (hrange : ∀ id ∈ p.file.ids, id < p.file.declarations.length)
    (huntouched : ∀ d ∈ p.file.declarations, d.mark = .untouched) (hunique : p.file.ids.Nodup) :
    (resolveFile hash p).Meets (fun p' => Finished p.file p'.file) fun _ error => Defect p.file error := by
  have hitems (id : DeclId) (hid : id ∈ p.file.items) : id < p.file.declarations.length :=
    hrange id (List.mem_append_left _ hid)
  have hlinks := resolveFile_links hrange huntouched hunique hash
  have hsettles := resolveFile_settles hash hitems huntouched
  have hbindable (hnone : (resolveFile hash p).2 = none) : p.file.Bindable := by
    rcases resolveFile_cases hash hitems with ⟨hbindable, -⟩ | ⟨-, error, -, -, herror⟩
    · exact hbindable
    · simp [hnone] at herror
  let calls : List (Call hash) := [.resolveFile]
  have hruns : Runs (fun name id => p.file.isNamed name id = true) p.file (journal p calls) (runCalls p calls).file :=
    runs_journal (by simp [calls, Call.Binds]) p.file.namedBy_isNamed
  obtain ⟨ledger, hledger, hfile⟩ := hruns.moment (fun hmove h => h.move hmove) Integrity.restart
    (Integrity.start _ huntouched) (List.prefix_refl _)
  replace hfile : ledger.file = (resolveFile hash p).1.file := hfile.trans hruns.replay_eq
  rcases hrun : resolveFile hash p with ⟨p', _ | error⟩
  · rw [hrun] at hlinks hsettles hbindable hfile
    exact ⟨hbindable rfl, hsettles, hlinks, _, ledger, hledger, hfile⟩
  · rw [hrun] at hlinks
    exact hlinks

section Finished

variable {file now : SourceFile} (hunique : file.ids.Nodup) (hfinished : Finished file now)

include hunique hfinished

/-- What resolution has made of a declaration that is reached: its plan has been carried out, nothing that the plan
comes to is refused, its names were free and its links are as lexical scoping says. -/
theorem Reached.carried {env : Env} {id : DeclId} {d : Declaration} (hreached : Reached file env id)
    (hdecl : file.decl? id = some d) :
    ∃ e plan, now.decl? id = some e ∧ e.mark = .closed ∧ d.plan? = some plan ∧ e.plan? = some plan ∧
      Carried now plan ∧ Passes file env plan ∧ e.Fits file env := by
  obtain ⟨e, he, hmark⟩ := SourceFile.mark?_eq_some.mp (hreached.closed hfinished.resolved)
  obtain ⟨⟨plan, hplan, hcarried⟩, -⟩ := hfinished.resolved.settled id e he hmark
  obtain ⟨home, hhome, hfits⟩ := hfinished.linked.fits id e he hmark
  obtain ⟨place, plan', hplace, hplan', hpasses⟩ := hfinished.linked.passed id e he hmark
  obtain rfl := hhome.env_unique hunique hreached
  obtain rfl := hplace.env_unique hunique hreached
  obtain rfl := Option.some_inj.mp (hplan.symm.trans hplan')
  have hcleared := SourceFile.cleared_eq_of_decl? hfinished.resolved.cleared hdecl he
  have hplan₀ := (Declaration.plan?_of_cleared_eq hcleared).symm.trans hplan
  exact ⟨e, plan, he, hmark, hplan₀, hplan, hcarried, hpasses, hfits⟩

/-- A name that is used as a type stands for a type. -/
theorem SourceFile.HasNode.visible {inner : Env} {name : Ident} {reach : Reach} {link : Option DeclId}
    (h : file.HasNode inner (.named name reach link)) :
    ∃ target e, file.visible? inner name.name = some target ∧ file.decl? target = some e ∧ e.isVariable = false := by
  obtain ⟨env, owner, d, hreached, hdecl, hnode⟩ := h
  obtain ⟨e, plan, he, hmark, hplan, heplan, -, -, hfits⟩ := hreached.carried hunique hfinished hdecl
  obtain ⟨done, rest, rfl, rfl⟩ := Declaration.exists_split_of_node hplan hnode (List.mem_singleton_self _)
  obtain ⟨link', hnode'⟩ := Declaration.node_of_link env heplan
  obtain ⟨target, rfl, hvisible⟩ := hfits _ _ _ _ hnode'
  have hlink : some target ∈ e.links := by
    rw [Declaration.links, ← DeclKind.nodeLinks_nodes env]
    exact List.mem_filterMap.mpr ⟨_, hnode', rfl⟩
  obtain ⟨_, ⟨rfl⟩, -, t, ht, htype⟩ := (hfinished.resolved.settled owner e he hmark).links _ hlink
  exact ⟨target, t, hvisible, ht, htype⟩

/-- What a record contains was closed before it. -/
theorem SourceFile.Contains.idxOf_lt {Q : String → DeclId → Prop} {past : List Act} {ledger : Ledger}
    (hintegrity : Integrity Q file past ledger) (hledger : ledger.file = now) {t u : DeclId} (h : file.Contains t u) :
    (closings past).idxOf u < (closings past).idxOf t := by
  obtain ⟨env, hreached, d, kind, members, hdecl, hkind, slot, hslot, name, hstored, hvisible⟩ := h
  obtain ⟨e, plan, he, hmark, hplan, heplan, -, -, hfits⟩ := hreached.carried hunique hfinished hdecl
  have htype : e.isVariable = false := by
    rw [Declaration.isVariable_of_cleared_eq (SourceFile.cleared_eq_of_decl? hfinished.resolved.cleared hdecl he),
      Declaration.isVariable, hkind]
    rfl
  have hmem : Step.link name .byValue ∈ plan := by
    simp only [Declaration.plan?, hkind, Option.some_inj] at hplan
    exact hplan ▸ List.mem_append_left _ (TypeExpr.link_mem_slotSteps_of_stored? .byValue hslot hstored)
  obtain ⟨done, rest, rfl⟩ := List.append_of_mem hmem
  obtain ⟨link, hnode⟩ := Declaration.node_of_link env heplan
  rw [Declaration.foldl_after_of_type htype heplan] at hnode
  obtain ⟨target, rfl, hvisible'⟩ := hfits _ _ _ _ hnode
  obtain rfl := Option.some_inj.mp (hvisible'.symm.trans hvisible)
  obtain ⟨k, hname, hlink⟩ := Declaration.exists_name_of_node heplan hnode
  exact hintegrity.ranked t e k name target (hledger ▸ he) hmark hname hlink

/-- A function literal that is reached has parameters with distinct names, and none of them is the name of what the
outermost scope of its body declares. -/
theorem SourceFile.HasNode.parameters {inner : Env} {signature : Signature TypeExpr} {body : Scope}
    (h : file.HasNode inner (.function signature body)) :
    (signature.params.map (·.name.name)).Nodup ∧
    ∀ id span d, .statement (.declaration id span) ∈ body.outermost → file.decl? id = some d →
      d.name.name ∉ signature.params.map (·.name.name) := by
  obtain ⟨env, owner, d, hreached, hdecl, hnode⟩ := h
  obtain ⟨e, plan, he, hmark, hplan, -, hcarried, hpasses, -⟩ := hreached.carried hunique hfinished hdecl
  refine ⟨((Slot.firstRepeat?_eq_none_iff [] _).mp ?_).1, fun id span t hlocal ht => ?_⟩
  · cases hrepeat : Slot.firstRepeat? [] signature.params with
    | none => rfl
    | some slot =>
      have hstep : .reject (.duplicateDeclaration slot.name.name slot.span) ∈ signature.checks body := by
        simp [Signature.checks, hrepeat]
      exact absurd rfl ((hcarried _ (Declaration.mem_plan_of_node hplan hnode hstep)).1 _)
  · have hstep : .avoid (signature.params.map (·.name.name)) id span ∈ signature.checks body := by
      refine List.mem_append_right _ (List.mem_map.mpr ⟨(id, span), List.mem_filterMap.mpr ⟨_, hlocal, rfl⟩, rfl⟩)
    obtain ⟨done, rest, rfl, -⟩ := Declaration.exists_split_of_node hplan hnode hstep
    exact hpasses.split t ht

/-- A local declaration does not have the name of one before it in its scope. -/
theorem SourceFile.HasNode.declaration_free {before : List DeclId} {outer : Env} {id other : DeclId} {span : Span}
    (h : file.HasNode ((before ++ [id]) :: outer) (.declaration id span)) (hother : other ∈ before) :
    ¬file.SameName id other := by
  obtain ⟨env, owner, d, hreached, hdecl, hnode⟩ := h
  obtain ⟨e, plan, he, hmark, hplan, -, -, hpasses, -⟩ := hreached.carried hunique hfinished hdecl
  obtain ⟨done, rest, rfl, hinner⟩ := Declaration.exists_split_of_node hplan hnode (List.mem_singleton_self _)
  have hfree := hpasses.split
  generalize done.foldl Env.after env = place at hinner hfree
  cases place with
  | nil => simp [Env.after, Env.declare] at hinner
  | cons scope outer' =>
    obtain ⟨hscope, -⟩ := List.cons.inj hinner
    rw [List.append_cancel_right hscope] at hother
    exact hfree scope outer' rfl other hother

/-- Nothing is wrong with a file that has been resolved. -/
theorem Finished.not_defect (error : Error) : ¬Defect file error := by
  intro hdefect
  obtain ⟨past, ledger, hintegrity, hledger⟩ := hfinished.integrity
  cases hdefect with
  | nameless hreached hdecl hname =>
    obtain ⟨e, plan, he, hmark, -⟩ := hreached.carried hunique hfinished hdecl
    have hcleared := SourceFile.cleared_eq_of_decl? hfinished.resolved.cleared hdecl he
    refine hintegrity.named _ e (hledger ▸ he) (by simp [hmark]) ?_
    rw [Declaration.name_of_cleared_eq hcleared, hname]
  | repeatedItem hsplit hother hdecl hname =>
    have hdistinct := hfinished.bindable.distinct
    rw [hsplit] at hdistinct
    exact (List.pairwise_append.mp hdistinct).2.2 _ hother _ List.mem_cons_self hname
  | repeatedLocal hnode hother hdecl hname => exact hnode.declaration_free hunique hfinished hother hname
  | repeatedParameter hnode hrepeated => exact hrepeated.not_nodup (hnode.parameters hunique hfinished).1
  | shadowedParameter hnode hslot hlocal hdecl hname =>
    exact (hnode.parameters hunique hfinished).2 _ _ _ hlocal hdecl (hname ▸ List.mem_map_of_mem hslot)
  | unknownType hnode hvisible =>
    obtain ⟨target, -, hsome, -⟩ := hnode.visible hunique hfinished
    simp [hvisible] at hsome
  | notAType hnode hvisible hdecl hvariable =>
    obtain ⟨target, e, hsome, he, htype⟩ := hnode.visible hunique hfinished
    obtain rfl := Option.some_inj.mp (hvisible.symm.trans hsome)
    obtain rfl := Option.some_inj.mp (he.symm.trans hdecl)
    simp [htype] at hvariable
  | unsupportedKind hreached hdecl hkind =>
    obtain ⟨-, plan, -, -, hplan, -⟩ := hreached.carried hunique hfinished hdecl
    rcases hkind with ⟨members, hkind⟩ | ⟨members, hkind⟩ <;> simp [Declaration.plan?, hkind] at hplan
  | repeatedMember hreached hdecl hkind hrepeated =>
    obtain ⟨-, plan, -, -, hplan, -, hcarried, -⟩ := hreached.carried hunique hfinished hdecl
    exact hrepeated.not_nodup (hcarried.nodup_members hplan hkind)
  | cycle hreached hdecl hcycle =>
    have hlt : ∀ {t u}, TransGen file.Contains t u → (closings past).idxOf u < (closings past).idxOf t := by
      intro t u h
      induction h with
      | single h => exact h.idxOf_lt hunique hfinished hintegrity hledger
      | tail _ h ih => exact (h.idxOf_lt hunique hfinished hintegrity hledger).trans ih
    exact Nat.lt_irrefl _ (hlt hcycle)
  | refused hnode =>
    obtain ⟨env, owner, d, hreached, hdecl, hnode⟩ := hnode
    obtain ⟨-, plan, -, -, hplan, -, hcarried, -⟩ := hreached.carried hunique hfinished hdecl
    exact (hcarried _ (Declaration.mem_plan_of_node hplan hnode (List.mem_singleton_self _))).1 _ rfl

end Finished

/-- A file whose positions are in range and named at most once, and in which nothing has been opened, is resolved
exactly if it has no defect. -/
theorem resolveFile_eq_none_iff (hash : String → Nat) {p : Progress}
    (hrange : ∀ id ∈ p.file.ids, id < p.file.declarations.length)
    (huntouched : ∀ d ∈ p.file.declarations, d.mark = .untouched) (hunique : p.file.ids.Nodup) :
    (resolveFile hash p).2 = none ↔ ∀ error, ¬Defect p.file error := by
  have hends := resolveFile_finishes hash hrange huntouched hunique
  rcases hrun : resolveFile hash p with ⟨p', _ | error⟩
  · rw [hrun] at hends
    exact iff_of_true rfl (Finished.not_defect hunique hends)
  · rw [hrun] at hends
    exact iff_of_false (by simp) fun h => h error hends

end DeclTree

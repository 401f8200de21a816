import DeclTree.Proofs.Discipline

/-!
# Verdicts are permanent

Whether a file can be resolved is settled by the first attempt. If it succeeds, all items are closed and stay so, and
every later attempt passes over them. If it fails while the items are bound, it fails so again, because binding depends
on names only. If it fails at an item, the items before it are closed, and the item itself has been left open, or is an
enumeration or a sum, which no call ever opens; later attempts come to the same item and fail there at once.
-/

namespace DeclTree

variable {hash : String → Nat}

section Resolve

variable {scopes : Scopes hash} {id : DeclId} {p : Progress} {d : Declaration}

/-- Resolving a closed declaration does nothing. -/
theorem resolve_of_closed (hclosed : p.file.mark? id = some .closed) : resolve scopes id p = (p, none) := by
  obtain ⟨d, hdecl, hmark⟩ := SourceFile.mark?_eq_some.mp hclosed
  rw [resolve, resolveWithin]
  simp only [hdecl, hmark]

/-- Resolving an open declaration fails with a circular type. -/
theorem resolve_of_opened (hdecl : p.file.decl? id = some d) (hopened : d.mark = .opened) :
    resolve scopes id p = (p, some (.circularType d.name.name d.span)) := by
  rw [resolve, resolveWithin]
  simp only [hdecl, hopened]

/-- Resolving an untouched declaration that has a name and no plan fails with an unsupported kind. -/
theorem resolve_of_planless (hdecl : p.file.decl? id = some d) (huntouched : d.mark = .untouched)
    (hname : d.name.name ≠ "") (hplan : d.plan? = none) :
    resolve scopes id p = (p.note (.resolving d.kind.keyword d.name.name),
      some (.unsupportedKind d.kind.keyword d.name.name d.span)) := by
  rw [resolve, resolveWithin]
  simp only [hdecl, huntouched, hname, hplan, if_false]

/-- When resolving a declaration that has a name fails, the declaration was open before, or it has no plan, or it has
been left open; in the first two cases nothing has been written. -/
theorem resolve_fails {p' : Progress} {error : Error} (hdecl : p.file.decl? id = some d) (hname : d.name.name ≠ "")
    (hrun : resolve scopes id p = (p', some error)) :
    (d.mark = .opened ∧ p'.file = p.file ∧ error = .circularType d.name.name d.span) ∨
    (d.plan? = none ∧ d.mark = .untouched ∧ p'.file = p.file ∧
      error = .unsupportedKind d.kind.keyword d.name.name d.span) ∨
    d.plan? ≠ none ∧ p'.file.mark? id = some .opened := by
  obtain ⟨depth, hdepth⟩ : ∃ depth, p.file.declarations.length = depth + 1 := by
    have hlt := (List.getElem?_eq_some_iff.mp hdecl).1
    exact ⟨p.file.declarations.length - 1, by omega⟩
  have hends := resolveWithin_ends (depth + 1) scopes id p
  rw [resolve, hdepth] at hrun
  rw [hrun] at hends
  cases hends with
  | absent hnone => simp [hdecl] at hnone
  | opened hbare hmark =>
    obtain rfl := Option.some_inj.mp (hdecl.symm.trans hbare)
    exact .inl ⟨hmark, rfl, rfl⟩
  | nameless hbare hmark hempty =>
    obtain rfl := Option.some_inj.mp (hdecl.symm.trans hbare)
    exact absurd hempty hname
  | planless hbare hmark _ hplan =>
    obtain rfl := Option.some_inj.mp (hdecl.symm.trans hbare)
    exact .inr (.inl ⟨hplan, hmark, rfl, rfl⟩)
  | @stopped _ plan _ _ _ hbare hmark _ hplan hdeeper hsteps =>
    obtain rfl := Option.some_inj.mp hdeeper
    obtain rfl := Option.some_inj.mp (hdecl.symm.trans hbare)
    have hadvances := runSteps_advances (resolveWithin_lawful depth) (Progress.mark?_start scopes hbare) plan
    rw [hsteps] at hadvances
    exact .inr (.inr ⟨by simp [hplan], hadvances.opened⟩)
  | exhausted _ _ _ _ hdeeper => simp [deeper?] at hdeeper

end Resolve

section ResolveAll

variable {scopes : Scopes hash} {p q : Progress}

/-- Resolving closed declarations does nothing. -/
theorem resolveAll_of_closed {ids : List DeclId} (hclosed : ∀ id ∈ ids, p.file.mark? id = some .closed) :
    resolveAll scopes ids p = (p, none) := by
  induction ids with
  | nil => rfl
  | cons id rest ih =>
    obtain ⟨hid, hrest⟩ := List.forall_mem_cons.mp hclosed
    rw [resolveAll, resolve_of_closed hid]
    exact ih hrest

/-- Where the first declarations are resolved without an error, the rest is resolved from there. -/
theorem resolveAll_append {done : List DeclId} (h : resolveAll scopes done p = (q, none)) (rest : List DeclId) :
    resolveAll scopes (done ++ rest) p = resolveAll scopes rest q := by
  induction done generalizing p with
  | nil =>
    obtain rfl := (Prod.mk.inj h).1
    rfl
  | cons id done ih =>
    rw [resolveAll] at h
    rw [List.cons_append, resolveAll]
    rcases hrun : resolve scopes id p with ⟨next, _ | error⟩
    · rw [hrun] at h
      exact ih h
    · simp [hrun, Outcome.andThen] at h

/-- Resolving declarations in order closes them. -/
theorem resolveAll_closes {ids : List DeclId} (h : resolveAll scopes ids p = (q, none)) :
    ∀ id ∈ ids, q.file.mark? id = some .closed := by
  induction ids generalizing p with
  | nil => simp
  | cons id rest ih =>
    rw [resolveAll] at h
    rcases hrun : resolve scopes id p with ⟨next, _ | error⟩
    · rw [hrun] at h
      have hadvances := resolveAll_advances scopes rest next
      rw [show resolveAll scopes rest next = (q, none) from h] at hadvances
      exact List.forall_mem_cons.mpr ⟨hadvances.mark?_eq (resolve_lawful.closes hrun) (by decide), ih h⟩
    · simp [hrun, Outcome.andThen] at h

/-- When resolving declarations in order fails, one of them fails and those before it have been resolved. -/
theorem exists_of_resolveAll_fails {ids : List DeclId} {error : Error} (h : resolveAll scopes ids p = (q, some error)) :
    ∃ done id rest r, ids = done ++ id :: rest ∧ resolveAll scopes done p = (r, none) ∧
      resolve scopes id r = (q, some error) := by
  induction ids generalizing p with
  | nil => simp [resolveAll] at h
  | cons id rest ih =>
    rw [resolveAll] at h
    rcases hrun : resolve scopes id p with ⟨next, _ | e⟩
    · rw [hrun] at h
      obtain ⟨done, failed, rest, r, rfl, hdone, hfailed⟩ := ih h
      refine ⟨id :: done, failed, rest, r, rfl, ?_, hfailed⟩
      rw [resolveAll, hrun]
      exact hdone
    · rw [hrun] at h
      obtain ⟨rfl, rfl⟩ : next = q ∧ e = error := by simpa [Outcome.andThen] using h
      exact ⟨[], id, rest, p, rfl, rfl, hrun⟩

end ResolveAll

section Binding

variable {p q : Progress}

/-- Binding a name does not depend on marks and links. -/
theorem declare_of_cleared_eq (hcleared : q.file.cleared = p.file.cleared) (scopes : Scopes hash) (id : DeclId) :
    (declare scopes id q).2 = (declare scopes id p).2 ∧ (declare scopes id q).1.1 = (declare scopes id p).1.1 := by
  rw [declare, declare]
  cases hdecl : p.file.decl? id with
  | none =>
    rw [SourceFile.decl?_eq_none_of_cleared_eq hcleared hdecl, Progress.outOfRange, Progress.outOfRange,
      SourceFile.length_of_cleared_eq hcleared]
    exact ⟨rfl, rfl⟩
  | some d =>
    obtain ⟨e, he, heq⟩ := SourceFile.decl?_of_cleared_eq hcleared hdecl
    rw [he]
    dsimp only
    rw [Declaration.name_of_cleared_eq heq, Declaration.span_of_cleared_eq heq]
    split
    · exact ⟨rfl, rfl⟩
    · split <;> exact ⟨rfl, rfl⟩

/-- How items are bound, and with which error, does not depend on links and marks. -/
theorem declareAll_of_cleared_eq (hcleared : q.file.cleared = p.file.cleared) (ids : List DeclId)
    (scopes : Scopes hash) :
    (declareAll ids scopes q).2 = (declareAll ids scopes p).2 ∧
      (declareAll ids scopes q).1.1 = (declareAll ids scopes p).1.1 := by
  induction ids generalizing scopes p q with
  | nil => exact ⟨rfl, rfl⟩
  | cons id rest ih =>
    have hfirst := declare_of_cleared_eq hcleared scopes id
    have hstillP := (declare_still scopes id p).1
    have hstillQ := (declare_still scopes id q).1
    rw [declareAll, declareAll]
    rcases hp : declare scopes id p with ⟨⟨bound, r⟩, result⟩
    rcases hq : declare scopes id q with ⟨⟨bound', r'⟩, result'⟩
    rw [hp, hq] at hfirst
    rw [hp] at hstillP
    rw [hq] at hstillQ
    obtain ⟨rfl, rfl⟩ := hfirst
    cases result' with
    | none => exact ih ((congrArg _ hstillQ).trans (hcleared.trans (congrArg _ hstillP.symm))) bound'
    | some error => exact ⟨rfl, rfl⟩

/-- What has been bound is declared and has a name. -/
theorem named_of_declareAll {ids : List DeclId} {scopes bound : Scopes hash}
    (h : declareAll ids scopes p = ((bound, q), none)) :
    ∀ id ∈ ids, ∃ d, p.file.decl? id = some d ∧ d.name.name ≠ "" := by
  induction ids generalizing scopes p with
  | nil => simp
  | cons id rest ih =>
    have hends := declare_ends scopes id p
    rw [declareAll] at h
    generalize declare scopes id p = outcome at hends h
    cases hends with
    | @bound d changed hdecl hname hinsert =>
      exact List.forall_mem_cons.mpr ⟨⟨d, hdecl, hname⟩, ih (p := p.note (.declared d.name.name)) h⟩
    | _ => simp [Outcome.andThen] at h

end Binding

/-- What no act changes is as it was. -/
theorem SourceFile.decl?_replay {file : SourceFile} {acts : List Act} {id : DeclId}
    (h : ∀ act ∈ acts, act.changed? ≠ some id) : (file.replay acts).decl? id = file.decl? id := by
  induction acts generalizing file with
  | nil => rfl
  | cons act rest ih =>
    obtain ⟨hfirst, hrest⟩ := List.forall_mem_cons.mp h
    refine (ih hrest).trans ?_
    cases act with
    | opens t | closes t | links t => exact decl?_update_of_ne _ (fun heq => hfirst (congrArg some heq)) _
    | fails => rfl

/-- Calls do not change a declaration that has no plan. -/
theorem decl?_runCalls_of_planless {p : Progress} {id : DeclId} {d : Declaration} (hdecl : p.file.decl? id = some d)
    (hplan : d.plan? = none) (calls : List (Call hash)) : (runCalls p calls).file.decl? id = some d := by
  induction calls generalizing p with
  | nil => exact hdecl
  | cons call rest ih =>
    refine ih ?_
    obtain ⟨left, hmoves, -⟩ := Call.moves (p := p) call.binds_true fun _ _ _ => trivial
    have hsame : (p.file.replay (call.acts p)).decl? id = p.file.decl? id := by
      refine SourceFile.decl?_replay fun act hact hchanged => ?_
      obtain ⟨e, plan, he, heplan⟩ := hmoves.plan_of_changed hact hchanged
      obtain rfl := Option.some_inj.mp (hdecl.symm.trans he)
      simp [hplan] at heplan
    exact (congrArg (SourceFile.decl? · id) hmoves.replay_eq).symm.trans (hsame.trans hdecl)

/-- Resolving a file fails at an item: the items have been bound, those that come before it in the order of resolution
have been resolved, and resolving it fails. -/
def FailsAt (hash : String → Nat) (p : Progress) (id : DeclId) (p' : Progress) (error : Error) : Prop :=
  ∃ scopes bound done rest q, declareAll p.file.items (.root hash) p = ((scopes, bound), none) ∧
    p.file.resolutionOrder = done ++ id :: rest ∧
    resolveAll scopes done (bound.note (.rootScope scopes.top.size)) = (q, none) ∧
    resolve scopes id q = (p', some error)

/-- Resolving a file fails while the items are bound, or at an item. -/
theorem resolveFile_fails {p p' : Progress} {error : Error} (h : resolveFile hash p = (p', some error)) :
    (declareAll p.file.items (.root hash) p).2 = some error ∨ ∃ id, FailsAt hash p id p' error := by
  have hstill := (declareAll_still p.file.items (.root hash) p).1
  rw [resolveFile] at h
  rcases hbind : declareAll p.file.items (.root hash) p with ⟨⟨scopes, bound⟩, _ | e⟩
  · rw [hbind] at h hstill
    obtain ⟨done, id, rest, q, horder, hdone, hid⟩ := exists_of_resolveAll_fails h
    rw [show bound.file = p.file from hstill] at horder
    exact .inr ⟨id, scopes, bound, done, rest, q, hbind, horder, hdone, hid⟩
  · rw [hbind] at h
    exact .inl (congrArg Prod.snd h)

section Again

variable {p q : Progress} (hcleared : q.file.cleared = p.file.cleared)

include hcleared

/-- If the items of a file cannot be bound, no later stage of the file can be resolved either. -/
theorem resolveFile_again_of_unbound {error : Error} (h : (declareAll p.file.items (.root hash) p).2 = some error) :
    (resolveFile hash q).2 = some error ∧ (resolveFile hash q).1.file = q.file := by
  have hagain := (declareAll_of_cleared_eq hcleared q.file.items (.root hash)).1
  have hstill := (declareAll_still q.file.items (.root hash) q).1
  rw [SourceFile.items_of_cleared_eq hcleared, h] at hagain
  rw [SourceFile.items_of_cleared_eq hcleared] at hstill
  rw [resolveFile, SourceFile.items_of_cleared_eq hcleared]
  rcases hbind : declareAll p.file.items (.root hash) q with ⟨⟨scopes, bound⟩, result⟩
  rw [hbind] at hagain hstill
  obtain rfl := hagain
  exact ⟨rfl, hstill⟩

/-- If they can, a later stage is resolved with the same tables in the same order. -/
theorem resolveFile_again_of_bound {scopes : Scopes hash} {bound : Progress}
    (h : declareAll p.file.items (.root hash) p = ((scopes, bound), none)) :
    ∃ start : Progress, start.file = q.file ∧ resolveFile hash q = resolveAll scopes p.file.resolutionOrder start := by
  have hagain := declareAll_of_cleared_eq hcleared q.file.items (.root hash)
  have hstill := (declareAll_still q.file.items (.root hash) q).1
  rw [SourceFile.items_of_cleared_eq hcleared, h] at hagain
  rw [SourceFile.items_of_cleared_eq hcleared] at hstill
  rw [resolveFile, SourceFile.items_of_cleared_eq hcleared]
  rcases hbind : declareAll p.file.items (.root hash) q with ⟨⟨scopes', bound'⟩, result⟩
  rw [hbind] at hagain hstill
  obtain ⟨hresult, hscopes⟩ : result = none ∧ scopes' = scopes := hagain
  subst hresult hscopes
  refine ⟨bound'.note (.rootScope scopes'.top.size), hstill, ?_⟩
  dsimp only
  rw [show bound'.file = q.file from hstill, SourceFile.resolutionOrder_of_cleared_eq hcleared]

end Again

/-- Later attempts to resolve an item that could not be resolved fail at once, all with the same error. -/
theorem resolve_again {scopes : Scopes hash} {id : DeclId} {q p' : Progress} {error : Error} {d : Declaration}
    (hdecl : q.file.decl? id = some d) (hname : d.name.name ≠ "") (hfails : resolve scopes id q = (p', some error))
    (calls : List (Call hash)) {start : Progress} (hstart : start.file = (runCalls p' calls).file) :
    ∃ last : Progress, last.file = start.file ∧ resolve scopes id start =
      (last, some (if d.plan? = none then error else .circularType d.name.name d.span)) := by
  have hadvances := runCalls_advances p' calls
  rcases resolve_fails hdecl hname hfails with
    ⟨hopened, hfile, rfl⟩ | ⟨hplan, huntouched, hfile, rfl⟩ | ⟨hplan, hopened⟩
  · have hstays := hadvances.kept (by simp) (hfile ▸ hdecl) (by simp [hopened])
    rw [ite_self]
    exact ⟨start, rfl, resolve_of_opened (hstart ▸ hstays) hopened⟩
  · have hstays := decl?_runCalls_of_planless (p := p') (hfile ▸ hdecl) hplan calls
    rw [if_pos hplan]
    exact ⟨_, by rfl, resolve_of_planless (hstart ▸ hstays) huntouched hname hplan⟩
  · obtain ⟨e, he, hmark⟩ := SourceFile.mark?_eq_some.mp hopened
    have hstays := hadvances.kept (by simp) he (by simp [hmark])
    have hcleared := SourceFile.cleared_eq_of_decl? (resolve_lawful.advances hfails).cleared hdecl he
    rw [if_neg hplan, ← Declaration.name_of_cleared_eq hcleared, ← Declaration.span_of_cleared_eq hcleared]
    exact ⟨start, rfl, resolve_of_opened (hstart ▸ hstays) hmark⟩

/-- Later attempts to resolve a file that could not be resolved fail at the same item, all with the same error. -/
theorem resolveFile_again_of_failsAt {p p' : Progress} {id : DeclId} {error : Error} (h : FailsAt hash p id p' error) :
    ∃ d, p.file.decl? id = some d ∧ ∀ calls : List (Call hash),
      (resolveFile hash (runCalls p' calls)).2 =
        some (if d.plan? = none then error else .circularType d.name.name d.span) ∧
      (resolveFile hash (runCalls p' calls)).1.file = (runCalls p' calls).file := by
  obtain ⟨scopes, bound, done, rest, q, hbind, horder, hdone, hfails⟩ := h
  have hbound : (bound.note (.rootScope scopes.top.size)).file = p.file := by
    have hstill := (declareAll_still p.file.items (.root hash) p).1
    rw [hbind] at hstill
    exact hstill
  have hbefore : Advances none p.file q.file := by
    have hadvances := resolveAll_advances scopes done (bound.note (.rootScope scopes.top.size))
    rw [hdone, hbound] at hadvances
    exact hadvances
  have hafter := resolve_lawful.advances hfails
  have hitem : id ∈ p.file.items := SourceFile.mem_items_of_resolutionOrder (horder ▸ by simp)
  obtain ⟨d, hdecl, hname⟩ := named_of_declareAll hbind id hitem
  obtain ⟨e, he, hcleared⟩ := SourceFile.decl?_of_cleared_eq hbefore.cleared hdecl
  refine ⟨d, hdecl, fun calls => ?_⟩
  have hcalls := runCalls_advances p' calls
  obtain ⟨start, hstart, hagain⟩ := resolveFile_again_of_bound
    (hcalls.cleared.trans (hafter.cleared.trans hbefore.cleared)) hbind
  -- The items before the one that fails have been closed.
  have hclosed (t : DeclId) (ht : t ∈ done) : start.file.mark? t = some .closed := by
    rw [hstart]
    exact hcalls.mark?_eq (hafter.mark?_eq (resolveAll_closes hdone t ht) (by decide)) (by decide)
  obtain ⟨last, hlast, hrun⟩ := resolve_again he (by rwa [Declaration.name_of_cleared_eq hcleared]) hfails calls hstart
  rw [Declaration.plan?_of_cleared_eq hcleared, Declaration.name_of_cleared_eq hcleared,
    Declaration.span_of_cleared_eq hcleared] at hrun
  rw [hagain, horder, resolveAll_append (resolveAll_of_closed hclosed), resolveAll, hrun]
  exact ⟨rfl, hlast.trans hstart⟩

/-- Later attempts to resolve a file that has been resolved pass over all items. -/
theorem resolveFile_again_of_resolved {p p' : Progress} (h : resolveFile hash p = (p', none))
    (calls : List (Call hash)) :
    (resolveFile hash (runCalls p' calls)).2 = none ∧
      (resolveFile hash (runCalls p' calls)).1.file = (runCalls p' calls).file := by
  have hfirst := (Call.resolveFile : Call hash).advances p
  rw [show (Call.resolveFile : Call hash).run p = (p', none) from h] at hfirst
  have hcalls := runCalls_advances p' calls
  have hstill := (declareAll_still p.file.items (.root hash) p).1
  rw [resolveFile] at h
  rcases hbind : declareAll p.file.items (.root hash) p with ⟨⟨scopes, bound⟩, _ | error⟩
  · rw [hbind] at h hstill
    obtain ⟨start, hstart, hagain⟩ := resolveFile_again_of_bound (hcalls.cleared.trans hfirst.cleared) hbind
    have hclosed (t : DeclId) (ht : t ∈ p.file.resolutionOrder) : start.file.mark? t = some .closed := by
      rw [← show bound.file = p.file from hstill] at ht
      rw [hstart]
      exact hcalls.mark?_eq (resolveAll_closes h t ht) (by decide)
    rw [hagain, resolveAll_of_closed hclosed]
    exact ⟨rfl, hstart⟩
  · simp [hbind] at h

/-- The verdict on a file is permanent, whatever state the file is in and whatever calls follow. If the file is
resolved, every later attempt succeeds and changes nothing. If it is not, every later attempt fails with one and the
same error and changes nothing. That error is the first one if the items could not be bound or if the item that could
not be resolved is an enumeration or a sum, and otherwise it says that this item is circular. -/
theorem verdict_is_permanent (p : Progress) :
    (resolveFile hash p).Meets
      (fun p' => ∀ calls : List (Call hash), (resolveFile hash (runCalls p' calls)).2 = none ∧
        (resolveFile hash (runCalls p' calls)).1.file = (runCalls p' calls).file)
      fun p' error => ∃ later,
        (∀ calls : List (Call hash), (resolveFile hash (runCalls p' calls)).2 = some later ∧
          (resolveFile hash (runCalls p' calls)).1.file = (runCalls p' calls).file) ∧
        ((declareAll p.file.items (.root hash) p).2 = some error ∧ later = error ∨
          ∃ id d, FailsAt hash p id p' error ∧ p.file.decl? id = some d ∧
            ((∃ members, d.kind = .enumeration members) ∨ (∃ members, d.kind = .sum members) → later = error) ∧
            ((∀ members, d.kind ≠ .enumeration members) ∧ (∀ members, d.kind ≠ .sum members) →
              later = .circularType d.name.name d.span)) := by
  rcases hrun : resolveFile hash p with ⟨p', _ | error⟩
  · exact resolveFile_again_of_resolved hrun
  · rcases resolveFile_fails hrun with hunbound | ⟨id, hfails⟩
    · have hfirst := (Call.resolveFile : Call hash).advances p
      rw [show (Call.resolveFile : Call hash).run p = (p', some error) from hrun] at hfirst
      refine ⟨error, fun calls => ?_, .inl ⟨hunbound, rfl⟩⟩
      exact resolveFile_again_of_unbound ((runCalls_advances p' calls).cleared.trans hfirst.cleared) hunbound
    · obtain ⟨d, hdecl, hagain⟩ := resolveFile_again_of_failsAt hfails
      refine ⟨_, hagain, .inr ⟨id, d, hfails, hdecl, fun hkind => ?_, fun hkind => ?_⟩⟩
      · exact if_pos (Declaration.plan?_eq_none_iff.mpr hkind)
      · refine if_neg fun hplan => ?_
        rcases Declaration.plan?_eq_none_iff.mp hplan with ⟨members, heq⟩ | ⟨members, heq⟩
        · exact hkind.1 members heq
        · exact hkind.2 members heq

end DeclTree

import DeclTree.Proofs.Files
import DeclTree.Proofs.Filling
import DeclTree.Proofs.Tables

/-!
# Settled declarations

What can be said of a closed declaration wherever it was met and whatever tables it was resolved with: nothing in it is
refused, everything that it declares is closed, and each of its links leads to a type that is an item or that has a
plan. When a file has been resolved, all its items are closed, so that all links lead to records.
-/

namespace DeclTree

variable {hash : String → Nat}

namespace SourceFile

/-- What a table may bind: an item, or a declaration that has a plan. -/
def Offers (file : SourceFile) (id : DeclId) : Prop :=
  id ∈ file.items ∨ ∃ d, file.decl? id = some d ∧ d.plan?.isSome

/-- What a link may lead to. -/
def IsTarget (file : SourceFile) (id : DeclId) : Prop :=
  file.Offers id ∧ ∃ d, file.decl? id = some d ∧ d.isVariable = false

end SourceFile

/-- Nothing that a plan comes to is refused, and what it declares is closed. -/
def Carried (now : SourceFile) (steps : List Step) : Prop :=
  ∀ step ∈ steps, (∀ error, step ≠ .reject error) ∧ ∀ id, step = .declare id → now.mark? id = some .closed

/-- The state of a closed declaration. -/
structure Settled (file now : SourceFile) (d : Declaration) : Prop where
  plan : ∃ plan, d.plan? = some plan ∧ Carried now plan
  links : ∀ link ∈ d.links, ∃ id, link = some id ∧ file.IsTarget id

/-- Everything that is closed is settled. -/
def AllSettled (file now : SourceFile) : Prop :=
  ∀ id d, now.decl? id = some d → d.mark = .closed → Settled file now d

section Keeping

variable {file before after : SourceFile}

/-- A plan that has been carried out stays so while what is closed stays closed. -/
theorem Carried.mono {steps : List Step} (h : Carried before steps)
    (hclosed : ∀ id, before.mark? id = some .closed → after.mark? id = some .closed) : Carried after steps :=
  fun step hstep => ⟨(h step hstep).1, fun id hid => hclosed id ((h step hstep).2 id hid)⟩

/-- What was settled stays so if nothing is opened again, and what is closed later must be settled then. -/
theorem AllSettled.mono (h : AllSettled file before)
    (hclosed : ∀ id, before.mark? id = some .closed → after.mark? id = some .closed)
    (hnew : ∀ id d, after.decl? id = some d → d.mark = .closed → before.decl? id = some d ∨ Settled file after d) :
    AllSettled file after := by
  intro id d hdecl hmark
  rcases hnew id d hdecl hmark with hbefore | hsettled
  · obtain ⟨⟨plan, hplan, hcarried⟩, hlinks⟩ := h id d hbefore hmark
    exact ⟨⟨plan, hplan, hcarried.mono hclosed⟩, hlinks⟩
  · exact hsettled

/-- A change of a declaration that is not closed, and that does not close it, does not matter. -/
theorem AllSettled.update (h : AllSettled file before) {id : DeclId} {change : Declaration → Declaration}
    (hopen : before.mark? id ≠ some .closed) (hchange : ∀ d, before.decl? id = some d → (change d).mark ≠ .closed) :
    AllSettled file (before.update id change) := by
  refine h.mono (fun t ht => ?_) fun t d hdecl hmark => .inl (SourceFile.decl?_of_update hchange hdecl hmark)
  have hne : id ≠ t := fun heq => hopen (heq ▸ ht)
  rwa [SourceFile.mark?, SourceFile.decl?_update_of_ne _ hne]

/-- Filling a link of an open declaration does not matter. -/
theorem AllSettled.setLink (h : AllSettled file before) {id : DeclId} (hopen : before.mark? id = some .opened) (k : Nat)
    (target : DeclId) : AllSettled file (before.setLink id k target) :=
  h.update (by simp [hopen]) fun d hd => by simp [SourceFile.mark_of_mark? hd hopen]

/-- An open declaration may be closed when it is settled. -/
theorem AllSettled.close (h : AllSettled file before) {id : DeclId} {d : Declaration}
    (hdecl : before.decl? id = some d) {plan : List Step} (hplan : d.plan? = some plan) (hcarried : Carried before plan)
    (hlinks : ∀ link ∈ d.links, ∃ id, link = some id ∧ file.IsTarget id) :
    AllSettled file (before.setMark id .closed) := by
  have hkeep (t : DeclId) (ht : before.mark? t = some .closed) :
      (before.setMark id .closed).mark? t = some .closed := by
    by_cases heq : id = t
    · exact heq ▸ SourceFile.mark?_setMark_self (heq ▸ ht) .closed
    · rwa [SourceFile.mark?_setMark_of_ne _ heq]
  refine h.mono hkeep fun t e he hmark => ?_
  rcases SourceFile.decl?_of_setMark hdecl .closed he with ⟨-, rfl⟩ | hbefore
  · exact .inr ⟨⟨plan, hplan, hcarried.mono hkeep⟩, hlinks⟩
  · exact .inl hbefore

end Keeping

section Visit

variable {file : SourceFile}

/-- A step that succeeds refuses nothing, and leaves closed what it declares. -/
theorem runStep_carried {visit : Visit hash} (hvisit : visit.Lawful) {owner : DeclId} {frame : Frame hash} (step : Step)
    {done : List Step} (hdone : Carried frame.progress.file done) :
    (runStep visit owner step frame).Meets (fun next => Carried next.progress.file (done ++ [step]))
      fun _ _ => True := by
  have hcarried {now : SourceFile}
      (hkept : ∀ t, frame.progress.file.mark? t = some .closed → now.mark? t = some .closed)
      (hreject : ∀ error, step ≠ .reject error) (hdeclare : ∀ id, step = .declare id → now.mark? id = some .closed) :
      Carried now (done ++ [step]) := by
    intro s hs
    rcases List.mem_append.mp hs with hs | hs
    · exact hdone.mono hkept s hs
    · exact List.mem_singleton.mp hs ▸ ⟨hreject, hdeclare⟩
  have hends := runStep_ends visit owner step frame
  generalize runStep visit owner step frame = outcome at hends ⊢
  cases hends with
  | stored hfind hdecl hvariable hrun =>
    have hadvances := hvisit.advances hrun
    refine hcarried (fun t ht => ?_) (by simp) (by simp)
    exact (SourceFile.mark?_setLink _ _ _ _ t).trans (hadvances.mark?_eq ht (by decide))
  | referred hfind hdecl hvariable =>
    refine hcarried (fun t ht => ?_) (by simp) (by simp)
    exact (SourceFile.mark?_setLink _ _ _ _ t).trans ht
  | entered => exact hcarried (fun _ h => h) (by simp) (by simp)
  | left => exact hcarried (fun _ h => h) (by simp) (by simp)
  | @declared id d scopes p result hdecl hname hinsert hrun =>
    cases result with
    | some error => trivial
    | none =>
      have hadvances := hvisit.advances hrun
      refine hcarried (fun t ht => hadvances.mark?_eq ht (by decide)) (by simp) ?_
      rintro _ ⟨rfl⟩
      exact hvisit.closes hrun
  | avoided hdecl hname => exact hcarried (fun _ h => h) (by simp) (by simp)
  | _ => trivial

/-- A step keeps what is settled. What it declares may be bound from then on. -/
theorem runStep_settles {visit : Visit hash} (hvisit : visit.Lawful) {owner : DeclId} {frame : Frame hash} (step : Step)
    (hcleared : frame.progress.file.cleared = file.cleared)
    (hopen : frame.progress.file.mark? owner = some .opened) (hsettled : AllSettled file frame.progress.file)
    (hbound : frame.scopes.All file.Offers)
    (hinner : ∀ scopes id event, scopes.All (fun u => file.Offers u ∨ u = id) →
      (visit scopes id (frame.progress.note event)).Meets (fun p => AllSettled file p.file) fun _ _ => True) :
    (runStep visit owner step frame).Meets
      (fun next => AllSettled file next.progress.file ∧ next.scopes.All file.Offers)
      fun _ _ => True := by
  have hends := runStep_ends visit owner step frame
  generalize runStep visit owner step frame = outcome at hends ⊢
  cases hends with
  | @stored name target d p hfind hdecl hvariable hrun =>
    have hadvances := hvisit.advances hrun
    have hvisited := hinner frame.scopes target (.linked name.name target .byValue) (hbound.imp fun _ h => .inl h)
    rw [hrun] at hvisited
    exact ⟨hvisited.setLink (hadvances.mark?_eq hopen (by decide)) frame.filled target, hbound⟩
  | @referred name target d hfind hdecl hvariable => exact ⟨hsettled.setLink hopen frame.filled target, hbound⟩
  | entered => exact ⟨hsettled, hbound.push⟩
  | left => exact ⟨hsettled, hbound.pop⟩
  | @declared id d scopes p result hdecl hname hinsert hrun =>
    cases result with
    | some error => trivial
    | none =>
      have hadvances := hvisit.advances hrun
      have hvisited := hinner scopes id (.declared d.name.name)
        ((hbound.imp fun _ h => Or.inl h).insert hinsert (.inr rfl))
      rw [hrun] at hvisited
      refine ⟨hvisited, hbound.insert hinsert (.inr ?_)⟩
      -- The declaration is closed, so it has a plan.
      obtain ⟨e, he, hmark⟩ := SourceFile.mark?_eq_some.mp (hvisit.closes hrun)
      obtain ⟨⟨plan, hplan, -⟩, -⟩ := hvisited id e he hmark
      obtain ⟨d₀, hd₀, hplan₀⟩ := SourceFile.plan_of_cleared_eq (hadvances.cleared.trans hcleared).symm he hplan
      exact ⟨d₀, hd₀, by rw [hplan₀]; rfl⟩
  | avoided hdecl hname => exact ⟨hsettled, hbound⟩
  | _ => trivial

/-- Carrying out the plan of a declaration settles it. -/
theorem runSteps_settles {visit : Visit hash} (hvisit : visit.Lawful) {scopes : Scopes hash} {id : DeclId}
    {p : Progress} {d : Declaration} {plan : List Step} (hdecl : p.file.decl? id = some d) (hmark : d.mark = .untouched)
    (hplan : d.plan? = some plan) (hcleared : p.file.cleared = file.cleared) (hsettled : AllSettled file p.file)
    (hbound : scopes.All file.Offers)
    (hinner : ∀ scopes' id' p', p'.file.fresh ⊂ p.file.fresh → p'.file.cleared = file.cleared →
      AllSettled file p'.file → scopes'.All (fun u => file.Offers u ∨ u = id') →
      (visit scopes' id' p').Meets (fun p'' => AllSettled file p''.file) fun _ _ => True) :
    (runSteps visit id plan ⟨scopes, 0, p.start id d⟩).Meets
      (fun last => AllSettled file (last.progress.file.setMark id .closed)) fun _ _ => True := by
  have hopen := Progress.mark?_start scopes hdecl
  have hstart : AllSettled file (p.start id d).file :=
    hsettled.update (fun h => by simp [SourceFile.mark?, hdecl, hmark] at h) (fun _ _ => by simp)
  refine (runPlan_meets hvisit hopen (fun done frame =>
      (AllSettled file frame.progress.file ∧ frame.scopes.All file.Offers) ∧
      Carried frame.progress.file done ∧ Filling (fun _ => file.IsTarget) id (linkSites [] done) frame)
    ⟨⟨hstart, hbound⟩, by simp [Carried], .start scopes hdecl⟩ ?_).imp ?_ fun _ _ h => h
  · rintro done step rest frame rfl hframe - ⟨⟨hall, hscopes⟩, hdone, hfilling⟩
    have hnow := (hframe.file_of_untouched hdecl hmark).cleared
    obtain ⟨e, he, heplan⟩ := SourceFile.plan_of_cleared_eq hnow hdecl hplan
    have hsettles := runStep_settles hvisit step (hnow.trans hcleared) hframe.opened hall hscopes
      fun scopes' id' event hscopes' => hinner scopes' id' (frame.progress.note event)
        (hframe.fresh_ssubset hdecl hmark) (hnow.trans hcleared) hall hscopes'
    have hfills := runStep_filling hvisit [] hframe.opened he heplan
      (fun name reach target t _ hfind ht hvariable => ?_) hfilling
    · exact (hsettles.and ((runStep_carried hvisit step hdone).and hfills)).imp (fun _ h => h) fun _ _ _ => trivial
    · obtain ⟨t₀, ht₀, hcleared₀⟩ := SourceFile.decl?_of_cleared_eq (hnow.trans hcleared).symm ht
      exact ⟨hscopes.find hfind, t₀, ht₀, (Declaration.isVariable_of_cleared_eq hcleared₀).trans hvariable⟩
  · rintro last ⟨hlast, ⟨hall, -⟩, hcarried, hfilling⟩
    obtain ⟨e, he, heplan⟩ := SourceFile.plan_of_cleared_eq (hlast.file_of_untouched hdecl hmark).cleared hdecl hplan
    exact hall.close he heplan hcarried (hfilling.forall_links he (Declaration.length_linkSites [] heplan))

/-- Visits keep what is settled, whatever their tables bind besides what the file offers and their declaration. -/
theorem visit_settles (file : SourceFile) :
    VisitStep (fun (scopes : Scopes hash) id p => p.file.cleared = file.cleared ∧ AllSettled file p.file ∧
        scopes.All fun u => file.Offers u ∨ u = id)
      (fun _ _ _ p' => AllSettled file p'.file) fun _ _ _ _ _ => True := by
  rintro visit scopes id p outcome hvisit ⟨hcleared, hsettled, hbound⟩ hinner hends
  cases hends with
  | closed hdecl hmark => exact hsettled
  | @finished d plan _ last hdecl hmark hname hplan hdeeper hrun =>
    obtain rfl := Option.some_inj.mp hdeeper
    obtain ⟨d₀, hd₀, hplan₀⟩ := SourceFile.plan_of_cleared_eq hcleared.symm hdecl hplan
    have hid : file.Offers id := .inr ⟨d₀, hd₀, by rw [hplan₀]; rfl⟩
    have hsteps := runSteps_settles hvisit hdecl hmark hplan hcleared hsettled
      (hbound.imp fun u hu => hu.elim (fun h => h) fun h => h ▸ hid)
      fun scopes' id' p' hfresh hcleared' hsettled' hbound' =>
        hinner scopes' id' p' hfresh ⟨hcleared', hsettled', hbound'⟩
    rw [hrun] at hsteps
    exact hsteps
  | _ => trivial

end Visit

/-- What a successful resolution of a file leaves: everything that is closed is settled, all items are closed, and
nothing is open. -/
structure Resolved (file now : SourceFile) : Prop where
  cleared : now.cleared = file.cleared
  settled : AllSettled file now
  closed : ∀ id ∈ file.items, now.mark? id = some .closed
  opened : ∀ id, now.mark? id ≠ some .opened

/-- Resolving an untouched file closes and settles its items. -/
theorem resolveFile_settles (hash : String → Nat) {p : Progress}
    (hrange : ∀ id ∈ p.file.items, id < p.file.declarations.length)
    (huntouched : ∀ d ∈ p.file.declarations, d.mark = .untouched) :
    (resolveFile hash p).Meets (fun p' => Resolved p.file p'.file) fun _ _ => True := by
  refine (resolveFile_meets
    (fun done scopes => scopes.All fun id => id ∈ done)
    (fun scopes now => scopes.All (· ∈ p.file.items) ∧ AllSettled p.file now)
    hrange huntouched (.root hash _) ?_ ?_ ?_).imp ?_ fun _ _ h => h
  · intro done id rest scopes d _ _ hbound
    refine ⟨fun _ => trivial, fun _ => trivial, fun changed hchanged => ?_⟩
    exact (hbound.imp fun t ht => List.mem_append_left _ ht).insert hchanged (by simp)
  · intro scopes hbound
    refine ⟨hbound, fun id d hdecl hmark => ?_⟩
    simp [huntouched d (List.mem_of_getElem? hdecl)] at hmark
  · rintro scopes done id rest q - hbetween ⟨hbound, hsettled⟩
    have hvisit := resolve_meets (visit_settles p.file) scopes id q
      ⟨hbetween.cleared, hsettled, hbound.imp fun _ h => Or.inl (Or.inl h)⟩
    exact hvisit.imp (fun _ h => ⟨hbound, h⟩) fun _ _ h => h
  · rintro p' ⟨hbetween, scopes, -, hsettled⟩
    refine ⟨hbetween.cleared, hsettled, fun id hid => ?_, hbetween.opened⟩
    exact hbetween.closed id (SourceFile.mem_resolutionOrder hid (hrange id hid))

/-- A type that has a plan is a record. -/
theorem Declaration.record_of_plan {d : Declaration} (hplan : d.plan?.isSome) (hvariable : d.isVariable = false) :
    ∃ kind members, d.kind = .record kind members := by
  rw [plan?] at hplan
  rw [isVariable] at hvariable
  cases hkind : d.kind with
  | constant type value => simp [hkind, DeclKind.isVariable] at hvariable
  | mutable type value => simp [hkind, DeclKind.isVariable] at hvariable
  | enumeration members => simp [hkind] at hplan
  | record kind members => exact ⟨kind, members, rfl⟩
  | sum members => simp [hkind] at hplan

namespace Resolved

variable {file now : SourceFile}

/-- Whatever the tables of a resolved file could bind has a plan. -/
theorem plan_of_offers (h : Resolved file now) {id : DeclId} (hid : file.Offers id) {d : Declaration}
    (hdecl : file.decl? id = some d) : d.plan?.isSome := by
  rcases hid with hitem | ⟨e, he, hplan⟩
  · obtain ⟨e, he, hmark⟩ := SourceFile.mark?_eq_some.mp (h.closed id hitem)
    obtain ⟨⟨plan, hplan, -⟩, -⟩ := h.settled id e he hmark
    rw [← Declaration.plan?_of_cleared_eq (SourceFile.cleared_eq_of_decl? h.cleared hdecl he), hplan]
    rfl
  · exact Option.some_inj.mp (he.symm.trans hdecl) ▸ hplan

/-- In a resolved file links lead to records. -/
theorem record_of_isTarget (h : Resolved file now) {id : DeclId} (hid : file.IsTarget id) :
    ∃ d kind members, file.decl? id = some d ∧ d.kind = .record kind members := by
  obtain ⟨hoffers, d, hdecl, hvariable⟩ := hid
  obtain ⟨kind, members, hkind⟩ := Declaration.record_of_plan (h.plan_of_offers hoffers hdecl) hvariable
  exact ⟨d, kind, members, hdecl, hkind⟩

end Resolved

end DeclTree

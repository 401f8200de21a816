import DeclTree.Proofs.Agreement
import DeclTree.Proofs.Calls
import DeclTree.Proofs.Rendering

/-!
# Resolution and generation come to an end

Resolving is written with a bound on the depth of visits. Here it is said without one, by rules whose derivations are
finite: `Visits`, `TakesStep` and `CarriesOut` for a declaration, a step and a plan, and `Call.Takes` for a call. Each
derivation lists the declarations that are opened. A derivation exists for every call and leads to what the call gives,
so the bound is never felt, whatever cycles the declaration statements form. What is opened was untouched and is opened
once, so there are no more openings than untouched declarations.

Generating needs no such argument. From any fragment, parts lead down a well-founded order, and at most one declaration
statement is followed on the way, since what it names is written only if it is no function. Marks are not read.
-/

namespace DeclTree

variable {hash : String → Nat}

/-- The untouched declarations of a file are those that are opened, once each, and those that stay untouched. -/
def Spends (before : SourceFile) (opened : List DeclId) (after : SourceFile) : Prop :=
  (opened : Multiset DeclId) + after.fresh.val = before.fresh.val

namespace Spends

variable {before middle after : SourceFile} {opened more : List DeclId}

/-- Where the same declarations stay untouched, none is opened. -/
theorem of_fresh_eq (h : after.fresh = before.fresh) : Spends before [] after := by
  rw [Spends, h, Multiset.coe_nil, Multiset.zero_add]

/-- What is opened in two parts is opened in the whole. -/
theorem trans (first : Spends before opened middle) (second : Spends middle more after) :
    Spends before (opened ++ more) after := by
  rw [Spends, ← Multiset.coe_add, Multiset.add_assoc, second, first]

/-- What is opened depends only on which declarations stay untouched. -/
theorem congr (h : Spends before opened middle) (hfresh : after.fresh = middle.fresh) : Spends before opened after := by
  rw [Spends, hfresh, h]

/-- No declaration is opened twice. -/
theorem nodup (h : Spends before opened after) : opened.Nodup := by
  have hle : (opened : Multiset DeclId) ≤ before.fresh.val := h ▸ Multiset.le_add_right _ _
  exact Multiset.coe_nodup.mp (Multiset.nodup_of_le hle before.fresh.nodup)

/-- What is opened was untouched. -/
theorem untouched (h : Spends before opened after) {id : DeclId} (hid : id ∈ opened) :
    before.mark? id = some .untouched := by
  have hle : (opened : Multiset DeclId) ≤ before.fresh.val := h ▸ Multiset.le_add_right _ _
  exact SourceFile.mem_fresh.mp (Multiset.mem_of_le hle hid)

/-- As many declarations are untouched at the start as are opened and stay untouched. -/
theorem length_add_card (h : Spends before opened after) : opened.length + after.fresh.card = before.fresh.card := by
  have hcard := congrArg Multiset.card h
  rwa [Multiset.card_add, Multiset.coe_card] at hcard

/-- Opening an untouched declaration spends it. -/
theorem start {p : Progress} {id : DeclId} {d : Declaration} (hdecl : p.file.decl? id = some d)
    (hmark : d.mark = .untouched) : Spends p.file [id] (p.start id d).file := by
  have hmark? : p.file.mark? id = some .untouched := SourceFile.mark?_eq_some.mpr ⟨d, hdecl, hmark⟩
  have hfresh : (p.file.setMark id .opened).fresh = p.file.fresh.erase id := by
    ext t
    rw [Finset.mem_erase, SourceFile.mem_fresh, SourceFile.mem_fresh]
    by_cases ht : id = t
    · subst ht
      simp [SourceFile.mark?_setMark_self hmark?]
    · simp [SourceFile.mark?_setMark_of_ne _ ht, Ne.symm ht]
  change (([id] : List DeclId) : Multiset DeclId) + (p.file.setMark id .opened).fresh.val = _
  rw [hfresh, Finset.erase_val, Multiset.coe_singleton, Multiset.singleton_add]
  exact Multiset.cons_erase (SourceFile.mem_fresh.mpr hmark?)

end Spends

/-- An untouched declaration that is opened leaves one less. -/
theorem Progress.card_start {p : Progress} {id : DeclId} {d : Declaration} (hdecl : p.file.decl? id = some d)
    (hmark : d.mark = .untouched) : (p.start id d).file.fresh.card + 1 = p.file.fresh.card := by
  have hspent := (Spends.start hdecl hmark).length_add_card
  rw [List.length_singleton] at hspent
  omega

/-- Closing a declaration that is open leaves the untouched declarations as they are. -/
theorem SourceFile.fresh_setMark_closed {file : SourceFile} {id : DeclId} (h : file.mark? id = some .opened) :
    (file.setMark id .closed).fresh = file.fresh := by
  ext t
  rw [mem_fresh, mem_fresh]
  by_cases ht : id = t
  · subst ht
    simp [mark?_setMark_self h, h]
  · rw [mark?_setMark_of_ne _ ht]

/-- Filling a link leaves the untouched declarations as they are. -/
theorem SourceFile.fresh_setLink (file : SourceFile) (owner : DeclId) (k : Nat) (target : DeclId) :
    (file.setLink owner k target).fresh = file.fresh := by
  ext t
  rw [mem_fresh, mem_fresh, mark?_setLink]

mutual

/-- Visiting a declaration: what is opened, oldest first, and the outcome. A visit that goes on to a plan first opens a
declaration that was untouched. -/
inductive Visits : Scopes hash → DeclId → Progress → List DeclId → Outcome Progress → Prop where
  | absent {scopes id p} (hdecl : p.file.decl? id = none) : Visits scopes id p [] (p, some (p.outOfRange id))
  | closed {scopes id p d} (hdecl : p.file.decl? id = some d) (hmark : d.mark = .closed) :
    Visits scopes id p [] (p, none)
  | opened {scopes id p d} (hdecl : p.file.decl? id = some d) (hmark : d.mark = .opened) :
    Visits scopes id p [] (p, some (.circularType d.name.name d.span))
  | nameless {scopes id p d} (hdecl : p.file.decl? id = some d) (hmark : d.mark = .untouched)
    (hname : d.name.name = "") : Visits scopes id p [] (p, some (.missingIdentifier d.span))
  | planless {scopes id p d} (hdecl : p.file.decl? id = some d) (hmark : d.mark = .untouched)
    (hname : d.name.name ≠ "") (hplan : d.plan? = none) :
    Visits scopes id p [] (p.note (.resolving d.kind.keyword d.name.name),
      some (.unsupportedKind d.kind.keyword d.name.name d.span))
  | finished {scopes id p d plan opened last} (hdecl : p.file.decl? id = some d) (hmark : d.mark = .untouched)
    (hname : d.name.name ≠ "") (hplan : d.plan? = some plan)
    (hrun : CarriesOut id plan ⟨scopes, 0, p.start id d⟩ opened (last, none)) :
    Visits scopes id p (id :: opened) (last.progress.closeDecl id d.name.name, none)
  | stopped {scopes id p d plan opened last error} (hdecl : p.file.decl? id = some d) (hmark : d.mark = .untouched)
    (hname : d.name.name ≠ "") (hplan : d.plan? = some plan)
    (hrun : CarriesOut id plan ⟨scopes, 0, p.start id d⟩ opened (last, some error)) :
    Visits scopes id p (id :: opened) (last.progress, some error)

/-- Carrying out a step. It makes one visit at most, and all it needs to know of visits is the outcome of that one. -/
inductive TakesStep : DeclId → Step → Frame hash → List DeclId → Outcome (Frame hash) → Prop where
  | quiet {owner step frame} (visit : Visit hash) (hvisited : frame.visited? step = none) :
    TakesStep owner step frame [] (runStep visit owner step frame)
  | visits {owner step frame scopes id p opened outcome} (hvisited : frame.visited? step = some (scopes, id, p))
    (hvisit : Visits scopes id p opened outcome) :
    TakesStep owner step frame opened (runStep (fun _ _ _ => outcome) owner step frame)

/-- Carrying out a plan, until a step fails. -/
inductive CarriesOut : DeclId → List Step → Frame hash → List DeclId → Outcome (Frame hash) → Prop where
  | nil {owner frame} : CarriesOut owner [] frame [] (frame, none)
  | fails {owner step rest frame opened next error} (hstep : TakesStep owner step frame opened (next, some error)) :
    CarriesOut owner (step :: rest) frame opened (next, some error)
  | cons {owner step rest frame opened more next outcome} (hstep : TakesStep owner step frame opened (next, none))
    (hrest : CarriesOut owner rest next more outcome) : CarriesOut owner (step :: rest) frame (opened ++ more) outcome

end

/-- Visiting declarations in order, until a visit fails. -/
inductive VisitsAll (scopes : Scopes hash) : List DeclId → Progress → List DeclId → Outcome Progress → Prop where
  | nil {p} : VisitsAll scopes [] p [] (p, none)
  | fails {id rest p opened next error} (hfirst : Visits scopes id p opened (next, some error)) :
    VisitsAll scopes (id :: rest) p opened (next, some error)
  | cons {id rest p opened more next outcome} (hfirst : Visits scopes id p opened (next, none))
    (hrest : VisitsAll scopes rest next more outcome) : VisitsAll scopes (id :: rest) p (opened ++ more) outcome

/-- Carrying out a call: what is opened, oldest first, and the outcome. -/
def Call.Takes (call : Call hash) (p : Progress) (opened : List DeclId) (outcome : Outcome Progress) : Prop :=
  match call with
  | .resolve scopes id => Visits scopes id p opened outcome
  | .resolveFile =>
    match declareAll p.file.items (.root hash) p with
    | ((_, q), some error) => opened = [] ∧ outcome = (q, some error)
    | ((scopes, q), none) =>
      VisitsAll scopes q.file.resolutionOrder (q.note (.rootScope scopes.top.size)) opened outcome

section Steps

variable {visit other : Visit hash} {owner : DeclId} {step : Step} {frame : Frame hash}

/-- A step depends on its visit only. -/
theorem runStep_congr
    (h : ∀ scopes id p, frame.visited? step = some (scopes, id, p) → visit scopes id p = other scopes id p) :
    runStep visit owner step frame = runStep other owner step frame := by
  cases step with
  | link name reach =>
    rw [runStep, runStep, linkNext, linkNext]
    rw [Frame.visited?] at h
    split
    · rfl
    · next target hfind =>
      split
      · rfl
      · next d hdecl =>
        split
        · rfl
        · next hvariable =>
          rw [Bool.not_eq_true] at hvariable
          cases reach with
          | indirect => rfl
          | byValue =>
            have hsame := h frame.scopes target _ (by simp only [hfind, hdecl, hvariable]; rfl)
            simp only [hsame]
  | declare id =>
    rw [runStep, runStep]
    rw [Frame.visited?] at h
    rcases hdeclare : declare frame.scopes id frame.progress with ⟨⟨scopes, p⟩, _ | error⟩
    · have hsame := h scopes id p (by rw [hdeclare])
      simp only [hsame]
    · rfl
  | enter | leave | avoid | reject => rfl

/-- A step makes no visit and keeps the untouched declarations, or it leaves those that its visit leaves. -/
theorem fresh_runStep (visit : Visit hash) (owner : DeclId) (step : Step) (frame : Frame hash) :
    (frame.visited? step = none ∧ (runStep visit owner step frame).1.progress.file.fresh = frame.progress.file.fresh) ∨
      ∃ scopes id p, frame.visited? step = some (scopes, id, p) ∧ p.file = frame.progress.file ∧
        (runStep visit owner step frame).1.progress.file.fresh = (visit scopes id p).1.file.fresh := by
  have hends := runStep_ends visit owner step frame
  generalize runStep visit owner step frame = outcome at hends ⊢
  cases hends with
  | unknown hfind => exact .inl ⟨by simp only [Frame.visited?, hfind], rfl⟩
  | dangling hfind hdecl => exact .inl ⟨by simp only [Frame.visited?, hfind, hdecl], rfl⟩
  | notType hfind hdecl hvariable => exact .inl ⟨by simp only [Frame.visited?, hfind, hdecl, hvariable], rfl⟩
  | @visitFailed name target _ _ _ hfind hdecl hvariable hvisit =>
    refine .inr ⟨frame.scopes, target, frame.progress.note (.linked name.name target .byValue), ?_, rfl, by rw [hvisit]⟩
    simp only [Frame.visited?, hfind, hdecl, hvariable]
  | @stored name target _ _ hfind hdecl hvariable hvisit =>
    refine .inr ⟨frame.scopes, target, frame.progress.note (.linked name.name target .byValue), ?_, rfl, ?_⟩
    · simp only [Frame.visited?, hfind, hdecl, hvariable]
    · rw [hvisit]
      exact SourceFile.fresh_setLink ..
  | referred hfind hdecl hvariable =>
    exact .inl ⟨by simp only [Frame.visited?, hfind, hdecl, hvariable], SourceFile.fresh_setLink ..⟩
  | absent hdecl => exact .inl ⟨by simp only [Frame.visited?, declare, hdecl], rfl⟩
  | nameless hdecl hname => exact .inl ⟨by simp [Frame.visited?, declare, hdecl, hname], rfl⟩
  | repeated hdecl hname hinsert => exact .inl ⟨by simp [Frame.visited?, declare, hdecl, hname, hinsert], rfl⟩
  | @declared id d scopes _ _ hdecl hname hinsert hvisit =>
    refine .inr ⟨scopes, id, frame.progress.note (.declared d.name.name), ?_, rfl, by rw [hvisit]⟩
    simp only [Frame.visited?, declare, hdecl, hname, hinsert, ↓reduceIte]
  | entered | left | unavoidable | collided | avoided | rejected => exact .inl ⟨rfl, rfl⟩

end Steps

/-- A visit function gives what the rules give, where few enough declarations are untouched, and what is opened is
spent. -/
def Visit.Follows (visit : Visit hash) (depth : Nat) : Prop :=
  ∀ scopes id p opened outcome, p.file.fresh.card ≤ depth → Visits scopes id p opened outcome →
    visit scopes id p = outcome ∧ Spends p.file opened outcome.1.file

/-- What a visit function gives has a derivation, where few enough declarations are untouched. -/
def Visit.Derives (visit : Visit hash) (depth : Nat) : Prop :=
  ∀ scopes id p, p.file.fresh.card ≤ depth → ∃ opened, Visits scopes id p opened (visit scopes id p)

section Agreement

variable {visit : Visit hash} {depth : Nat} {owner : DeclId}

/-- A step gives what its rules give. -/
theorem TakesStep.sound (hvisit : visit.Follows depth) {step : Step} {frame : Frame hash} {opened : List DeclId}
    {outcome : Outcome (Frame hash)} (h : TakesStep owner step frame opened outcome)
    (hcard : frame.progress.file.fresh.card ≤ depth) :
    runStep visit owner step frame = outcome ∧ Spends frame.progress.file opened outcome.1.progress.file := by
  cases h with
  | quiet other hvisited =>
    refine ⟨runStep_congr fun _ _ _ h => by simp [hvisited] at h, .of_fresh_eq ?_⟩
    rcases fresh_runStep other owner step frame with ⟨-, hfresh⟩ | ⟨_, _, _, hsome, -⟩
    · exact hfresh
    · simp [hvisited] at hsome
  | @visits _ _ _ scopes id p _ result hvisited hinner =>
    have hunique {scopes' id' p'} (h : frame.visited? step = some (scopes', id', p')) :
        scopes = scopes' ∧ id = id' ∧ p = p' := by simpa [hvisited] using h
    rcases fresh_runStep (fun _ _ _ => result) owner step frame with ⟨hnone, -⟩ | ⟨_, _, _, hsome, hfile, hfresh⟩
    · simp [hvisited] at hnone
    · obtain ⟨rfl, rfl, rfl⟩ := hunique hsome
      obtain ⟨hrun, hspends⟩ := hvisit scopes id p opened result (hfile ▸ hcard) hinner
      refine ⟨runStep_congr fun _ _ _ h => ?_, ?_⟩
      · obtain ⟨rfl, rfl, rfl⟩ := hunique h
        exact hrun
      · rw [Spends, hfresh, ← hfile]
        exact hspends

/-- A plan gives what its rules give. -/
theorem CarriesOut.sound (hvisit : visit.Follows depth) {plan : List Step} {frame : Frame hash} {opened : List DeclId}
    {outcome : Outcome (Frame hash)} (h : CarriesOut owner plan frame opened outcome)
    (hcard : frame.progress.file.fresh.card ≤ depth) :
    runSteps visit owner plan frame = outcome ∧ Spends frame.progress.file opened outcome.1.progress.file := by
  induction plan generalizing frame opened with
  | nil =>
    cases h
    exact ⟨rfl, .of_fresh_eq rfl⟩
  | cons step rest ih =>
    rw [runSteps]
    cases h with
    | fails hstep =>
      obtain ⟨hrun, hspends⟩ := hstep.sound hvisit hcard
      rw [hrun]
      exact ⟨rfl, hspends⟩
    | cons hstep hrest =>
      obtain ⟨hrun, hspends⟩ := hstep.sound hvisit hcard
      have hspent := hspends.length_add_card
      obtain ⟨hruns, hmore⟩ := ih hrest (by dsimp only at hspent; omega)
      rw [hrun]
      exact ⟨hruns, hspends.trans hmore⟩

/-- Every step has a derivation. -/
theorem exists_takesStep (owner : DeclId) (hvisit : visit.Derives depth) (step : Step) {frame : Frame hash}
    (hcard : frame.progress.file.fresh.card ≤ depth) :
    ∃ opened, TakesStep owner step frame opened (runStep visit owner step frame) := by
  rcases fresh_runStep visit owner step frame with ⟨hnone, -⟩ | ⟨scopes, id, p, hsome, hfile, -⟩
  · exact ⟨[], .quiet visit hnone⟩
  · obtain ⟨opened, hinner⟩ := hvisit scopes id p (hfile ▸ hcard)
    have hsame : runStep visit owner step frame = runStep (fun _ _ _ => visit scopes id p) owner step frame := by
      apply runStep_congr
      intro scopes' id' p' h
      obtain ⟨rfl, rfl, rfl⟩ : scopes = scopes' ∧ id = id' ∧ p = p' := by simpa [hsome] using h
      rfl
    rw [hsame]
    exact ⟨opened, .visits hsome hinner⟩

/-- Every plan has a derivation. -/
theorem exists_carriesOut (owner : DeclId) (hfollows : visit.Follows depth) (hvisit : visit.Derives depth)
    (plan : List Step) {frame : Frame hash} (hcard : frame.progress.file.fresh.card ≤ depth) :
    ∃ opened, CarriesOut owner plan frame opened (runSteps visit owner plan frame) := by
  induction plan generalizing frame with
  | nil => exact ⟨[], .nil⟩
  | cons step rest ih =>
    obtain ⟨opened, hstep⟩ := exists_takesStep owner hvisit step hcard
    have hspent := (hstep.sound hfollows hcard).2.length_add_card
    rw [runSteps]
    rcases hrun : runStep visit owner step frame with ⟨next, _ | error⟩
    · rw [hrun] at hstep hspent
      obtain ⟨more, hrest⟩ := ih (by dsimp only at hspent; omega : next.progress.file.fresh.card ≤ depth)
      exact ⟨opened ++ more, .cons hstep hrest⟩
    · rw [hrun] at hstep
      exact ⟨opened, .fails hstep⟩

end Agreement

/-- With as much depth as there are untouched declarations, resolving gives what the rules give. -/
theorem resolveWithin_follows (depth : Nat) : Visit.Follows (resolveWithin depth : Visit hash) depth := by
  induction depth using Nat.strong_induction_on with
  | h depth ih =>
    intro scopes id p opened outcome hcard h
    -- A declaration that is opened leaves one untouched declaration less to the visits in its plan.
    have hdeeper {d : Declaration} (hdecl : p.file.decl? id = some d) (hmark : d.mark = .untouched) :
        ∃ k, depth = k + 1 ∧ (p.start id d).file.fresh.card ≤ k := by
      have hspent := Progress.card_start hdecl hmark
      exact ⟨depth - 1, by omega, by omega⟩
    cases h with
    | absent hdecl => exact ⟨by simp [resolveWithin.eq_def, hdecl], .of_fresh_eq rfl⟩
    | closed hdecl hmark => exact ⟨by simp [resolveWithin.eq_def, hdecl, hmark], .of_fresh_eq rfl⟩
    | opened hdecl hmark => exact ⟨by simp [resolveWithin.eq_def, hdecl, hmark], .of_fresh_eq rfl⟩
    | nameless hdecl hmark hname => exact ⟨by simp [resolveWithin.eq_def, hdecl, hmark, hname], .of_fresh_eq rfl⟩
    | planless hdecl hmark hname hplan =>
      exact ⟨by simp [resolveWithin.eq_def, hdecl, hmark, hname, hplan], .of_fresh_eq rfl⟩
    | @finished _ _ _ d plan opened last hdecl hmark hname hplan hrun =>
      obtain ⟨k, rfl, hstart⟩ := hdeeper hdecl hmark
      obtain ⟨hruns, hspends⟩ := hrun.sound (ih k k.lt_succ_self) hstart
      have hadvances := runSteps_advances (resolveWithin_lawful k) (Progress.mark?_start scopes hdecl) plan
      rw [hruns] at hadvances
      refine ⟨?_, (Spends.start hdecl hmark).trans (hspends.congr ?_)⟩
      · rw [Progress.start] at hruns
        simp [resolveWithin.eq_def (k + 1), hdecl, hmark, hname, hplan, hruns]
      · exact SourceFile.fresh_setMark_closed hadvances.1.opened
    | @stopped _ _ _ d plan opened last error hdecl hmark hname hplan hrun =>
      obtain ⟨k, rfl, hstart⟩ := hdeeper hdecl hmark
      obtain ⟨hruns, hspends⟩ := hrun.sound (ih k k.lt_succ_self) hstart
      refine ⟨?_, (Spends.start hdecl hmark).trans hspends⟩
      rw [Progress.start] at hruns
      simp [resolveWithin.eq_def (k + 1), hdecl, hmark, hname, hplan, hruns]

/-- With as much depth as there are untouched declarations, every visit has a derivation. -/
theorem resolveWithin_derives (depth : Nat) : Visit.Derives (resolveWithin depth : Visit hash) depth := by
  induction depth using Nat.strong_induction_on with
  | h depth ih =>
    intro scopes id p hcard
    have hplan {d : Declaration} (hdecl : p.file.decl? id = some d) (hmark : d.mark = .untouched) (plan : List Step)
        {visit : Visit hash} (hvisit : deeper? depth = some visit) :
        ∃ opened, CarriesOut id plan ⟨scopes, 0, p.start id d⟩ opened
          (runSteps visit id plan ⟨scopes, 0, p.start id d⟩) := by
      have hspent := Progress.card_start hdecl hmark
      cases depth with
      | zero => cases hvisit
      | succ k =>
        obtain rfl := Option.some.inj hvisit
        exact exists_carriesOut id (resolveWithin_follows k) (ih k k.lt_succ_self) plan (by dsimp only; omega)
    have hends := resolveWithin_ends depth scopes id p
    generalize resolveWithin depth scopes id p = outcome at hends ⊢
    cases hends with
    | absent hdecl => exact ⟨[], .absent hdecl⟩
    | closed hdecl hmark => exact ⟨[], .closed hdecl hmark⟩
    | opened hdecl hmark => exact ⟨[], .opened hdecl hmark⟩
    | nameless hdecl hmark hname => exact ⟨[], .nameless hdecl hmark hname⟩
    | planless hdecl hmark hname hnone => exact ⟨[], .planless hdecl hmark hname hnone⟩
    | @finished d plan visit last hdecl hmark hname hsome hdeeper hrun =>
      obtain ⟨opened, hcarries⟩ := hplan hdecl hmark plan hdeeper
      rw [hrun] at hcarries
      exact ⟨id :: opened, .finished hdecl hmark hname hsome hcarries⟩
    | @stopped d plan visit last error hdecl hmark hname hsome hdeeper hrun =>
      obtain ⟨opened, hcarries⟩ := hplan hdecl hmark plan hdeeper
      rw [hrun] at hcarries
      exact ⟨id :: opened, .stopped hdecl hmark hname hsome hcarries⟩
    | exhausted hdecl hmark hname hsome hnone =>
      have hspent := Progress.card_start hdecl hmark
      cases depth with
      | zero => omega
      | succ k => cases hnone

/-- Resolving declarations in order gives what the rules give. -/
theorem VisitsAll.sound {scopes : Scopes hash} {ids : List DeclId} {p : Progress} {opened : List DeclId}
    {outcome : Outcome Progress} (h : VisitsAll scopes ids p opened outcome) :
    resolveAll scopes ids p = outcome ∧ Spends p.file opened outcome.1.file := by
  induction h with
  | nil => exact ⟨rfl, .of_fresh_eq rfl⟩
  | @fails id rest p opened next error hfirst =>
    obtain ⟨hrun, hspends⟩ := resolveWithin_follows _ scopes id p _ _ p.file.card_fresh_le hfirst
    rw [resolveAll, resolve, hrun]
    exact ⟨rfl, hspends⟩
  | @cons id rest p opened more next outcome hfirst hrest ih =>
    obtain ⟨hrun, hspends⟩ := resolveWithin_follows _ scopes id p _ _ p.file.card_fresh_le hfirst
    rw [resolveAll, resolve, hrun]
    exact ⟨ih.1, hspends.trans ih.2⟩

/-- The resolver gives an outcome of visiting declarations in order that the rules give too. -/
theorem exists_visitsAll (scopes : Scopes hash) (ids : List DeclId) (p : Progress) :
    ∃ opened, VisitsAll scopes ids p opened (resolveAll scopes ids p) := by
  induction ids generalizing p with
  | nil => exact ⟨[], .nil⟩
  | cons id rest ih =>
    obtain ⟨opened, hfirst⟩ := resolveWithin_derives _ scopes id p p.file.card_fresh_le
    rw [resolveAll, resolve]
    rcases hrun : resolveWithin p.file.declarations.length scopes id p with ⟨next, _ | error⟩
    · rw [hrun] at hfirst
      obtain ⟨more, hrest⟩ := ih next
      exact ⟨opened ++ more, .cons hfirst hrest⟩
    · rw [hrun] at hfirst
      exact ⟨opened, .fails hfirst⟩

/-- A call gives what the rules give. -/
theorem Call.Takes.sound {call : Call hash} {p : Progress} {opened : List DeclId} {outcome : Outcome Progress}
    (h : call.Takes p opened outcome) : call.run p = outcome ∧ Spends p.file opened outcome.1.file := by
  cases call with
  | resolve scopes id => exact resolveWithin_follows _ scopes id p _ _ p.file.card_fresh_le h
  | resolveFile =>
    have hstill := (declareAll_still p.file.items (.root hash) p).1
    rw [Call.Takes] at h
    change DeclTree.resolveFile hash p = outcome ∧ _
    rw [DeclTree.resolveFile]
    rcases hdeclare : declareAll p.file.items (.root hash) p with ⟨⟨scopes, q⟩, _ | error⟩
    · simp only [hdeclare] at h hstill ⊢
      have hsound := h.sound
      rw [show (q.note (.rootScope scopes.top.size)).file = p.file from hstill] at hsound
      exact hsound
    · simp only [hdeclare] at h hstill ⊢
      obtain ⟨rfl, rfl⟩ := h
      exact ⟨rfl, .of_fresh_eq (congrArg SourceFile.fresh hstill)⟩

/-- Every call has a derivation. -/
theorem Call.exists_takes (call : Call hash) (p : Progress) : ∃ opened, call.Takes p opened (call.run p) := by
  cases call with
  | resolve scopes id => exact resolveWithin_derives _ scopes id p p.file.card_fresh_le
  | resolveFile =>
    change ∃ opened, Call.Takes .resolveFile p opened (DeclTree.resolveFile hash p)
    simp only [Call.Takes, DeclTree.resolveFile]
    rcases declareAll p.file.items (.root hash) p with ⟨⟨scopes, q⟩, _ | error⟩
    · exact exists_visitsAll scopes _ _
    · exact ⟨[], rfl, rfl⟩

/-- Rendering a fragment comes to another one, and follows a number of declaration statements on the way. -/
inductive Fragment.Walk (file : SourceFile) (f : Fragment) : Nat → Fragment → Prop where
  | start : Walk file f 0 f
  | within {n g part} (h : Walk file f n g) (hstmt : ∀ id span, g ≠ .stmt (.declaration id span))
    (hpart : part ∈ g.parts file) : Walk file f n part
  | follow {n id span part} (h : Walk file f n (.stmt (.declaration id span)))
    (hpart : part ∈ (Fragment.stmt (.declaration id span)).parts file) : Walk file f (n + 1) part

namespace Fragment

variable {file : SourceFile}

/-- The parts of a fragment are at no higher level than the fragment. -/
theorem level_le_of_mem_parts {f part : Fragment} (h : part ∈ f.parts file) : part.level ≤ f.level := by
  rcases below_of_mem_parts h with hlt | ⟨heq, -⟩
  · exact hlt.le
  · exact heq.le

/-- What a declaration statement is written from is no function, and so has no statements. -/
theorem level_le_of_declaration {id : DeclId} {span : Span} {part : Fragment}
    (h : part ∈ (stmt (.declaration id span)).parts file) : part.level ≤ 1 := by
  obtain ⟨d, -, hpart⟩ := List.mem_flatMap.mp h
  split at hpart
  · cases hpart
  · next hfunction =>
    obtain rfl := List.mem_singleton.mp hpart
    rw [level, if_neg hfunction]

/-- Below a declaration statement no other one is met. -/
theorem Walk.level_le {f g : Fragment} {n : Nat} (h : Walk file f n g) : n = 0 ∨ (n = 1 ∧ g.level ≤ 1) := by
  induction h with
  | start => exact .inl rfl
  | within _ _ hpart ih =>
    rcases ih with hzero | ⟨hone, hlevel⟩
    · exact .inl hzero
    · exact .inr ⟨hone, (level_le_of_mem_parts hpart).trans hlevel⟩
  | follow _ hpart ih =>
    rcases ih with rfl | ⟨-, hlevel⟩
    · exact .inr ⟨rfl, level_le_of_declaration hpart⟩
    · exact absurd hlevel (by decide : ¬2 ≤ 1)

/-- Walks can be continued. -/
theorem Walk.part {f g part : Fragment} {n : Nat} (h : Walk file f n g) (hpart : part ∈ g.parts file) :
    ∃ m, Walk file f m part := by
  by_cases hstmt : ∃ id span, g = .stmt (.declaration id span)
  · obtain ⟨id, span, rfl⟩ := hstmt
    exact ⟨n + 1, h.follow hpart⟩
  · exact ⟨n, h.within (fun id span heq => hstmt ⟨id, span, heq⟩) hpart⟩

/-- What is rendered is what walks from the items come to. -/
theorem rendered_iff_walk {g : Fragment} :
    Rendered file g ↔ ∃ d ∈ Lowering.emissionOrder file, ∃ n, Walk file (.declaration d) n g := by
  constructor
  · intro h
    induction h with
    | item hitem hdecl => exact ⟨_, mem_emissionOrder.mpr ⟨_, hitem, hdecl⟩, 0, .start⟩
    | part _ hpart ih =>
      obtain ⟨d, hd, n, hwalk⟩ := ih
      exact ⟨d, hd, hwalk.part hpart⟩
  · rintro ⟨d, hd, n, hwalk⟩
    obtain ⟨id, hitem, hdecl⟩ := mem_emissionOrder.mp hd
    induction hwalk with
    | start => exact .item hitem hdecl
    | within _ _ hpart ih => exact .part ih hpart
    | follow _ hpart ih => exact .part ih hpart

end Fragment

/-- Resolution and generation come to an end on every file, whatever its marks, its links and the tables are and
whatever cycles its declaration statements form. A call of the resolver has a derivation by rules without a bound, and
only its own outcome has one; each visit that goes on to a plan opens a declaration that was untouched before the call,
and no two open the same one. Generation walks down a well-founded order, follows one declaration statement at most from
any fragment, succeeds exactly if nothing on its walks is in the way, and reads no marks. -/
theorem resolution_and_generation_terminate :
    (∀ (call : Call hash) (p : Progress), (∃ opened, call.Takes p opened (call.run p)) ∧
      ∀ opened outcome, call.Takes p opened outcome → outcome = call.run p ∧ opened.Nodup ∧
        (∀ id ∈ opened, p.file.mark? id = some .untouched) ∧
        opened.length + outcome.1.file.fresh.card = p.file.fresh.card) ∧
    ∀ file : SourceFile, (WellFounded fun part f : Fragment => part ∈ f.parts file) ∧
      (∀ f n g, Fragment.Walk file f n g → n ≤ 1) ∧
      (∀ banner, (∃ text, (generate file banner).2 = .ok text) ↔
        ∀ d ∈ Lowering.emissionOrder file, ∀ n f, Fragment.Walk file (.declaration d) n f → f.obstacle? file = none) ∧
      ∀ other banner, other.unmarked = file.unmarked → generate other banner = generate file banner := by
  constructor
  · intro call p
    refine ⟨call.exists_takes p, fun opened outcome htakes => ?_⟩
    obtain ⟨hrun, hspends⟩ := htakes.sound
    exact ⟨hrun.symm, hspends.nodup, fun _ hid => hspends.untouched hid, hspends.length_add_card⟩
  · intro file
    refine ⟨Subrelation.wf Fragment.below_of_mem_parts Fragment.below_wellFounded, fun f n g hwalk => ?_,
      fun banner => ?_, fun other banner hsame => generate_of_unmarked hsame banner⟩
    · rcases hwalk.level_le with hzero | ⟨hone, -⟩ <;> omega
    · rw [exists_text_iff]
      simp only [Fragment.rendered_iff_walk]
      exact ⟨fun h d hd n f hwalk => h f ⟨d, hd, n, hwalk⟩, fun h f hf => by
        obtain ⟨d, hd, n, hwalk⟩ := hf
        exact h d hd n f hwalk⟩

/-- Two functions that declare each other. -/
def entangled : SourceFile :=
  let here := Span.nowhere
  let declaring (id : DeclId) : DeclKind := .constant none (.function ⟨[], .primitive .void here, here⟩
    (.block [.statement (.declaration id here)] here) here)
  ⟨[⟨⟨"f", here⟩, declaring 1, here, .untouched⟩, ⟨⟨"g", here⟩, declaring 0, here, .untouched⟩], [0]⟩

/-- Resolving the first function opens both of them, and the second visit of the first one is refused as circular. No
walk of generation goes round. -/
theorem entangled_terminates :
    (∃ opened, (Call.resolveFile : Call nameHash).Takes ⟨entangled, []⟩ opened
        (resolveFile nameHash ⟨entangled, []⟩) ∧ opened.length = 2) ∧
      (resolveFile nameHash ⟨entangled, []⟩).2 = some (.circularType "f" .nowhere) ∧
      ∀ f n g, Fragment.Walk entangled f n g → n ≤ 1 := by
  obtain ⟨hcalls, hfiles⟩ := resolution_and_generation_terminate
  obtain ⟨⟨opened, htakes⟩, hlaws⟩ := hcalls .resolveFile ⟨entangled, []⟩
  obtain ⟨-, -, -, hspent⟩ := hlaws opened _ htakes
  have hbefore : entangled.fresh.card = 2 := by decide
  have hafter : ((Call.resolveFile : Call nameHash).run ⟨entangled, []⟩).1.file.fresh.card = 0 := by decide +kernel
  refine ⟨⟨opened, htakes, ?_⟩, by decide +kernel, (hfiles entangled).2.1⟩
  dsimp only at hspent
  omega

end DeclTree

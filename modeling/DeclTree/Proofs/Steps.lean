import DeclTree.Proofs.Growth

/-!
# Carrying out steps

`StepEnds` lists everything that one step of a plan can do, and `runStep_ends` says that nothing else happens; what a
whole plan keeps follows from what each step keeps (`runSteps_meets`). Whatever a visit does, it advances the file, and
when it succeeds it leaves its declaration closed and nothing open that was not open before (`Visit.Lawful`). The rule
`resolveWithin_meets` proves a statement about every visit from the five ways in which a visit ends at once and from one
run of a plan, in which smaller visits may be assumed to meet the statement; the bound on the depth of visits is used
up there and does not occur in it.
-/

namespace DeclTree

variable {hash : String → Nat}

/-- An outcome succeeds with a state or fails with a state and an error as stated. -/
def Outcome.Meets {σ : Type} (outcome : Outcome σ) (success : σ → Prop) (failure : σ → Error → Prop) : Prop :=
  match outcome with
  | (state, none) => success state
  | (state, some error) => failure state error

/-- What is said of an outcome may be weakened. -/
theorem Outcome.Meets.imp {σ : Type} {outcome : Outcome σ} {success success' : σ → Prop}
    {failure failure' : σ → Error → Prop} (h : outcome.Meets success failure)
    (hsuccess : ∀ state, success state → success' state)
    (hfailure : ∀ state error, failure state error → failure' state error) : outcome.Meets success' failure' := by
  rcases outcome with ⟨state, _ | error⟩
  · exact hsuccess state h
  · exact hfailure state error h

/-- What is said of an outcome twice holds together. -/
theorem Outcome.Meets.and {σ : Type} {outcome : Outcome σ} {success success' : σ → Prop}
    {failure failure' : σ → Error → Prop} (h : outcome.Meets success failure) (h' : outcome.Meets success' failure') :
    outcome.Meets (fun state => success state ∧ success' state)
      (fun state error => failure state error ∧ failure' state error) := by
  rcases outcome with ⟨state, _ | error⟩ <;> exact ⟨h, h'⟩

/-- What a name stands for in a chain of tables. -/
abbrev Scopes.lookup (scopes : Scopes hash) (name : String) : Option DeclId := scopes.find? name

/-- The frame after a link of the owner has been filled. -/
def Frame.fill (frame : Frame hash) (owner target : DeclId) (p : Progress) : Frame hash :=
  { frame with
    filled := frame.filled + 1
    progress := { p with file := p.file.setLink owner frame.filled target } }

/-- Everything that carrying out one step can do. -/
inductive StepEnds (visit : Visit hash) (owner : DeclId) (frame : Frame hash) : Step → Outcome (Frame hash) → Prop where
  | unknown {name reach} (hfind : frame.scopes.lookup name.name = none) :
    StepEnds visit owner frame (.link name reach) (frame, some (.unknownType name.name name.span))
  | dangling {name reach target} (hfind : frame.scopes.lookup name.name = some target)
    (hdecl : frame.progress.file.decl? target = none) :
    StepEnds visit owner frame (.link name reach) (frame, some (frame.progress.outOfRange target))
  | notType {name reach target d} (hfind : frame.scopes.lookup name.name = some target)
    (hdecl : frame.progress.file.decl? target = some d) (hvariable : d.isVariable = true) :
    StepEnds visit owner frame (.link name reach) (frame, some (.notAType name.name name.span))
  | visitFailed {name target d p error} (hfind : frame.scopes.lookup name.name = some target)
    (hdecl : frame.progress.file.decl? target = some d) (hvariable : d.isVariable = false)
    (hvisit : visit frame.scopes target (frame.progress.note (.linked name.name target .byValue)) = (p, some error)) :
    StepEnds visit owner frame (.link name .byValue) ({ frame with progress := p }, some error)
  | stored {name target d p} (hfind : frame.scopes.lookup name.name = some target)
    (hdecl : frame.progress.file.decl? target = some d) (hvariable : d.isVariable = false)
    (hvisit : visit frame.scopes target (frame.progress.note (.linked name.name target .byValue)) = (p, none)) :
    StepEnds visit owner frame (.link name .byValue) (frame.fill owner target p, none)
  | referred {name target d} (hfind : frame.scopes.lookup name.name = some target)
    (hdecl : frame.progress.file.decl? target = some d) (hvariable : d.isVariable = false) :
    StepEnds visit owner frame (.link name .indirect)
      (frame.fill owner target (frame.progress.note (.linked name.name target .indirect)), none)
  | entered : StepEnds visit owner frame .enter ({ frame with scopes := frame.scopes.push }, none)
  | left : StepEnds visit owner frame .leave ({ frame with scopes := frame.scopes.pop?.getD frame.scopes }, none)
  | absent {id} (hdecl : frame.progress.file.decl? id = none) :
    StepEnds visit owner frame (.declare id) (frame, some (frame.progress.outOfRange id))
  | nameless {id d} (hdecl : frame.progress.file.decl? id = some d) (hname : d.name.name = "") :
    StepEnds visit owner frame (.declare id) (frame, some (.missingIdentifier d.span))
  | repeated {id d} (hdecl : frame.progress.file.decl? id = some d) (hname : d.name.name ≠ "")
    (hinsert : frame.scopes.insert? d.name.name id = none) :
    StepEnds visit owner frame (.declare id)
      ({ frame with progress := frame.progress.note (.alreadyDeclared d.name.name) },
        some (.duplicateDeclaration d.name.name d.span))
  | declared {id d scopes p result} (hdecl : frame.progress.file.decl? id = some d) (hname : d.name.name ≠ "")
    (hinsert : frame.scopes.insert? d.name.name id = some scopes)
    (hvisit : visit scopes id (frame.progress.note (.declared d.name.name)) = (p, result)) :
    StepEnds visit owner frame (.declare id) ({ frame with scopes := scopes, progress := p }, result)
  | unavoidable {names id span} (hdecl : frame.progress.file.decl? id = none) :
    StepEnds visit owner frame (.avoid names id span) (frame, some (frame.progress.outOfRange id))
  | collided {names id span d} (hdecl : frame.progress.file.decl? id = some d) (hname : d.name.name ∈ names) :
    StepEnds visit owner frame (.avoid names id span) (frame, some (.duplicateDeclaration d.name.name span))
  | avoided {names id span d} (hdecl : frame.progress.file.decl? id = some d) (hname : d.name.name ∉ names) :
    StepEnds visit owner frame (.avoid names id span) (frame, none)
  | rejected {error} : StepEnds visit owner frame (.reject error) (frame, some error)

/-- Nothing but what `StepEnds` lists happens. -/
theorem runStep_ends (visit : Visit hash) (owner : DeclId) (step : Step) (frame : Frame hash) :
    StepEnds visit owner frame step (runStep visit owner step frame) := by
  cases step with
  | link name reach =>
    rw [runStep, linkNext]
    split
    · next hfind => exact .unknown hfind
    · next target hfind =>
      split
      · next hdecl => exact .dangling hfind hdecl
      · next d hdecl =>
        split
        · next hvariable => exact .notType hfind hdecl hvariable
        · next hvariable =>
          rw [Bool.not_eq_true] at hvariable
          cases reach with
          | byValue =>
            rcases hvisit : visit frame.scopes target (frame.progress.note (.linked name.name target .byValue)) with
              ⟨p, _ | error⟩
            · simp only [hvisit]
              exact .stored hfind hdecl hvariable hvisit
            · simp only [hvisit]
              exact .visitFailed hfind hdecl hvariable hvisit
          | indirect => exact .referred hfind hdecl hvariable
  | enter => exact .entered
  | leave => exact .left
  | declare id =>
    rw [runStep, declare]
    cases hdecl : frame.progress.file.decl? id with
    | none => exact .absent hdecl
    | some d =>
      by_cases hname : d.name.name = ""
      · simp only [hname, ↓reduceIte]
        exact .nameless hdecl hname
      · simp only [hname, ↓reduceIte]
        cases hinsert : frame.scopes.insert? d.name.name id with
        | none => exact .repeated hdecl hname hinsert
        | some scopes => exact .declared hdecl hname hinsert rfl
  | avoid names id span =>
    rw [runStep]
    split
    · next hdecl => exact .unavoidable hdecl
    · next d hdecl =>
      split
      · next hname => exact .collided hdecl hname
      · next hname => exact .avoided hdecl hname
  | reject error => exact .rejected

/-- What every step keeps is kept by a plan: `state done frame` holds of the frame that is reached when the steps `done`
of the plan have been carried out. -/
theorem runSteps_meets {visit : Visit hash} {owner : DeclId} {plan : List Step} {start : Frame hash}
    (state : List Step → Frame hash → Prop) {failure : Frame hash → Error → Prop} (hstart : state [] start)
    (hstep : ∀ done step rest frame, plan = done ++ step :: rest → state done frame →
      (runStep visit owner step frame).Meets (state (done ++ [step])) failure) :
    (runSteps visit owner plan start).Meets (state plan) failure := by
  -- The induction is on the steps that are left, with those that are done in front of them.
  suffices hrun : ∀ rest done frame, plan = done ++ rest → state done frame →
      (runSteps visit owner rest frame).Meets (state plan) failure from hrun plan [] start rfl hstart
  intro rest
  induction rest with
  | nil =>
    intro done frame hplan hframe
    rw [List.append_nil] at hplan
    exact hplan ▸ hframe
  | cons step rest ih =>
    intro done frame hplan hframe
    have hnext := hstep done step rest frame hplan hframe
    rw [runSteps]
    rcases hrun : runStep visit owner step frame with ⟨next, _ | error⟩
    · rw [hrun] at hnext
      exact ih (done ++ [step]) next (by simpa using hplan) hnext
    · rw [hrun] at hnext
      exact hnext

/-- What can be said of every visit, whatever its scopes and its declaration are: the file advances, and when the visit
succeeds its declaration is closed and nothing is open that was not open before. -/
def Visit.Lawful (visit : Visit hash) : Prop :=
  ∀ scopes id p, (visit scopes id p).Meets
    (fun p' => Advances none p.file p'.file ∧ p'.file.mark? id = some .closed ∧
      ∀ t, p'.file.mark? t = some .opened → p.file.mark? t = some .opened)
    (fun p' _ => Advances none p.file p'.file)

namespace Visit.Lawful

variable {visit : Visit hash} {scopes : Scopes hash} {id : DeclId} {p p' : Progress}

/-- The file advances with every visit. -/
theorem advances (h : visit.Lawful) {result : Option Error} (hrun : visit scopes id p = (p', result)) :
    Advances none p.file p'.file := by
  have hends := h scopes id p
  rw [hrun] at hends
  cases result with
  | none => exact hends.1
  | some error => exact hends

/-- A visit that succeeds closes its declaration. -/
theorem closes (h : visit.Lawful) (hrun : visit scopes id p = (p', none)) : p'.file.mark? id = some .closed := by
  have hends := h scopes id p
  rw [hrun] at hends
  exact hends.2.1

/-- After a visit that succeeds, nothing is open that was not open before. -/
theorem settles (h : visit.Lawful) (hrun : visit scopes id p = (p', none)) {t : DeclId}
    (ht : p'.file.mark? t = some .opened) : p.file.mark? t = some .opened := by
  have hends := h scopes id p
  rw [hrun] at hends
  exact hends.2.2 t ht

end Visit.Lawful

/-- What carrying out steps of an open declaration does to the file. -/
structure Frame.Advances (owner : DeclId) (before after : Frame hash) : Prop where
  file : DeclTree.Advances (some owner) before.progress.file after.progress.file
  /-- The owner stays open. -/
  opened : after.progress.file.mark? owner = some .opened

namespace Frame.Advances

variable {owner : DeclId} {before middle after : Frame hash}

/-- Carrying out no steps of an open declaration does nothing. -/
theorem refl {frame : Frame hash} (hopen : frame.progress.file.mark? owner = some .opened) :
    Frame.Advances owner frame frame := ⟨.refl _ _, hopen⟩

/-- Steps of an open declaration in a row advance the file. -/
theorem trans (first : Frame.Advances owner before middle) (second : Frame.Advances owner middle after) :
    Frame.Advances owner before after := ⟨first.file.trans second.file, second.opened⟩

/-- A visit advances the frame of an open declaration. -/
theorem ofVisit {scopes : Scopes hash} {p : Progress} (hopen : before.progress.file.mark? owner = some .opened)
    (h : DeclTree.Advances none before.progress.file p.file) :
    Frame.Advances owner before { before with scopes := scopes, progress := p } :=
  ⟨h.weaken _, h.mark?_eq hopen (by decide)⟩

/-- Filling a link advances the frame of an open declaration. -/
theorem fill {target : DeclId} {p : Progress} (hopen : before.progress.file.mark? owner = some .opened)
    (h : DeclTree.Advances none before.progress.file p.file) :
    Frame.Advances owner before (before.fill owner target p) := by
  refine ⟨(h.weaken _).trans ?_, ?_⟩
  · exact DeclTree.Advances.setLink _ _ _ _
  · obtain ⟨d, hd, hmark⟩ := SourceFile.mark?_eq_some.mp (h.mark?_eq hopen (by decide))
    exact SourceFile.mark?_eq_some.mpr ⟨_, SourceFile.decl?_update_self hd _, hmark⟩

end Frame.Advances

/-- A step advances the frame, and leaves nothing open that was not open before it unless it fails. -/
theorem runStep_advances {visit : Visit hash} (hvisit : visit.Lawful) {owner : DeclId} {frame : Frame hash}
    (hopen : frame.progress.file.mark? owner = some .opened) (step : Step) :
    (runStep visit owner step frame).Meets
      (fun next => Frame.Advances owner frame next ∧
        ∀ t, next.progress.file.mark? t = some .opened → frame.progress.file.mark? t = some .opened)
      (fun next _ => Frame.Advances owner frame next) := by
  have hends := runStep_ends visit owner step frame
  generalize runStep visit owner step frame = outcome at hends ⊢
  cases hends with
  | unknown hfind => exact .refl hopen
  | dangling hfind hdecl => exact .refl hopen
  | notType hfind hdecl hvariable => exact .refl hopen
  | visitFailed hfind hdecl hvariable hrun =>
    have hadvances := hvisit.advances hrun
    exact .ofVisit hopen hadvances
  | stored hfind hdecl hvariable hrun =>
    have hadvances := hvisit.advances hrun
    refine ⟨.fill hopen hadvances, fun t ht => ?_⟩
    rw [Frame.fill, SourceFile.mark?_setLink] at ht
    exact hvisit.settles hrun ht
  | referred hfind hdecl hvariable =>
    refine ⟨.fill hopen (.refl _ _), fun t ht => ?_⟩
    rw [Frame.fill, SourceFile.mark?_setLink] at ht
    exact ht
  | entered => exact ⟨.ofVisit hopen (.refl _ _), fun _ h => h⟩
  | left => exact ⟨.ofVisit hopen (.refl _ _), fun _ h => h⟩
  | absent hdecl => exact .refl hopen
  | nameless hdecl hname => exact .refl hopen
  | repeated hdecl hname hinsert => exact .ofVisit hopen (.refl _ _)
  | @declared _ _ _ _ result hdecl hname hinsert hrun =>
    have hadvances := hvisit.advances hrun
    cases result with
    | none => exact ⟨.ofVisit hopen hadvances, fun _ ht => hvisit.settles hrun ht⟩
    | some error => exact .ofVisit hopen hadvances
  | unavoidable hdecl => exact .refl hopen
  | collided hdecl hname => exact .refl hopen
  | avoided hdecl hname => exact ⟨.refl hopen, fun _ h => h⟩
  | rejected => exact .refl hopen

/-- Carrying out a plan advances the frame, and leaves nothing open that was not open before unless it fails. -/
theorem runSteps_advances {visit : Visit hash} (hvisit : visit.Lawful) {owner : DeclId} {start : Frame hash}
    (hopen : start.progress.file.mark? owner = some .opened) (plan : List Step) :
    (runSteps visit owner plan start).Meets
      (fun last => Frame.Advances owner start last ∧
        ∀ t, last.progress.file.mark? t = some .opened → start.progress.file.mark? t = some .opened)
      (fun last _ => Frame.Advances owner start last) := by
  refine runSteps_meets (fun _ frame => Frame.Advances owner start frame ∧
      ∀ t, frame.progress.file.mark? t = some .opened → start.progress.file.mark? t = some .opened)
    ⟨.refl hopen, fun _ h => h⟩ ?_
  intro done step rest frame _ ⟨hframe, hsettled⟩
  have hstep := runStep_advances hvisit hframe.opened step
  rcases hrun : runStep visit owner step frame with ⟨next, _ | error⟩
  · rw [hrun] at hstep
    exact ⟨hframe.trans hstep.1, fun t ht => hsettled t (hstep.2 t ht)⟩
  · rw [hrun] at hstep
    exact hframe.trans hstep

/-- What every step keeps is kept by the plan of an open declaration. How far the file has advanced is known at each
step and at the end. -/
theorem runPlan_meets {visit : Visit hash} (hvisit : visit.Lawful) {owner : DeclId} {plan : List Step}
    {start : Frame hash} (hopen : start.progress.file.mark? owner = some .opened)
    (state : List Step → Frame hash → Prop) {failure : Frame hash → Error → Prop} (hstart : state [] start)
    (hstep : ∀ done step rest frame, plan = done ++ step :: rest → Frame.Advances owner start frame →
      (∀ t, frame.progress.file.mark? t = some .opened → start.progress.file.mark? t = some .opened) →
      state done frame → (runStep visit owner step frame).Meets (state (done ++ [step])) failure) :
    (runSteps visit owner plan start).Meets (fun last => Frame.Advances owner start last ∧ state plan last)
      failure := by
  have hrun : (runSteps visit owner plan start).Meets
      (fun last => (Frame.Advances owner start last ∧
        ∀ t, last.progress.file.mark? t = some .opened → start.progress.file.mark? t = some .opened) ∧ state plan last)
      failure := by
    refine runSteps_meets (fun done frame => (Frame.Advances owner start frame ∧
        ∀ t, frame.progress.file.mark? t = some .opened → start.progress.file.mark? t = some .opened) ∧
        state done frame)
      ⟨⟨.refl hopen, fun _ h => h⟩, hstart⟩ ?_
    intro done step rest frame hplan ⟨⟨hframe, hsettled⟩, hstate⟩
    have hnext := hstep done step rest frame hplan hframe hsettled hstate
    have hadvances := runStep_advances hvisit hframe.opened step
    rcases hends : runStep visit owner step frame with ⟨next, _ | error⟩
    · rw [hends] at hnext hadvances
      exact ⟨⟨hframe.trans hadvances.1, fun t ht => hsettled t (hadvances.2 t ht)⟩, hnext⟩
    · rw [hends] at hnext
      exact hnext
  exact hrun.imp (fun _ h => ⟨h.1.1, h.2⟩) fun _ _ h => h

/-- The state in which the plan of an untouched declaration starts. -/
def Progress.start (p : Progress) (id : DeclId) (d : Declaration) : Progress :=
  (p.note (.resolving d.kind.keyword d.name.name)).openDecl id d.name.name

/-- Everything that visiting a declaration can do; `deeper` is how the declarations met on the way are visited, and is
absent when there is no depth left. -/
inductive VisitEnds (deeper : Option (Visit hash)) (scopes : Scopes hash) (id : DeclId) (p : Progress) :
    Outcome Progress → Prop where
  | absent (hdecl : p.file.decl? id = none) : VisitEnds deeper scopes id p (p, some (p.outOfRange id))
  | closed {d} (hdecl : p.file.decl? id = some d) (hmark : d.mark = .closed) : VisitEnds deeper scopes id p (p, none)
  | opened {d} (hdecl : p.file.decl? id = some d) (hmark : d.mark = .opened) :
    VisitEnds deeper scopes id p (p, some (.circularType d.name.name d.span))
  | nameless {d} (hdecl : p.file.decl? id = some d) (hmark : d.mark = .untouched) (hname : d.name.name = "") :
    VisitEnds deeper scopes id p (p, some (.missingIdentifier d.span))
  | planless {d} (hdecl : p.file.decl? id = some d) (hmark : d.mark = .untouched) (hname : d.name.name ≠ "")
    (hplan : d.plan? = none) :
    VisitEnds deeper scopes id p (p.note (.resolving d.kind.keyword d.name.name),
      some (.unsupportedKind d.kind.keyword d.name.name d.span))
  | finished {d plan visit last} (hdecl : p.file.decl? id = some d) (hmark : d.mark = .untouched)
    (hname : d.name.name ≠ "") (hplan : d.plan? = some plan) (hdeeper : deeper = some visit)
    (hrun : runSteps visit id plan ⟨scopes, 0, p.start id d⟩ = (last, none)) :
    VisitEnds deeper scopes id p (last.progress.closeDecl id d.name.name, none)
  | stopped {d plan visit last error} (hdecl : p.file.decl? id = some d) (hmark : d.mark = .untouched)
    (hname : d.name.name ≠ "") (hplan : d.plan? = some plan) (hdeeper : deeper = some visit)
    (hrun : runSteps visit id plan ⟨scopes, 0, p.start id d⟩ = (last, some error)) :
    VisitEnds deeper scopes id p (last.progress, some error)
  | exhausted {d plan} (hdecl : p.file.decl? id = some d) (hmark : d.mark = .untouched) (hname : d.name.name ≠ "")
    (hplan : d.plan? = some plan) (hdeeper : deeper = none) :
    VisitEnds deeper scopes id p (p.note (.resolving d.kind.keyword d.name.name),
      some (.circularType d.name.name d.span))

/-- How declarations that are met on the way are visited at a depth. -/
def deeper? : Nat → Option (Visit hash)
  | 0 => none
  | depth + 1 => some (resolveWithin depth)

/-- Nothing but what `VisitEnds` lists happens. -/
theorem resolveWithin_ends (depth : Nat) (scopes : Scopes hash) (id : DeclId) (p : Progress) :
    VisitEnds (deeper? depth) scopes id p (resolveWithin depth scopes id p) := by
  unfold resolveWithin
  split
  · next hdecl => exact .absent hdecl
  · next d hdecl =>
    split
    · next hmark => exact .closed hdecl hmark
    · next hmark => exact .opened hdecl hmark
    · next hmark =>
      split
      · next hname => exact .nameless hdecl hmark hname
      · next hname =>
        dsimp only
        split
        · next hplan => exact .planless hdecl hmark hname hplan
        · next plan depth hplan =>
          split
          · next last error hrun => exact .stopped hdecl hmark hname hplan rfl hrun
          · next last hrun => exact .finished hdecl hmark hname hplan rfl hrun
        · next plan hplan => exact .exhausted hdecl hmark hname hplan rfl

/-- The file in which the plan of a declaration starts differs in the mark of the declaration only. -/
theorem Progress.start_advances {p : Progress} {id : DeclId} {d : Declaration} :
    Advances (some id) p.file (p.start id d).file := .setMark _ _ _

/-- A declaration is open when its plan starts. -/
theorem Progress.mark?_start (scopes : Scopes hash) {p : Progress} {id : DeclId} {d : Declaration}
    (hdecl : p.file.decl? id = some d) :
    (Frame.mk scopes 0 (p.start id d)).progress.file.mark? id = some .opened :=
  SourceFile.mark?_setMark_self (SourceFile.mark?_eq_some.mpr ⟨d, hdecl, rfl⟩) .opened

/-- What a run of a plan leaves is an advance of the file in which its declaration was untouched. -/
theorem Frame.Advances.file_of_untouched {scopes : Scopes hash} {id : DeclId} {p : Progress} {d : Declaration}
    {last : Frame hash} (hdecl : p.file.decl? id = some d) (hmark : d.mark = .untouched)
    (h : Frame.Advances id ⟨scopes, 0, p.start id d⟩ last) : DeclTree.Advances none p.file last.progress.file := by
  refine (Progress.start_advances.trans h.file).absolve (SourceFile.mark?_eq_some.mpr ⟨d, hdecl, hmark⟩) ?_
  rw [h.opened]
  decide

/-- A visit is lawful if the visits inside it are. -/
theorem VisitEnds.lawful {deeper : Option (Visit hash)} (hdeeper : ∀ visit, deeper = some visit → visit.Lawful)
    {scopes : Scopes hash} {id : DeclId} {p : Progress} {outcome : Outcome Progress}
    (h : VisitEnds deeper scopes id p outcome) :
    outcome.Meets
      (fun p' => Advances none p.file p'.file ∧ p'.file.mark? id = some .closed ∧
        ∀ t, p'.file.mark? t = some .opened → p.file.mark? t = some .opened)
      (fun p' _ => Advances none p.file p'.file) := by
  cases h with
  | absent hdecl => exact .refl _ _
  | closed hdecl hmark => exact ⟨.refl _ _, SourceFile.mark?_eq_some.mpr ⟨_, hdecl, hmark⟩, fun _ h => h⟩
  | opened hdecl hmark => exact .refl _ _
  | nameless hdecl hmark hname => exact .refl _ _
  | planless hdecl hmark hname hplan => exact .refl _ _
  | exhausted hdecl hmark hname hplan hnone => exact .refl _ _
  | @stopped d plan visit last error hdecl hmark hname hplan hvisit hrun =>
    have hsteps := runSteps_advances (hdeeper visit hvisit) (Progress.mark?_start scopes hdecl) plan
    rw [hrun] at hsteps
    exact hsteps.file_of_untouched hdecl hmark
  | @finished d plan visit last hdecl hmark hname hplan hvisit hrun =>
    have hsteps := runSteps_advances (hdeeper visit hvisit) (Progress.mark?_start scopes hdecl) plan
    rw [hrun] at hsteps
    obtain ⟨hlast, hsettled⟩ := hsteps
    have hclosed := SourceFile.mark?_setMark_self hlast.opened .closed
    refine ⟨?_, hclosed, fun t ht => ?_⟩
    · have hall := (Progress.start_advances.trans hlast.file).trans (Advances.setMark _ id .closed)
      exact hall.absolve (SourceFile.mark?_eq_some.mpr ⟨d, hdecl, hmark⟩) (by simp [hclosed])
    · by_cases hid : id = t
      · rw [← hid] at ht
        simp [Progress.closeDecl, Progress.note, hclosed] at ht
      · have hlastOpen := hsettled t ((SourceFile.mark?_setMark_of_ne _ hid _).symm.trans ht)
        exact (SourceFile.mark?_setMark_of_ne _ hid _).symm.trans hlastOpen

/-- Every visit is lawful, at any depth. -/
theorem resolveWithin_lawful (depth : Nat) : Visit.Lawful (resolveWithin depth : Visit hash) := by
  induction depth with
  | zero =>
    intro scopes id p
    exact (resolveWithin_ends 0 scopes id p).lawful (by simp [deeper?])
  | succ depth ih =>
    intro scopes id p
    refine (resolveWithin_ends (depth + 1) scopes id p).lawful ?_
    rintro visit ⟨rfl⟩
    exact ih

/-- Carrying out the plan of a declaration leaves fewer declarations untouched than there were. -/
theorem Frame.Advances.fresh_ssubset {scopes : Scopes hash} {id : DeclId} {p : Progress} {d : Declaration}
    {frame : Frame hash} (hdecl : p.file.decl? id = some d) (hmark : d.mark = .untouched)
    (h : Frame.Advances id ⟨scopes, 0, p.start id d⟩ frame) : frame.progress.file.fresh ⊂ p.file.fresh := by
  refine (Finset.ssubset_iff_of_subset (h.file_of_untouched hdecl hmark).fresh_subset).mpr ⟨id, ?_, ?_⟩
  · exact SourceFile.mem_fresh.mpr (SourceFile.mark?_eq_some.mpr ⟨d, hdecl, hmark⟩)
  · rw [SourceFile.mem_fresh, h.opened]
    decide

/-- A statement about visits, of what a visit requires, what it leaves when it succeeds and what it leaves when it
fails, holds of each way in which a visit can end if it holds of visits that start with fewer untouched declarations. -/
def VisitStep (require : Scopes hash → DeclId → Progress → Prop)
    (success : Scopes hash → DeclId → Progress → Progress → Prop)
    (failure : Scopes hash → DeclId → Progress → Progress → Error → Prop) : Prop :=
  ∀ (visit : Visit hash) scopes id p outcome, visit.Lawful → require scopes id p →
    (∀ scopes' id' p', p'.file.fresh ⊂ p.file.fresh → require scopes' id' p' →
      (visit scopes' id' p').Meets (success scopes' id' p') (failure scopes' id' p')) →
    VisitEnds (some visit) scopes id p outcome → outcome.Meets (success scopes id p) (failure scopes id p)

section Rule

variable {require : Scopes hash → DeclId → Progress → Prop}
  {success : Scopes hash → DeclId → Progress → Progress → Prop}
  {failure : Scopes hash → DeclId → Progress → Progress → Error → Prop}

/-- With as much depth as there are untouched declarations a visit never runs out of it. -/
theorem resolveWithin_meets (hends : VisitStep require success failure) (depth : Nat) (scopes : Scopes hash)
    (id : DeclId) (p : Progress) (hdepth : p.file.fresh.card ≤ depth) (hrequire : require scopes id p) :
    (resolveWithin depth scopes id p).Meets (success scopes id p) (failure scopes id p) := by
  induction depth generalizing scopes id p with
  | zero =>
    have hempty : p.file.fresh = ∅ := Finset.card_eq_zero.mp (Nat.le_zero.mp hdepth)
    refine hends (resolveWithin 0) scopes id p _ (resolveWithin_lawful 0) hrequire ?_ ?_
    · intro _ _ p' hfresh
      rw [hempty] at hfresh
      exact absurd hfresh (Finset.not_ssubset_empty _)
    · have hzero := resolveWithin_ends 0 scopes id p
      generalize resolveWithin 0 scopes id p = outcome at hzero ⊢
      cases hzero with
      | absent hdecl => exact .absent hdecl
      | closed hdecl hmark => exact .closed hdecl hmark
      | opened hdecl hmark => exact .opened hdecl hmark
      | nameless hdecl hmark hname => exact .nameless hdecl hmark hname
      | planless hdecl hmark hname hplan => exact .planless hdecl hmark hname hplan
      | finished hdecl hmark hname hplan hdeeper hrun => simp [deeper?] at hdeeper
      | stopped hdecl hmark hname hplan hdeeper hrun => simp [deeper?] at hdeeper
      | @exhausted d plan hdecl hmark hname hplan hdeeper =>
        have hid : id ∈ p.file.fresh := SourceFile.mem_fresh.mpr (SourceFile.mark?_eq_some.mpr ⟨d, hdecl, hmark⟩)
        simp [hempty] at hid
  | succ depth ih =>
    refine hends (resolveWithin depth) scopes id p _ (resolveWithin_lawful depth) hrequire ?_
      (resolveWithin_ends (depth + 1) scopes id p)
    intro scopes' id' p' hfresh hrequire'
    have hcard := Finset.card_lt_card hfresh
    exact ih scopes' id' p' (by omega) hrequire'

/-- Resolving a declaration is lawful. -/
theorem resolve_lawful : Visit.Lawful (resolve : Visit hash) := fun scopes id p => resolveWithin_lawful _ scopes id p

/-- The size of the arena is depth enough. -/
theorem resolve_meets (hends : VisitStep require success failure) (scopes : Scopes hash) (id : DeclId) (p : Progress)
    (hrequire : require scopes id p) : (resolve scopes id p).Meets (success scopes id p) (failure scopes id p) :=
  resolveWithin_meets hends _ scopes id p p.file.card_fresh_le hrequire

end Rule

end DeclTree

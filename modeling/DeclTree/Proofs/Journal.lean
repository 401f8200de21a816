import DeclTree.Proofs.Settling

/-!
# The journal of a run

What a run writes into a file, in order: declarations are opened and closed, and links are filled; an error is entered
where it arises. The journal follows the run step by step and is computed from what the run comes to, so that replaying
it leaves the file that the run leaves.

`Move` is what one act may do, apart from all scopes and plans: a declaration is opened once, if it has a name and a
plan; the links of the innermost open declaration are filled one after the other; only the innermost open declaration is
closed, when all its links are filled; and nothing follows an error. The main statement, `resolve_tracked`, says that a
run makes such moves only. What holds of every file that moves lead to therefore holds of every file that runs lead to,
and none of the proofs of that looks into a run again. -/

namespace DeclTree

variable {hash : String → Nat}

/-- What a run does at one moment. -/
inductive Act where
  | opens (id : DeclId)
  | closes (id : DeclId)
  /-- The link of a declaration that has a number is filled. -/
  | links (owner : DeclId) (k : Nat) (target : DeclId)
  /-- An error arises. -/
  | fails (error : Error)
deriving DecidableEq

namespace Act

/-- The declaration that an act opens. -/
def opened? : Act → Option DeclId
  | opens id => some id
  | _ => none

/-- The declaration that an act closes. -/
def closed? : Act → Option DeclId
  | closes id => some id
  | _ => none

/-- The link that an act fills: its declaration and its number. -/
def filled? : Act → Option (DeclId × Nat)
  | links owner k _ => some (owner, k)
  | _ => none

/-- The declaration that an act changes. -/
def changed? : Act → Option DeclId
  | opens id | closes id | links id _ _ => some id
  | fails _ => none

/-- The act is an opening or a closing. -/
def isMarking : Act → Bool
  | opens _ | closes _ => true
  | links .. | fails _ => false

end Act

namespace SourceFile

/-- The file after an act. -/
def perform (file : SourceFile) : Act → SourceFile
  | .opens id => file.setMark id .opened
  | .closes id => file.setMark id .closed
  | .links owner k target => file.setLink owner k target
  | .fails _ => file

/-- The file after acts. -/
def replay (file : SourceFile) (acts : List Act) : SourceFile := acts.foldl perform file

/-- Acts are replayed one after the other. -/
theorem replay_append (file : SourceFile) (acts more : List Act) :
    file.replay (acts ++ more) = (file.replay acts).replay more := List.foldl_append

end SourceFile

/-- What is entered for visits. -/
abbrev Record (hash : String → Nat) := Scopes hash → DeclId → Progress → List Act

/-- The visit that a step makes, if it comes to one. -/
def Frame.visited? (frame : Frame hash) : Step → Option (Scopes hash × DeclId × Progress)
  | .link name reach =>
    match frame.scopes.lookup name.name with
    | none => none
    | some target =>
      match frame.progress.file.decl? target with
      | none => none
      | some d =>
        match d.isVariable, reach with
        | false, .byValue => some (frame.scopes, target, frame.progress.note (.linked name.name target .byValue))
        | true, _ | _, .indirect => none
  | .declare id =>
    match declare frame.scopes id frame.progress with
    | ((scopes, p), none) => some (scopes, id, p)
    | (_, some _) => none
  | .enter | .leave | .avoid .. | .reject _ => none

/-- What a step that succeeds writes itself. -/
def Frame.written (frame : Frame hash) (owner : DeclId) : Step → List Act
  | .link name _ => (frame.scopes.lookup name.name).toList.map (.links owner frame.filled ·)
  | .enter | .leave | .declare _ | .avoid .. | .reject _ => []

/-- The acts of a step: those of its visit, and then what it writes itself. The error of a step that makes no visit
arises in the step. -/
def stepActs (visit : Visit hash) (record : Record hash) (owner : DeclId) (step : Step) (frame : Frame hash) :
    List Act :=
  match frame.visited? step, (runStep visit owner step frame).2 with
  | some (scopes, id, p), none => record scopes id p ++ frame.written owner step
  | some (scopes, id, p), some _ => record scopes id p
  | none, none => frame.written owner step
  | none, some error => [.fails error]

/-- The acts of steps, until one fails. -/
def stepsActs (visit : Visit hash) (record : Record hash) (owner : DeclId) : List Step → Frame hash → List Act
  | [], _ => []
  | step :: rest, frame =>
    stepActs visit record owner step frame ++
      match runStep visit owner step frame with
      | (next, none) => stepsActs visit record owner rest next
      | (_, some _) => []

/-- The acts of a visit that ends at once. -/
def endActs : Option Error → List Act
  | none => []
  | some error => [.fails error]

/-- The declaration that a visit opens, with its plan. -/
def Progress.opening? (p : Progress) (id : DeclId) : Option (Declaration × List Step) :=
  match p.file.decl? id with
  | none => none
  | some d => if d.mark = .untouched ∧ d.name.name ≠ "" then d.plan?.map fun plan => (d, plan) else none

/-- The acts of a visit with at most `depth` openings inside one another. -/
def actsWithin : Nat → Record hash
  | 0, scopes, id, p => endActs (resolveWithin 0 scopes id p).2
  | depth + 1, scopes, id, p =>
    match p.opening? id with
    | none => endActs (resolveWithin (depth + 1) scopes id p).2
    | some (d, plan) =>
      let start : Frame hash := ⟨scopes, 0, p.start id d⟩
      .opens id :: (stepsActs (resolveWithin depth) (actsWithin depth) id plan start ++
        match (runSteps (resolveWithin depth) id plan start).2 with
        | none => [.closes id]
        | some _ => [])

/-- The acts of resolving a declaration. -/
def resolveActs (scopes : Scopes hash) (id : DeclId) (p : Progress) : List Act :=
  actsWithin p.file.declarations.length scopes id p

/-- The name that a step links, and how its type is reached. -/
def Step.linked? : Step → Option (Ident × Reach)
  | .link name reach => some (name, reach)
  | _ => none

/-- The names that a declaration links, in the order of its links. -/
def Declaration.names (d : Declaration) : List (Ident × Reach) := (d.plan?.getD []).filterMap Step.linked?

/-- Wherever a plan is carried out, it links the same names. -/
theorem map_linkSites (env : Env) (steps : List Step) :
    (linkSites env steps).map (fun site => (site.name, site.reach)) = steps.filterMap Step.linked? := by
  induction steps generalizing env with
  | nil => rfl
  | cons step rest ih =>
    rw [show step :: rest = [step] ++ rest from rfl, linkSites_append, List.map_append, List.filterMap_append, ih]
    cases step <;> rfl

/-- There is one site for each link that the steps fill. -/
theorem length_linkSites (env : Env) (steps : List Step) :
    (linkSites env steps).length = (steps.filterMap Step.linked?).length := by
  rw [← map_linkSites env, List.length_map]

/-- The names of the nodes of a declaration that has a plan, in any environment. -/
theorem Declaration.map_nodeSites (env : Env) {d : Declaration} {plan : List Step} (hplan : d.plan? = some plan) :
    (nodeSites (d.kind.nodes env)).map (fun site => (site.name, site.reach)) = d.names := by
  rw [← linkSites_plan env hplan, map_linkSites, names, hplan, Option.getD_some]

/-- A declaration that has a plan has as many names as links. -/
theorem Declaration.length_names {d : Declaration} {plan : List Step} (hplan : d.plan? = some plan) :
    d.names.length = d.links.length := by
  rw [← length_linkSites [] hplan, DeclTree.length_linkSites, names, hplan, Option.getD_some]

/-- A declaration without a plan links no names. -/
theorem Declaration.length_names_le (d : Declaration) : d.names.length ≤ d.links.length := by
  cases hplan : d.plan? with
  | none => simp [names, hplan]
  | some plan => exact (length_names hplan).le

/-- A name among the nodes of a declaration that has a plan is one of its names, with its link. -/
theorem Declaration.exists_name_of_node {d : Declaration} {plan : List Step} (hplan : d.plan? = some plan)
    {env inner : Env} {name : Ident} {reach : Reach} {link : Option DeclId}
    (hnode : (inner, .named name reach link) ∈ d.kind.nodes env) :
    ∃ k : Nat, d.names[k]? = some (name, reach) ∧ d.links[k]? = some link := by
  obtain ⟨k, hsite, hlink⟩ := exists_getElem?_of_named hnode
  refine ⟨k, ?_, ?_⟩
  · rw [← map_nodeSites env hplan, List.getElem?_map, hsite, Option.map_some]
  · rw [links, ← DeclKind.nodeLinks_nodes env]
    exact hlink

/-- The names in a declaration do not depend on links and marks. -/
theorem Declaration.names_of_cleared_eq {d e : Declaration} (h : e.cleared = d.cleared) : e.names = d.names := by
  rw [names, names, plan?_of_cleared_eq h]

/-- A file in the middle of a call: the declarations that the call has opened and not closed, innermost first, each with
the number of its links that are filled, and the error that has arisen, if any. -/
structure Ledger where
  file : SourceFile
  openings : List (DeclId × Nat)
  error : Option Error

/-- What an act may do. What names stand for is not part of the file; `Q` says what is known of it. -/
inductive Move (Q : String → DeclId → Prop) : Ledger → Act → Ledger → Prop where
  | opens {file openings id d plan} (hdecl : file.decl? id = some d) (hmark : d.mark = .untouched)
    (hname : d.name.name ≠ "") (hplan : d.plan? = some plan) :
    Move Q ⟨file, openings, none⟩ (.opens id) ⟨file.setMark id .opened, (id, 0) :: openings, none⟩
  | links {file openings owner k target d e name reach} (hdecl : file.decl? owner = some d) (hmark : d.mark = .opened)
    (hname : d.names[k]? = some (name, reach)) (htarget : file.decl? target = some e) (htype : e.isVariable = false)
    (hknown : Q name.name target) (hclosed : reach = .byValue → e.mark = .closed) :
    Move Q ⟨file, (owner, k) :: openings, none⟩ (.links owner k target)
      ⟨file.setLink owner k target, (owner, k + 1) :: openings, none⟩
  | closes {file openings id k d plan} (hdecl : file.decl? id = some d) (hmark : d.mark = .opened)
    (hplan : d.plan? = some plan) (hcarried : Carried file plan) (hfilled : k = d.links.length) :
    Move Q ⟨file, (id, k) :: openings, none⟩ (.closes id) ⟨file.setMark id .closed, openings, none⟩
  | fails {file openings} (error : Error) :
    Move Q ⟨file, openings, none⟩ (.fails error) ⟨file, openings, some error⟩

/-- Moves in order. -/
inductive Moves (Q : String → DeclId → Prop) : Ledger → List Act → Ledger → Prop where
  | nil (ledger : Ledger) : Moves Q ledger [] ledger
  | cons {first second last act acts} (hmove : Move Q first act second) (hmoves : Moves Q second acts last) :
    Moves Q first (act :: acts) last

namespace Moves

variable {Q : String → DeclId → Prop} {first middle last : Ledger} {acts more : List Act}

/-- One move is a row of moves. -/
theorem single {act : Act} (h : Move Q first act last) : Moves Q first [act] last := .cons h (.nil _)

/-- Rows of moves are one row. -/
theorem append (h : Moves Q first acts middle) (h' : Moves Q middle more last) : Moves Q first (acts ++ more) last := by
  induction h with
  | nil => exact h'
  | cons hmove _ ih => exact .cons hmove (ih h')

/-- Moves can be taken apart anywhere. -/
theorem split (h : Moves Q first (acts ++ more) last) :
    ∃ middle, Moves Q first acts middle ∧ Moves Q middle more last := by
  induction acts generalizing first with
  | nil => exact ⟨first, .nil _, h⟩
  | cons act acts ih =>
    cases h with
    | cons hmove hmoves =>
      obtain ⟨middle, hfirst, hlast⟩ := ih hmoves
      exact ⟨middle, .cons hmove hfirst, hlast⟩

/-- What every move keeps is kept by moves. -/
theorem keeps {P : Ledger → Prop} (hstep : ∀ {first act second}, Move Q first act second → P first → P second)
    (h : Moves Q first acts last) (hfirst : P first) : P last := by
  induction h with
  | nil => exact hfirst
  | cons hmove _ ih => exact ih (hstep hmove hfirst)

/-- Replaying the acts leaves the file that the moves lead to. -/
theorem replay_eq (h : Moves Q first acts last) : first.file.replay acts = last.file := by
  induction h with
  | nil => rfl
  | cons hmove _ ih =>
    rw [← ih]
    cases hmove <;> rfl

end Moves

/-- What is open in a ledger has been opened, once. -/
structure Ledger.Sound (ledger : Ledger) : Prop where
  distinct : (ledger.openings.map (·.1)).Nodup
  opened : ∀ entry ∈ ledger.openings, ledger.file.mark? entry.1 = some .opened

/-- A ledger that has nothing open is sound. -/
theorem Ledger.Sound.start (file : SourceFile) (error : Option Error) : Ledger.Sound ⟨file, [], error⟩ :=
  ⟨.nil, by simp⟩

/-- A move keeps a ledger sound. -/
theorem Move.sound {Q : String → DeclId → Prop} {first second : Ledger} {act : Act} (h : Move Q first act second)
    (hsound : first.Sound) : second.Sound := by
  cases h with
  | @opens file openings id d plan hdecl hmark hname hplan =>
    have huntouched : file.mark? id = some .untouched := SourceFile.mark?_eq_some.mpr ⟨d, hdecl, hmark⟩
    have hnew (entry : DeclId × Nat) (hentry : entry ∈ openings) : id ≠ entry.1 := by
      intro heq
      have hopened := hsound.opened entry hentry
      rw [← heq, huntouched] at hopened
      simp at hopened
    refine ⟨List.nodup_cons.mpr ⟨?_, hsound.distinct⟩, ?_⟩
    · intro hmem
      obtain ⟨entry, hentry, heq⟩ := List.mem_map.mp hmem
      exact hnew entry hentry heq.symm
    · intro entry hentry
      rcases List.mem_cons.mp hentry with rfl | hentry
      · exact SourceFile.mark?_setMark_self huntouched _
      · exact (SourceFile.mark?_setMark_of_ne _ (hnew entry hentry) _).trans (hsound.opened entry hentry)
  | links hdecl hmark hname htarget htype hknown hclosed =>
    refine ⟨hsound.distinct, fun entry hentry => ?_⟩
    rw [SourceFile.mark?_setLink]
    rcases List.mem_cons.mp hentry with rfl | hentry
    · exact SourceFile.mark?_eq_some.mpr ⟨_, hdecl, hmark⟩
    · exact hsound.opened entry (List.mem_cons_of_mem _ hentry)
  | @closes file openings id k d plan hdecl hmark hplan hcarried hfilled =>
    obtain ⟨hfresh, hdistinct⟩ := List.nodup_cons.mp hsound.distinct
    refine ⟨hdistinct, fun entry hentry => ?_⟩
    have hne : id ≠ entry.1 := by
      intro heq
      exact hfresh (List.mem_map.mpr ⟨entry, hentry, heq.symm⟩)
    exact (SourceFile.mark?_setMark_of_ne _ hne _).trans (hsound.opened entry (List.mem_cons_of_mem _ hentry))
  | fails error => exact ⟨hsound.distinct, hsound.opened⟩

/-- The marks of a file only go forward. -/
theorem Move.mark? {Q : String → DeclId → Prop} {first second : Ledger} {act : Act} (h : Move Q first act second)
    (id : DeclId) :
    second.file.mark? id = first.file.mark? id ∨
      (act = .opens id ∧ first.file.mark? id = some .untouched ∧ second.file.mark? id = some .opened) ∨
      (act = .closes id ∧ first.file.mark? id = some .opened ∧ second.file.mark? id = some .closed) := by
  cases h with
  | @opens file openings t d plan hdecl hmark hname hplan =>
    by_cases heq : t = id
    · subst heq
      have huntouched : file.mark? t = some .untouched := SourceFile.mark?_eq_some.mpr ⟨d, hdecl, hmark⟩
      exact .inr (.inl ⟨rfl, huntouched, SourceFile.mark?_setMark_self huntouched _⟩)
    · exact .inl (SourceFile.mark?_setMark_of_ne _ heq _)
  | links hdecl hmark hname htarget htype hknown hclosed => exact .inl (SourceFile.mark?_setLink _ _ _ _ _)
  | @closes file openings t k d plan hdecl hmark hplan hcarried hfilled =>
    by_cases heq : t = id
    · subst heq
      have hopened : file.mark? t = some .opened := SourceFile.mark?_eq_some.mpr ⟨d, hdecl, hmark⟩
      exact .inr (.inr ⟨rfl, hopened, SourceFile.mark?_setMark_self hopened _⟩)
    · exact .inl (SourceFile.mark?_setMark_of_ne _ heq _)
  | fails error => exact .inl rfl

/-- A move changes nothing but links and marks. -/
theorem Move.cleared {Q : String → DeclId → Prop} {first second : Ledger} {act : Act} (h : Move Q first act second) :
    second.file.cleared = first.file.cleared := by
  cases h with
  | opens => exact SourceFile.cleared_setMark _ _ _
  | links => exact SourceFile.cleared_setLink _ _ _ _
  | closes => exact SourceFile.cleared_setMark _ _ _
  | fails => rfl

/-- The opening or closing that an event records. -/
def Event.act? : Event → Option Act
  | .opened id _ => some (.opens id)
  | .closed id _ => some (.closes id)
  | _ => none

/-- The openings and closings that have been recorded, newest first. -/
def Progress.trail (p : Progress) : List Act := p.events.filterMap Event.act?

/-- Between two states acts are made that are moves, and the openings and closings among them are recorded. -/
structure Follows (Q : String → DeclId → Prop) (before : Progress) (openings : List (DeclId × Nat)) (acts : List Act)
    (after : Progress) (left : List (DeclId × Nat)) (error : Option Error) : Prop where
  moves : Moves Q ⟨before.file, openings, none⟩ acts ⟨after.file, left, error⟩
  trail : after.trail = (acts.filter Act.isMarking).reverse ++ before.trail

namespace Follows

variable {Q : String → DeclId → Prop} {p q r : Progress} {openings stay left : List (DeclId × Nat)}
  {acts more : List Act} {error : Option Error}

/-- Without acts only other events are recorded. -/
theorem still (hfile : q.file = p.file) (htrail : q.trail = p.trail) : Follows Q p openings [] q openings none := by
  refine ⟨?_, htrail⟩
  rw [hfile]
  exact .nil _

/-- A run that goes on from where another one ended without an error follows from the start of the first. -/
theorem trans (first : Follows Q p openings acts q stay none) (second : Follows Q q stay more r left error) :
    Follows Q p openings (acts ++ more) r left error := by
  refine ⟨first.moves.append second.moves, ?_⟩
  rw [second.trail, first.trail, List.filter_append, List.reverse_append, List.append_assoc]

/-- An event that records no opening or closing may come first. -/
theorem of_note {event : Event} (h : Follows Q (p.note event) openings acts q left error) (hevent : event.act? = none) :
    Follows Q p openings acts q left error := by
  refine ⟨h.moves, ?_⟩
  rw [h.trail, Progress.trail, Progress.note, List.filterMap_cons_none hevent]
  rfl

/-- What a failed visit leaves open comes on top of the declaration that asked for it. -/
theorem exists_of_note {event : Event} {opening : DeclId × Nat}
    (h : ∃ left, Follows Q (p.note event) (opening :: openings) acts q (left ++ opening :: openings) error)
    (hevent : event.act? = none) : ∃ left, Follows Q p (opening :: openings) acts q (left ++ openings) error := by
  obtain ⟨left, hleft⟩ := h
  refine ⟨left ++ [opening], ?_⟩
  rw [List.append_assoc]
  exact hleft.of_note hevent

/-- An error arises and nothing is recorded. -/
theorem fail (hfile : q.file = p.file) (htrail : q.trail = p.trail) (error : Error) :
    Follows Q p openings [.fails error] q openings (some error) := by
  refine ⟨?_, htrail⟩
  rw [hfile]
  exact .single (.fails error)

/-- The acts of a visit that ends at once. -/
theorem ends (hfile : q.file = p.file) (htrail : q.trail = p.trail) (error : Option Error) :
    Follows Q p openings (endActs error) q openings error := by
  cases error with
  | none => exact still hfile htrail
  | some error => exact fail hfile htrail error

end Follows

/-- The acts of an outcome: if it is a success, what was open before is open again, and if it is a failure, they end
with its error. -/
def Tracks (Q : String → DeclId → Prop) (p : Progress) (openings : List (DeclId × Nat)) (acts : List Act)
    (outcome : Outcome Progress) : Prop :=
  outcome.Meets (fun q => Follows Q p openings acts q openings none)
    fun q error => ∃ left, Follows Q p openings acts q (left ++ openings) (some error)

/-- Acts that leave open what was open may come first. -/
theorem Tracks.after {Q : String → DeclId → Prop} {p q : Progress} {openings : List (DeclId × Nat)}
    {acts more : List Act} {outcome : Outcome Progress} (h : Tracks Q q openings more outcome)
    (hfirst : Follows Q p openings acts q openings none) : Tracks Q p openings (acts ++ more) outcome :=
  Outcome.Meets.imp h (fun _ hmore => hfirst.trans hmore) fun _ _ hmore => hmore.imp fun _ hleft => hfirst.trans hleft

/-- What is known of names holds of the declarations of a file. -/
def SourceFile.NamedBy (file : SourceFile) (Q : String → DeclId → Prop) : Prop :=
  ∀ id d, file.decl? id = some d → Q d.name.name id

/-- What the names of a file stand for does not depend on links and marks. -/
theorem SourceFile.NamedBy.of_cleared_eq {Q : String → DeclId → Prop} {before after : SourceFile}
    (h : before.NamedBy Q) (hcleared : after.cleared = before.cleared) : after.NamedBy Q := by
  intro id e he
  obtain ⟨d, hd, heq⟩ := SourceFile.decl?_of_cleared_eq hcleared.symm he
  rw [← Declaration.name_of_cleared_eq heq]
  exact h id d hd

/-- What is entered for visits are their acts. -/
def Visit.Tracked (Q : String → DeclId → Prop) (visit : Visit hash) (record : Record hash) : Prop :=
  ∀ scopes id p openings, scopes.Binds Q → p.file.NamedBy Q →
    Tracks Q p openings (record scopes id p) (visit scopes id p)

section Steps

variable {Q : String → DeclId → Prop} {visit : Visit hash} {record : Record hash} {owner : DeclId} {frame : Frame hash}

/-- A step that succeeds keeps what is known of names. -/
theorem runStep_binds (step : Step) (hbinds : frame.scopes.Binds Q)
    (hnamed : frame.progress.file.NamedBy Q) :
    (runStep visit owner step frame).Meets (fun next => next.scopes.Binds Q) fun _ _ => True := by
  have hends := runStep_ends visit owner step frame
  generalize runStep visit owner step frame = outcome at hends ⊢
  cases hends with
  | stored hfind hdecl hvariable hrun => exact hbinds
  | referred hfind hdecl hvariable => exact hbinds
  | entered => exact hbinds.push
  | left => exact hbinds.pop
  | @declared id d scopes p result hdecl hname hinsert hrun =>
    cases result with
    | none => exact hbinds.insert hinsert (hnamed id d hdecl)
    | some error => trivial
  | avoided hdecl hname => exact hbinds
  | _ => trivial

/-- Filling the next link of an open declaration is a move. -/
theorem Follows.fill {openings : List (DeclId × Nat)} {p : Progress} {d e : Declaration} {target : DeclId}
    {name : Ident} {reach : Reach} (hdecl : p.file.decl? owner = some d) (hmark : d.mark = .opened)
    (hname : d.names[frame.filled]? = some (name, reach)) (htarget : p.file.decl? target = some e)
    (htype : e.isVariable = false) (hknown : Q name.name target) (hclosed : reach = .byValue → e.mark = .closed) :
    Follows Q p ((owner, frame.filled) :: openings) [.links owner frame.filled target]
      (frame.fill owner target p).progress ((owner, (frame.fill owner target p).filled) :: openings) none :=
  ⟨.single (.links hdecl hmark hname htarget htype hknown hclosed), rfl⟩

/-- The acts of a step of the plan of an open declaration. -/
theorem runStep_follows (hvisit : visit.Lawful) (htracked : visit.Tracked Q record) {d : Declaration}
    {done rest : List Step} {step : Step} (openings : List (DeclId × Nat))
    (hopen : frame.progress.file.mark? owner = some .opened) (hdecl : frame.progress.file.decl? owner = some d)
    (hplan : d.plan? = some (done ++ step :: rest)) (hfilled : frame.filled = (done.filterMap Step.linked?).length)
    (hbinds : frame.scopes.Binds Q) (hnamed : frame.progress.file.NamedBy Q) :
    (runStep visit owner step frame).Meets
      (fun next => Follows Q frame.progress ((owner, frame.filled) :: openings) (stepActs visit record owner step frame)
        next.progress ((owner, next.filled) :: openings) none)
      fun next error => ∃ left, Follows Q frame.progress ((owner, frame.filled) :: openings)
        (stepActs visit record owner step frame) next.progress (left ++ openings) (some error) := by
  have hmark := SourceFile.mark_of_mark? hdecl hopen
  have hnext (name : Ident) (reach : Reach) (hstep : step = .link name reach) :
      d.names[frame.filled]? = some (name, reach) := by
    rw [Declaration.names, hplan, hstep, Option.getD_some, List.filterMap_append, hfilled,
      List.getElem?_append_right (Nat.le_refl _), Nat.sub_self]
    rfl
  have hfails (next : Frame hash) (error : Error) (hfile : next.progress.file = frame.progress.file)
      (htrail : next.progress.trail = frame.progress.trail) :
      ∃ left, Follows Q frame.progress ((owner, frame.filled) :: openings) [.fails error] next.progress
        (left ++ openings) (some error) :=
    ⟨[(owner, frame.filled)], .fail hfile htrail error⟩
  rw [stepActs]
  have hends := runStep_ends visit owner step frame
  generalize runStep visit owner step frame = outcome at hends ⊢
  cases hends with
  | unknown hfind =>
    simp only [Frame.visited?, hfind]
    exact hfails _ _ rfl rfl
  | dangling hfind hnone =>
    simp only [Frame.visited?, hfind, hnone]
    exact hfails _ _ rfl rfl
  | notType hfind htarget hvariable =>
    simp only [Frame.visited?, hfind, htarget, hvariable]
    exact hfails _ _ rfl rfl
  | @visitFailed name target e p error hfind htarget hvariable hrun =>
    simp only [Frame.visited?, hfind, htarget, hvariable]
    have hinner := htracked frame.scopes target (frame.progress.note (.linked name.name target .byValue))
      ((owner, frame.filled) :: openings) hbinds hnamed
    rw [hrun] at hinner
    exact Follows.exists_of_note hinner rfl
  | @stored name target e p hfind htarget hvariable hrun =>
    simp only [Frame.visited?, hfind, htarget, hvariable, Frame.written]
    have hinner := htracked frame.scopes target (frame.progress.note (.linked name.name target .byValue))
      ((owner, frame.filled) :: openings) hbinds hnamed
    rw [hrun] at hinner
    have hadvances := hvisit.advances hrun
    obtain ⟨t, ht, hclosed⟩ := SourceFile.mark?_eq_some.mp (hvisit.closes hrun)
    have htype : t.isVariable = false :=
      (Declaration.isVariable_of_cleared_eq (SourceFile.cleared_eq_of_decl? hadvances.cleared htarget ht)).trans
        hvariable
    refine (Follows.of_note hinner rfl).trans ?_
    exact .fill (hadvances.kept (by simp) hdecl (by simp [hmark])) hmark (hnext name .byValue rfl) ht htype
      (hbinds.find hfind) fun _ => hclosed
  | @referred name target e hfind htarget hvariable =>
    simp only [Frame.visited?, hfind, htarget, hvariable, Frame.written]
    have hfill : Follows Q (frame.progress.note (.linked name.name target .indirect))
        ((owner, frame.filled) :: openings) [.links owner frame.filled target] _ _ none :=
      .fill hdecl hmark (hnext name .indirect rfl) htarget hvariable (hbinds.find hfind) (by simp)
    exact hfill.of_note rfl
  | entered => exact .still rfl rfl
  | left => exact .still rfl rfl
  | absent hnone =>
    simp only [Frame.visited?, declare, hnone]
    exact hfails _ _ rfl rfl
  | nameless hlocal hname =>
    simp only [Frame.visited?, declare, hlocal, hname]
    exact hfails _ _ rfl rfl
  | repeated hlocal hname hinsert =>
    simp only [Frame.visited?, declare, hlocal, hname, hinsert]
    exact hfails _ _ rfl rfl
  | @declared id e scopes p result hlocal hname hinsert hrun =>
    simp only [Frame.visited?, declare, hlocal, hname, hinsert, Frame.written]
    have hinner := htracked scopes id (frame.progress.note (.declared e.name.name)) ((owner, frame.filled) :: openings)
      (hbinds.insert hinsert (hnamed id e hlocal)) hnamed
    rw [hrun] at hinner
    cases result with
    | none => exact Follows.trans (Follows.of_note hinner rfl) (.still rfl rfl)
    | some error => exact Follows.exists_of_note hinner rfl
  | unavoidable hnone => exact hfails _ _ rfl rfl
  | collided hlocal hname => exact hfails _ _ rfl rfl
  | avoided hlocal hname => exact .still rfl rfl
  | rejected => exact hfails _ _ rfl rfl

/-- Steps that succeed are followed by the rest of a plan. -/
theorem runSteps_append {done : List Step} {start : Frame hash} (h : runSteps visit owner done start = (frame, none))
    (rest : List Step) : runSteps visit owner (done ++ rest) start = runSteps visit owner rest frame := by
  induction done generalizing start with
  | nil =>
    obtain rfl := (Prod.mk.inj h).1
    rfl
  | cons step done ih =>
    rw [runSteps] at h
    rw [List.cons_append, runSteps]
    rcases hrun : runStep visit owner step start with ⟨next, _ | error⟩
    · rw [hrun] at h
      exact ih h
    · simp [hrun, Outcome.andThen] at h

/-- The acts of steps that succeed are followed by those of the steps behind them. -/
theorem stepsActs_append {done : List Step} {start : Frame hash} (h : runSteps visit owner done start = (frame, none))
    (rest : List Step) :
    stepsActs visit record owner (done ++ rest) start =
      stepsActs visit record owner done start ++ stepsActs visit record owner rest frame := by
  induction done generalizing start with
  | nil =>
    obtain rfl := (Prod.mk.inj h).1
    rfl
  | cons step done ih =>
    rw [runSteps] at h
    rw [List.cons_append, stepsActs, stepsActs, List.append_assoc]
    rcases hrun : runStep visit owner step start with ⟨next, _ | error⟩
    · rw [hrun] at h
      exact congrArg _ (ih h)
    · simp [hrun, Outcome.andThen] at h

/-- The acts of the plan of a declaration that has been opened. When the plan has been carried out, all links are filled
and the declaration may be closed. -/
theorem runSteps_follows (hvisit : visit.Lawful) (htracked : visit.Tracked Q record) {scopes : Scopes hash}
    {p : Progress} {d : Declaration} {plan : List Step} (openings : List (DeclId × Nat))
    (hdecl : p.file.decl? owner = some d)
    (hmark : d.mark = .untouched) (hplan : d.plan? = some plan) (hbinds : scopes.Binds Q)
    (hnamed : p.file.NamedBy Q) {start : Frame hash} (hstart : start = ⟨scopes, 0, p.start owner d⟩) :
    (runSteps visit owner plan start).Meets
      (fun last => Follows Q start.progress ((owner, 0) :: openings) (stepsActs visit record owner plan start)
          last.progress ((owner, last.filled) :: openings) none ∧
        ∃ e, last.progress.file.decl? owner = some e ∧ e.mark = .opened ∧ e.plan? = some plan ∧
          Carried last.progress.file plan ∧ last.filled = e.links.length)
      fun last error => ∃ left, Follows Q start.progress ((owner, 0) :: openings)
        (stepsActs visit record owner plan start) last.progress (left ++ openings) (some error) := by
  subst hstart
  -- The scopes, the number of links and what has been carried out are known at each step, besides the acts so far.
  refine (runPlan_meets hvisit (Progress.mark?_start scopes hdecl) (fun done frame =>
      (runSteps visit owner done ⟨scopes, 0, p.start owner d⟩ = (frame, none) ∧
        Follows Q (p.start owner d) ((owner, 0) :: openings)
          (stepsActs visit record owner done ⟨scopes, 0, p.start owner d⟩) frame.progress
          ((owner, frame.filled) :: openings) none) ∧
      frame.scopes.Binds Q ∧ Carried frame.progress.file done ∧
      Filling (fun _ _ => True) owner (linkSites [] done) frame)
    ⟨⟨rfl, .still rfl rfl⟩, hbinds, by simp [Carried], .start scopes hdecl⟩ ?_).imp ?_ fun _ _ h => h
  · rintro done step rest frame rfl hframe - ⟨⟨hrun, hfollows⟩, hscopes, hdone, hfilling⟩
    have hnow := (hframe.file_of_untouched hdecl hmark).cleared
    obtain ⟨e, he, heplan⟩ := SourceFile.plan_of_cleared_eq hnow hdecl hplan
    have hcount := hfilling.filled_eq
    rw [length_linkSites] at hcount
    have hnamedNow := hnamed.of_cleared_eq hnow
    have hacts := runStep_follows hvisit htracked openings hframe.opened he heplan hcount
      hscopes hnamedNow
    have hkept := (runStep_binds step hscopes hnamedNow).and ((runStep_carried hvisit step hdone).and
      (runStep_filling hvisit [] hframe.opened he heplan (fun _ _ _ _ _ _ _ _ => trivial) hfilling))
    rcases hstep : runStep visit owner step frame with ⟨next, _ | error⟩
    · rw [hstep] at hacts hkept
      refine ⟨⟨?_, ?_⟩, hkept⟩
      · rw [runSteps_append hrun, runSteps, hstep]
        rfl
      · rw [stepsActs_append hrun, stepsActs, hstep]
        exact hfollows.trans ((List.append_nil _).symm ▸ hacts)
    · rw [hstep] at hacts
      obtain ⟨left, hleft⟩ := hacts
      refine ⟨left, ?_⟩
      rw [stepsActs_append hrun, stepsActs, hstep]
      exact hfollows.trans ((List.append_nil _).symm ▸ hleft)
  · rintro last ⟨hlast, ⟨-, hfollows⟩, -, hcarried, hfilling⟩
    obtain ⟨e, he, heplan⟩ := SourceFile.plan_of_cleared_eq (hlast.file_of_untouched hdecl hmark).cleared hdecl hplan
    refine ⟨hfollows, e, he, SourceFile.mark_of_mark? he hlast.opened, heplan, hcarried, ?_⟩
    rw [hfilling.filled_eq, Declaration.length_linkSites [] heplan]

end Steps

section Visits

variable {Q : String → DeclId → Prop} {scopes : Scopes hash} {id : DeclId} {p : Progress}

/-- A declaration is opened if it is untouched and has a name and a plan. -/
theorem Progress.opening?_eq_some {d : Declaration} {plan : List Step} :
    p.opening? id = some (d, plan) ↔
      p.file.decl? id = some d ∧ d.mark = .untouched ∧ d.name.name ≠ "" ∧ d.plan? = some plan := by
  rw [opening?]
  cases hdecl : p.file.decl? id with
  | none => simp
  | some e =>
    simp only [Option.ite_none_right_eq_some, Option.map_eq_some_iff, Prod.mk.injEq, Option.some_inj]
    constructor
    · rintro ⟨⟨hmark, hname⟩, steps, hplan, rfl, rfl⟩
      exact ⟨rfl, hmark, hname, hplan⟩
    · rintro ⟨rfl, hmark, hname, hplan⟩
      exact ⟨⟨hmark, hname⟩, plan, hplan, rfl, rfl⟩

/-- A visit that opens nothing ends at once. -/
theorem VisitEnds.tracks {deeper : Option (Visit hash)} {outcome : Outcome Progress}
    (h : VisitEnds deeper scopes id p outcome) (hnone : deeper = none ∨ p.opening? id = none)
    (openings : List (DeclId × Nat)) : Tracks Q p openings (endActs outcome.2) outcome := by
  have hopens {d : Declaration} {plan : List Step} {visit : Visit hash} (hdecl : p.file.decl? id = some d)
      (hmark : d.mark = .untouched) (hname : d.name.name ≠ "") (hplan : d.plan? = some plan)
      (hdeeper : deeper = some visit) : False := by
    have hopening := Progress.opening?_eq_some.mpr ⟨hdecl, hmark, hname, hplan⟩
    rcases hnone with hnone | hnone <;> simp_all
  cases h with
  | absent hdecl => exact ⟨[], .ends rfl rfl _⟩
  | closed hdecl hmark => exact .ends rfl rfl none
  | opened hdecl hmark => exact ⟨[], .ends rfl rfl _⟩
  | nameless hdecl hmark hname => exact ⟨[], .ends rfl rfl _⟩
  | planless hdecl hmark hname hplan => exact ⟨[], .ends (by rfl) (by rfl) _⟩
  | exhausted hdecl hmark hname hplan hdeeper => exact ⟨[], .ends (by rfl) (by rfl) _⟩
  | finished hdecl hmark hname hplan hdeeper hrun => exact (hopens hdecl hmark hname hplan hdeeper).elim
  | stopped hdecl hmark hname hplan hdeeper hrun => exact (hopens hdecl hmark hname hplan hdeeper).elim

section Plans

variable {depth : Nat} {d : Declaration} {plan : List Step} {last : Frame hash} (hdecl : p.file.decl? id = some d)
  (hmark : d.mark = .untouched) (hname : d.name.name ≠ "") (hplan : d.plan? = some plan)

include hdecl hmark hname hplan

/-- A declaration whose plan is carried out is closed. -/
theorem resolveWithin_of_finished
    (hrun : runSteps (resolveWithin depth) id plan ⟨scopes, 0, p.start id d⟩ = (last, none)) :
    resolveWithin (depth + 1) scopes id p = (last.progress.closeDecl id d.name.name, none) := by
  rw [Progress.start] at hrun
  simp only [resolveWithin, hdecl, hmark, hname, hplan, if_false, hrun]

/-- A declaration whose plan stops with an error stays open. -/
theorem resolveWithin_of_stopped {error : Error}
    (hrun : runSteps (resolveWithin depth) id plan ⟨scopes, 0, p.start id d⟩ = (last, some error)) :
    resolveWithin (depth + 1) scopes id p = (last.progress, some error) := by
  rw [Progress.start] at hrun
  simp only [resolveWithin, hdecl, hmark, hname, hplan, if_false, hrun]

end Plans

/-- What is entered for the visits at a depth are their acts. -/
theorem resolveWithin_tracked (Q : String → DeclId → Prop) (depth : Nat) :
    Visit.Tracked Q (resolveWithin depth : Visit hash) (actsWithin depth) := by
  induction depth with
  | zero =>
    intro scopes id p openings _ _
    exact (resolveWithin_ends 0 scopes id p).tracks (.inl rfl) openings
  | succ depth ih =>
    intro scopes id p openings hbinds hnamed
    rw [actsWithin]
    rcases hopening : p.opening? id with _ | ⟨d, plan⟩
    · exact (resolveWithin_ends (depth + 1) scopes id p).tracks (.inr hopening) openings
    · obtain ⟨hdecl, hmark, hname, hplan⟩ := Progress.opening?_eq_some.mp hopening
      have hopen : Follows Q p openings [.opens id] (p.start id d) ((id, 0) :: openings) none :=
        ⟨.single (.opens hdecl hmark hname hplan), rfl⟩
      have hsteps := runSteps_follows (resolveWithin_lawful depth) ih openings hdecl hmark hplan hbinds hnamed rfl
      dsimp only
      rcases hrun : runSteps (resolveWithin depth) id plan ⟨scopes, 0, p.start id d⟩ with ⟨last, _ | error⟩
      · rw [hrun] at hsteps
        obtain ⟨hfollows, e, he, hopened, heplan, hcarried, hfilled⟩ := hsteps
        have hclose : Follows Q last.progress ((id, last.filled) :: openings) [.closes id]
            (last.progress.closeDecl id d.name.name) openings none :=
          ⟨.single (.closes he hopened heplan hcarried hfilled), rfl⟩
        rw [resolveWithin_of_finished hdecl hmark hname hplan hrun]
        exact hopen.trans (hfollows.trans hclose)
      · rw [hrun] at hsteps
        obtain ⟨left, hfollows⟩ := hsteps
        rw [resolveWithin_of_stopped hdecl hmark hname hplan hrun, List.append_nil]
        exact ⟨left, hopen.trans hfollows⟩

/-- Resolving a declaration makes moves only. -/
theorem resolve_tracked (Q : String → DeclId → Prop) : Visit.Tracked Q (resolve : Visit hash) resolveActs :=
  fun scopes id p => resolveWithin_tracked Q p.file.declarations.length scopes id p

end Visits

end DeclTree

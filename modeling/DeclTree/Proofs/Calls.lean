import DeclTree.Proofs.Journal

/-!
# Calls

The resolver is called again and again on one file, for one declaration with tables of the caller's own or for the whole
file, and each call goes on from what the last one left, also when that one failed. Every call makes moves that start
with nothing open (`Call.tracked`), so that a history of calls is a history of moves (`Runs`).
-/

namespace DeclTree

variable {hash : String → Nat}

/-- A call of the resolver. -/
inductive Call (hash : String → Nat) where
  | resolve (scopes : Scopes hash) (id : DeclId)
  | resolveFile

/-- Carry out a call. -/
def Call.run (call : Call hash) (p : Progress) : Outcome Progress :=
  match call with
  | .resolve scopes id => DeclTree.resolve scopes id p
  | .resolveFile => DeclTree.resolveFile hash p

/-- The state after calls, whether they succeed or fail. -/
def runCalls (p : Progress) : List (Call hash) → Progress
  | [] => p
  | call :: rest => runCalls (call.run p).1 rest

/-- Calls are carried out one after the other. -/
theorem runCalls_append (p : Progress) (calls more : List (Call hash)) :
    runCalls p (calls ++ more) = runCalls (runCalls p calls) more := by
  induction calls generalizing p with
  | nil => rfl
  | cons call calls ih => exact ih (call.run p).1

section Binding

variable {p : Progress} {scopes : Scopes hash}

/-- Binding a declaration changes nothing but tables, and records no opening or closing. -/
theorem declare_still (scopes : Scopes hash) (id : DeclId) (p : Progress) :
    (declare scopes id p).1.2.file = p.file ∧ (declare scopes id p).1.2.trail = p.trail := by
  have hends := declare_ends scopes id p
  generalize declare scopes id p = outcome at hends ⊢
  cases hends <;> exact ⟨rfl, rfl⟩

/-- Binding items leaves the file and the trail as they are. -/
theorem declareAll_still (ids : List DeclId) (scopes : Scopes hash) (p : Progress) :
    (declareAll ids scopes p).1.2.file = p.file ∧ (declareAll ids scopes p).1.2.trail = p.trail := by
  induction ids generalizing scopes p with
  | nil => exact ⟨rfl, rfl⟩
  | cons id rest ih =>
    have hfirst := declare_still scopes id p
    rw [declareAll]
    rcases hdeclare : declare scopes id p with ⟨⟨changed, q⟩, _ | error⟩
    · rw [hdeclare] at hfirst
      exact ⟨(ih changed q).1.trans hfirst.1, (ih changed q).2.trans hfirst.2⟩
    · rw [hdeclare] at hfirst
      exact hfirst

/-- Tables that are built from the declarations of a file bind what is known of their names. -/
theorem declareAll_binds {Q : String → DeclId → Prop} (hnamed : p.file.NamedBy Q) (ids : List DeclId)
    (hbinds : scopes.Binds Q) :
    (declareAll ids scopes p).Meets (fun reached => reached.1.Binds Q) fun _ _ => True := by
  induction ids generalizing scopes p with
  | nil => exact hbinds
  | cons id rest ih =>
    have hends := declare_ends scopes id p
    rw [declareAll]
    generalize declare scopes id p = outcome at hends ⊢
    cases hends with
    | @bound d changed hdecl hname hinsert =>
      have hnoted : (p.note (.declared d.name.name)).file.NamedBy Q := hnamed
      exact ih hnoted (hbinds.insert hinsert (hnamed id d hdecl))
    | _ => trivial

end Binding

/-- The acts of resolving declarations in order, until one fails. -/
def resolveAllActs (scopes : Scopes hash) : List DeclId → Progress → List Act
  | [], _ => []
  | id :: rest, p =>
    resolveActs scopes id p ++
      match DeclTree.resolve scopes id p with
      | (next, none) => resolveAllActs scopes rest next
      | (_, some _) => []

/-- The acts of resolving a file. Binding the items writes nothing. -/
def resolveFileActs (hash : String → Nat) (p : Progress) : List Act :=
  match declareAll p.file.items (.root hash) p with
  | (_, some error) => [.fails error]
  | ((scopes, p), none) => resolveAllActs scopes p.file.resolutionOrder (p.note (.rootScope scopes.top.size))

/-- The acts of a call. -/
def Call.acts (call : Call hash) (p : Progress) : List Act :=
  match call with
  | .resolve scopes id => resolveActs scopes id p
  | .resolveFile => resolveFileActs hash p

/-- The acts of calls, call by call. -/
def journal (p : Progress) : List (Call hash) → List (List Act)
  | [] => []
  | call :: rest => call.acts p :: journal (call.run p).1 rest

/-- Resolving declarations in order does what its acts say. -/
theorem resolveAll_tracked {Q : String → DeclId → Prop} {scopes : Scopes hash}
    (hbinds : scopes.Binds Q) (ids : List DeclId) {p : Progress} (hnamed : p.file.NamedBy Q)
    (openings : List (DeclId × Nat)) :
    Tracks Q p openings (resolveAllActs scopes ids p) (resolveAll scopes ids p) := by
  induction ids generalizing p with
  | nil => exact .still rfl rfl
  | cons id rest ih =>
    have hfirst := resolve_tracked Q scopes id p openings hbinds hnamed
    have hlawful := resolve_lawful scopes id p
    rw [resolveAllActs, resolveAll]
    rcases hrun : DeclTree.resolve scopes id p with ⟨next, _ | error⟩
    · rw [hrun] at hfirst hlawful
      exact (ih (hnamed.of_cleared_eq hlawful.1.cleared)).after hfirst
    · rw [hrun] at hfirst
      dsimp only
      rw [List.append_nil]
      exact hfirst

/-- What is known of names holds of the tables of a call. -/
def Call.Binds (Q : String → DeclId → Prop) : Call hash → Prop
  | .resolve scopes _ => scopes.Binds Q
  | .resolveFile => True

/-- Nothing has to be known of the tables of a call. -/
theorem Call.binds_true (call : Call hash) : call.Binds fun _ _ => True := by
  cases call with
  | resolve scopes id => exact fun _ _ _ _ _ => trivial
  | resolveFile => trivial

/-- A call makes moves only, and starts with nothing open. -/
theorem Call.tracked {Q : String → DeclId → Prop} {call : Call hash} (hbinds : call.Binds Q) {p : Progress}
    (hnamed : p.file.NamedBy Q) : Tracks Q p [] (call.acts p) (call.run p) := by
  cases call with
  | resolve scopes id => exact resolve_tracked Q scopes id p [] hbinds hnamed
  | resolveFile =>
    have hstill := declareAll_still p.file.items (.root hash) p
    have hbound := declareAll_binds hnamed p.file.items (.root hash _)
    change Tracks Q p [] (resolveFileActs hash p) (DeclTree.resolveFile hash p)
    rw [resolveFileActs, DeclTree.resolveFile]
    rcases hdeclare : declareAll p.file.items (.root hash) p with ⟨⟨scopes, q⟩, _ | error⟩
    · rw [hdeclare] at hstill hbound
      have hrest := resolveAll_tracked hbound q.file.resolutionOrder
        (show (q.note (.rootScope scopes.top.size)).file.NamedBy Q from hstill.1 ▸ hnamed) []
      have hstart : Follows Q p [] [] (q.note (.rootScope scopes.top.size)) [] none := .still hstill.1 hstill.2
      exact hrest.after hstart
    · rw [hdeclare] at hstill
      exact ⟨[], .fail hstill.1 hstill.2 error⟩

/-- Histories of moves in which nothing is open at the start of each part, whatever the part before has left. -/
inductive Runs (Q : String → DeclId → Prop) : SourceFile → List (List Act) → SourceFile → Prop where
  | nil (file : SourceFile) : Runs Q file [] file
  | cons {file next last left error acts rest} (hmoves : Moves Q ⟨file, [], none⟩ acts ⟨next, left, error⟩)
    (hruns : Runs Q next rest last) : Runs Q file (acts :: rest) last

/-- The moves of a call lead to the file that the call leaves. -/
theorem Call.moves {Q : String → DeclId → Prop} {call : Call hash} (hbinds : call.Binds Q) {p : Progress}
    (hnamed : p.file.NamedBy Q) :
    ∃ left, Moves Q ⟨p.file, [], none⟩ (call.acts p) ⟨(call.run p).1.file, left, (call.run p).2⟩ ∧
      ((call.run p).2 = none → left = []) := by
  have htracked := Call.tracked hbinds hnamed
  rcases hrun : call.run p with ⟨q, _ | error⟩
  · rw [hrun] at htracked
    exact ⟨[], htracked.moves, fun _ => rfl⟩
  · rw [hrun] at htracked
    obtain ⟨left, hfollows⟩ := htracked
    refine ⟨left, ?_, by simp⟩
    rw [List.append_nil] at hfollows
    exact hfollows.moves

/-- Resolving declarations in order advances the file. -/
theorem resolveAll_advances (scopes : Scopes hash) (ids : List DeclId) (p : Progress) :
    Advances none p.file (resolveAll scopes ids p).1.file := by
  induction ids generalizing p with
  | nil => exact .refl _ _
  | cons id rest ih =>
    rw [resolveAll]
    rcases hrun : DeclTree.resolve scopes id p with ⟨next, _ | error⟩
    · exact (resolve_lawful.advances hrun).trans (ih next)
    · exact resolve_lawful.advances hrun

/-- A call advances the file. -/
theorem Call.advances (call : Call hash) (p : Progress) : Advances none p.file (call.run p).1.file := by
  cases call with
  | resolve scopes id => exact resolve_lawful.advances rfl
  | resolveFile =>
    have hstill := (declareAll_still p.file.items (.root hash) p).1
    change Advances none p.file (DeclTree.resolveFile hash p).1.file
    rw [DeclTree.resolveFile]
    rcases hdeclare : declareAll p.file.items (.root hash) p with ⟨⟨scopes, q⟩, _ | error⟩
    · rw [hdeclare] at hstill
      have hrest := resolveAll_advances scopes q.file.resolutionOrder (q.note (.rootScope scopes.top.size))
      exact hstill ▸ hrest
    · rw [hdeclare] at hstill
      exact hstill ▸ .refl _ _

/-- Calls advance the file, also where some of them fail. -/
theorem runCalls_advances (p : Progress) (calls : List (Call hash)) : Advances none p.file (runCalls p calls).file := by
  induction calls generalizing p with
  | nil => exact .refl _ _
  | cons call rest ih => exact (call.advances p).trans (ih _)

/-- A history of calls is a history of moves. -/
theorem runs_journal {Q : String → DeclId → Prop} {calls : List (Call hash)} (hbinds : ∀ call ∈ calls, call.Binds Q)
    {p : Progress} (hnamed : p.file.NamedBy Q) : Runs Q p.file (journal p calls) (runCalls p calls).file := by
  induction calls generalizing p with
  | nil => exact .nil _
  | cons call rest ih =>
    obtain ⟨left, hmoves, -⟩ := Call.moves (hbinds call List.mem_cons_self) hnamed
    refine .cons hmoves (ih (fun c hc => hbinds c (List.mem_cons_of_mem _ hc)) ?_)
    exact hnamed.of_cleared_eq (call.advances p).cleared

/-- The acts of calls lead to the file that the calls leave. -/
theorem Runs.replay_eq {Q : String → DeclId → Prop} {file last : SourceFile} {parts : List (List Act)}
    (h : Runs Q file parts last) : file.replay parts.flatten = last := by
  induction h with
  | nil file => rfl
  | cons hmoves _ ih =>
    rw [List.flatten_cons, SourceFile.replay_append, ← ih]
    exact congrArg (SourceFile.replay · _) hmoves.replay_eq

/-- What holds at the start, what every move keeps and what does not depend on what earlier calls have left open holds
at every moment of a history; it may speak of the acts up to that moment. -/
theorem Runs.moment {Q : String → DeclId → Prop} {P : List Act → Ledger → Prop}
    (hstep : ∀ {past first act second}, Move Q first act second → P past first → P (past ++ [act]) second)
    (hrest : ∀ {past ledger}, P past ledger → P past ⟨ledger.file, [], none⟩) {file last : SourceFile}
    {parts : List (List Act)} (h : Runs Q file parts last) {past : List Act} (hstart : P past ⟨file, [], none⟩)
    {acts : List Act} (hacts : acts <+: parts.flatten) :
    ∃ ledger, P (past ++ acts) ledger ∧ ledger.file = file.replay acts := by
  have hmoves {first last : Ledger} {acts past : List Act} (h : Moves Q first acts last) (hfirst : P past first) :
      P (past ++ acts) last := by
    induction h generalizing past with
    | nil => exact (List.append_nil past).symm ▸ hfirst
    | cons hmove _ ih => simpa using ih (hstep hmove hfirst)
  induction h generalizing past acts with
  | nil file =>
    obtain rfl := List.prefix_nil.mp hacts
    exact ⟨_, (List.append_nil past).symm ▸ hstart, rfl⟩
  | @cons file next last left error part rest hpart hruns ih =>
    rcases List.prefix_or_prefix_of_prefix hacts (List.prefix_append part rest.flatten) with hshort | hlong
    · -- The moment is in the first part.
      obtain ⟨more, rfl⟩ := hshort
      obtain ⟨middle, hfirst, -⟩ := hpart.split
      exact ⟨middle, hmoves hfirst hstart, hfirst.replay_eq.symm⟩
    · obtain ⟨later, rfl⟩ := hlong
      have hlater : later <+: rest.flatten := (List.prefix_append_right_inj part).mp hacts
      obtain ⟨ledger, hledger, hfile⟩ := ih (hrest (hmoves hpart hstart)) hlater
      rw [List.append_assoc] at hledger
      refine ⟨ledger, hledger, ?_⟩
      rw [hfile, SourceFile.replay_append]
      exact congrArg (SourceFile.replay · later) hpart.replay_eq.symm

/-- A chain of tables that is built from declarations of a file, each under its own name. -/
inductive Scopes.Built (file : SourceFile) : Scopes hash → Prop where
  | root : Scopes.Built file (.root hash)
  | push {scopes} (h : Scopes.Built file scopes) : Scopes.Built file scopes.push
  | insert {scopes changed id d} (h : Scopes.Built file scopes) (hdecl : file.decl? id = some d)
    (hinsert : scopes.insert? d.name.name id = some changed) : Scopes.Built file changed

/-- Names are bound to declarations of the name. -/
theorem Scopes.Built.binds {file : SourceFile} {scopes : Scopes hash} (h : scopes.Built file) :
    scopes.Binds fun name id => file.isNamed name id = true := by
  induction h with
  | root => exact .root hash _
  | push _ ih => exact ih.push
  | insert _ hdecl hinsert ih => exact ih.insert hinsert (SourceFile.isNamed_iff.mpr ⟨_, hdecl, rfl⟩)

/-- The tables of a call are built from declarations of a file. -/
def Call.Built (file : SourceFile) : Call hash → Prop
  | .resolve scopes _ => scopes.Built file
  | .resolveFile => True

/-- Tables that are built from declarations bind each one under its own name. -/
theorem Call.Built.binds {file : SourceFile} {call : Call hash} (h : call.Built file) :
    call.Binds fun name id => file.isNamed name id = true := by
  cases call with
  | resolve scopes id => exact Scopes.Built.binds h
  | resolveFile => trivial

/-- A declaration has its own name. -/
theorem SourceFile.namedBy_isNamed (file : SourceFile) : file.NamedBy fun name id => file.isNamed name id = true :=
  fun _ d hdecl => isNamed_iff.mpr ⟨d, hdecl, rfl⟩

end DeclTree

import DeclTree.Resolution.Links
import DeclTree.Resolution.Plan
import DeclTree.SymbolTable

/-!
# Carrying out a plan

A declaration is opened, its plan is carried out, and it is closed. A type that is reached by value is resolved on the
way, with the scopes of the declaration that mentions it; meeting a declaration that is still open means that the walk
has come back to it. A failure leaves marks and links as they were when it arose, so every result carries the state that
was reached.

Opening a declaration uses up one that is untouched, so that the nesting of openings is bounded by the size of the
arena; `resolve` supplies that bound.
-/

namespace DeclTree

/-- The file as it stands and what has been recorded, newest first. -/
structure Progress where
  file : SourceFile
  events : List Event

/-- A state that was reached, and the error that stopped the work there, if any. -/
abbrev Outcome (σ : Type) := σ × Option Error

/-- Go on from an outcome unless it has failed. -/
def Outcome.andThen {σ : Type} (outcome : Outcome σ) (next : σ → Outcome σ) : Outcome σ :=
  match outcome with
  | (state, none) => next state
  | (state, some error) => (state, some error)

namespace Progress

/-- Record an event. -/
def note (p : Progress) (event : Event) : Progress := { p with events := event :: p.events }

/-- Mark a declaration as opened. -/
def openDecl (p : Progress) (id : DeclId) (name : String) : Progress :=
  { p with file := p.file.setMark id .opened }.note (.opened id name)

/-- Mark a declaration as closed. -/
def closeDecl (p : Progress) (id : DeclId) (name : String) : Progress :=
  { p with file := p.file.setMark id .closed }.note (.closed id name)

/-- The error that names a declaration outside the arena. -/
def outOfRange (p : Progress) (id : DeclId) : Error :=
  .outOfRange id p.file.declarations.length

end Progress

/-- The state of carrying out the plan of a declaration: the scopes at the current step, the number of links filled so
far, and the progress made. -/
structure Frame (hash : String → Nat) where
  scopes : Scopes hash
  filled : Nat
  progress : Progress

variable {hash : String → Nat}

/-- Bind the name of a declaration in the innermost scope. -/
def declare (scopes : Scopes hash) (id : DeclId) (p : Progress) : Outcome (Scopes hash × Progress) :=
  match p.file.decl? id with
  | none => ((scopes, p), some (p.outOfRange id))
  | some d =>
    if d.name.name = "" then ((scopes, p), some (.missingIdentifier d.span))
    else match scopes.insert? d.name.name id with
      | none => ((scopes, p.note (.alreadyDeclared d.name.name)), some (.duplicateDeclaration d.name.name d.span))
      | some scopes => ((scopes, p.note (.declared d.name.name)), none)

/-- How a declaration that is met on the way is resolved. -/
abbrev Visit (hash : String → Nat) := Scopes hash → DeclId → Progress → Outcome Progress

/-- Fill the next link of `owner` with what a name stands for. A type that is reached by value is resolved before the
link is filled. -/
def linkNext (visit : Visit hash) (owner : DeclId) (name : Ident) (reach : Reach) (frame : Frame hash) :
    Outcome (Frame hash) :=
  match frame.scopes.find? name.name with
  | none => (frame, some (.unknownType name.name name.span))
  | some target =>
    match frame.progress.file.decl? target with
    | none => (frame, some (frame.progress.outOfRange target))
    | some d =>
      if d.isVariable then (frame, some (.notAType name.name name.span))
      else
        let noted := frame.progress.note (.linked name.name target reach)
        let (reached, error) : Outcome Progress :=
          match reach with
          | .byValue => visit frame.scopes target noted
          | .indirect => (noted, none)
        match error with
        | some error => ({ frame with progress := reached }, some error)
        | none =>
          let file := reached.file.setLink owner frame.filled target
          ({ frame with filled := frame.filled + 1, progress := { reached with file := file } }, none)

/-- Carry out one step of the plan of `owner`. -/
def runStep (visit : Visit hash) (owner : DeclId) (step : Step) (frame : Frame hash) : Outcome (Frame hash) :=
  match step with
  | .link name reach => linkNext visit owner name reach frame
  | .enter => ({ frame with scopes := frame.scopes.push }, none)
  | .leave => ({ frame with scopes := frame.scopes.pop?.getD frame.scopes }, none)
  | .declare id =>
    match declare frame.scopes id frame.progress with
    | ((scopes, p), some error) => ({ frame with scopes := scopes, progress := p }, some error)
    | ((scopes, p), none) =>
      let (p, error) := visit scopes id p
      ({ frame with scopes := scopes, progress := p }, error)
  | .avoid names id span =>
    match frame.progress.file.decl? id with
    | none => (frame, some (frame.progress.outOfRange id))
    | some d =>
      (frame, if d.name.name ∈ names then some (.duplicateDeclaration d.name.name span) else none)
  | .reject error => (frame, some error)

/-- Carry out the steps of the plan of `owner` in order, until one fails. -/
def runSteps (visit : Visit hash) (owner : DeclId) : List Step → Frame hash → Outcome (Frame hash)
  | [], frame => (frame, none)
  | step :: rest, frame => (runStep visit owner step frame).andThen (runSteps visit owner rest)

/-- Resolve a declaration with at most `depth` openings inside one another. A chain of openings that is longer than the
arena would have come back to an open declaration, so with the size of the arena as depth the last case is not met. -/
def resolveWithin (depth : Nat) (scopes : Scopes hash) (id : DeclId) (p : Progress) : Outcome Progress :=
  match p.file.decl? id with
  | none => (p, some (p.outOfRange id))
  | some d =>
    match d.mark with
    | .closed => (p, none)
    | .opened => (p, some (.circularType d.name.name d.span))
    | .untouched =>
      if d.name.name = "" then (p, some (.missingIdentifier d.span))
      else
        let p := p.note (.resolving d.kind.keyword d.name.name)
        match d.plan?, depth with
        | none, _ => (p, some (.unsupportedKind d.kind.keyword d.name.name d.span))
        | some steps, depth + 1 =>
          match runSteps (resolveWithin depth) id steps ⟨scopes, 0, p.openDecl id d.name.name⟩ with
          | (frame, some error) => (frame.progress, some error)
          | (frame, none) => (frame.progress.closeDecl id d.name.name, none)
        | some _, 0 => (p, some (.circularType d.name.name d.span))

/-- Resolve one declaration, looking names up in `scopes`. A closed declaration is left alone. -/
def resolve (scopes : Scopes hash) (id : DeclId) (p : Progress) : Outcome Progress :=
  resolveWithin p.file.declarations.length scopes id p

/-- Bind the names of declarations in order. -/
def declareAll : List DeclId → Scopes hash → Progress → Outcome (Scopes hash × Progress)
  | [], scopes, p => ((scopes, p), none)
  | id :: rest, scopes, p => (declare scopes id p).andThen fun (scopes, p) => declareAll rest scopes p

/-- Resolve declarations in order. -/
def resolveAll (scopes : Scopes hash) : List DeclId → Progress → Outcome Progress
  | [], p => (p, none)
  | id :: rest, p => (resolve scopes id p).andThen (resolveAll scopes rest)

namespace SourceFile

/-- The positions of the top-level declarations, types before variables. -/
def resolutionOrder (file : SourceFile) : List DeclId :=
  let (values, types) := file.topLevel.partition (·.2.isVariable)
  (types ++ values).map (·.1)

end SourceFile

/-- Resolve a whole file: bind the top-level names in a scope of their own, then resolve types before variables. -/
def resolveFile (hash : String → Nat) (p : Progress) : Outcome Progress :=
  match declareAll p.file.items (.root hash) p with
  | ((_, p), some error) => (p, some error)
  | ((scopes, p), none) =>
    resolveAll scopes p.file.resolutionOrder (p.note (.rootScope scopes.top.size))

end DeclTree

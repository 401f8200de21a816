import DeclTree.Lowering.Unit
import DeclTree.Resolution.Run

/-!
# Compiling a file

A file is resolved, unless that is switched off, and then generated. The result carries the file as it stands
afterwards, also when the work failed.
-/

namespace DeclTree

/-- What a compilation may be told. -/
structure Options where
  /-- Resolve the types before generating. -/
  resolve : Bool
  /-- Start the text with a comment. -/
  banner : Bool
deriving DecidableEq

/-- The result of a compilation. -/
structure Compilation where
  file : SourceFile
  /-- What was recorded, oldest first. -/
  events : List Event
  result : Except Error String

/-- Resolve a file on its own: the file as it stands afterwards, what was recorded, oldest first, and the error. -/
def SourceFile.resolve (hash : String → Nat) (file : SourceFile) : SourceFile × List Event × Option Error :=
  let (p, error) := resolveFile hash ⟨file, []⟩
  (p.file, p.events.reverse, error)

/-- Compile a file, with symbol tables of the given hash. -/
def compile (hash : String → Nat) (file : SourceFile) (options : Options) : Compilation :=
  let (resolved, events, error) :=
    if options.resolve then file.resolve hash else (file, [.resolutionSkipped], none)
  match error with
  | some e => ⟨resolved, events, .error e⟩
  | none =>
    let (more, result) := generate resolved options.banner
    ⟨resolved, events ++ .generating :: more, result⟩

end DeclTree

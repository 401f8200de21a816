import DeclTree.Compilation
import DeclTree.Document.Validate
import DeclTree.Report
import DeclTree.Workspace

/-!
# Building files

Load a document from a file, compile it, and put the text in the place of the output file. Nothing is written unless
everything before it has succeeded.
-/

namespace DeclTree

variable {m : Type → Type} [Monad m] (hash : String → Nat)

/-- The document of a file. -/
def loadFile (files : FileAccess m) (path : String) : m (Except Error SourceFile) := do
  match ← files.read path with
  | .error fault => return .error (.unreadable path fault)
  | .ok text => return SourceFile.ofDocument text

/-- The extension of C files. -/
def cExtension : String := "c"

/-- Where the text made from a file goes, unless the output is named. -/
def outputPath (input : String) (output : Option String) : String :=
  output.getD (Path.withExtension input cExtension)

/-- A finished build. -/
structure Built where
  output : String
  statistics : Statistics

/-- Load, compile and write one file. -/
def buildFile (files : FileAccess m) (input : String) (output : Option String) (options : Options) :
    m (Except Error Built) := do
  match ← loadFile files input with
  | .error e => return .error e
  | .ok file =>
    match (compile hash file options).result with
    | .error e => return .error e
    | .ok text =>
      let path := outputPath input output
      match ← files.replace path text with
      | .error e => return .error e
      | .ok () => return .ok ⟨path, { Statistics.ofFile file with bytes := text.utf8ByteSize }⟩

/-- Load and resolve one file without making anything from it. -/
def checkFile (files : FileAccess m) (input : String) : m (Except Error Statistics) := do
  match ← loadFile files input with
  | .error e => return .error e
  | .ok file =>
    match file.resolve hash with
    | (_, _, some e) => return .error e
    | (_, _, none) => return .ok (.ofFile file)

end DeclTree

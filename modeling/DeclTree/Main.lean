import DeclTree.CommandLine.Run

/-!
# The program

The command line over the files of the system.
-/

namespace DeclTree.Main

/-- The fault that an error of the system stands for. -/
def faultOf : IO.Error → FileFault
  | .noFileOrDirectory .. => .notFound
  | .resourceBusy .. => .busy
  | .alreadyExists .. => .nameTaken
  | .invalidArgument _ code _ => if code = 36 then .tooLong else .invalidPath
  | .inappropriateType _ code _ => if code = 20 then .notDirectory else .isDirectory
  | e => .other (toString e)

/-- The text of a file. -/
def readText (path : String) : IO (Except FileFault String) := do
  try
    match String.fromUTF8? (← IO.FS.readBinFile path) with
    | some text => return .ok text
    | none => return .error .notText
  catch e => return .error (faultOf e)

/-- The directory of a path. -/
def directoryOf (path : String) : String :=
  (if Path.isAbsolute path then "/" else "./") ++ "/".intercalate (Path.parent path)

/-- Write a text to a new file. A new file that cannot be written is removed. -/
def writeNew (temporary content : String) : IO Unit := do
  let file ← IO.FS.Handle.mk temporary .writeNew
  try
    file.putStr content
    file.flush
  catch e =>
    IO.FS.removeFile temporary
    throw e

/-- Move a finished file to its place, or remove it. -/
def moveInto (temporary path : String) : IO (Except Error Unit) := do
  try
    IO.FS.rename temporary path
    return .ok ()
  catch e =>
    IO.FS.removeFile temporary
    return .error (.unplaceable (faultOf e))

/-- Replace a file in one step: the text goes to a new file in the same directory, which then takes its place. -/
def replaceText (path content : String) : IO (Except Error Unit) := do
  let directory := directoryOf path
  let temporary := directory ++ "/.tmp" ++ toString (← IO.monoNanosNow)
  try
    writeNew temporary content
  catch e => return .error (.noTemporary directory (faultOf e))
  moveInto temporary path

/-- Access to the files of the system. -/
def access : FileAccess IO := ⟨readText, replaceText⟩

end DeclTree.Main

/-- Run the program with the arguments of the command line. -/
def main (arguments : List String) : IO UInt32 := do
  let run ← DeclTree.CommandLine.run DeclTree.nameHash DeclTree.Main.access arguments
  IO.print run.out
  IO.eprint run.err
  return UInt32.ofNat run.status

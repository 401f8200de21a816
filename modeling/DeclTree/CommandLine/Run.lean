import DeclTree.Build
import DeclTree.CommandLine.Arguments
import DeclTree.Sample.Catalogue

/-!
# Running a command

What the program prints and with which status it ends, given access to files. A failure is reported on the error stream,
and with the JSON flag also as a report on the output stream.
-/

namespace DeclTree.CommandLine

/-- The end of a run: its status, what it printed, and the error that it ended with, if any. -/
structure Run where
  status : Nat
  out : String
  err : String
  error : Option Error

/-- The line that tells the version. -/
def versionLine : String := "creedc 0.1.0\n"

/-- How the program is used. -/
def usage : String :=
  "Usage: creedc [OPTIONS] [FILE] [COMMAND]\n\n" ++
  "Commands: build, check, selftest, fixture, version, help\n" ++
  "Options: -o/--output <FILE>, --no-resolve, --banner, --json, -h/--help, -V/--version\n"

/-- A run that succeeds. -/
def success (out : String) : Run := ⟨0, out, "", none⟩

/-- A run that fails with a message. -/
def failure (out message : String) (error : Option Error) : Run := ⟨1, out, "Error: " ++ message ++ "\n", error⟩

/-- The lines of a report. -/
def reportLines (report : Report) : String := (Document.ofReport report).pretty ++ "\n"

/-- A run that fails on a file. -/
def failureOn (json : Bool) (out input : String) (e : Error) : Run :=
  failure (out ++ if json then reportLines (.ofError input e) else "")
    s!"failed to compile {input}: {e.message}" (some e)

/-- The lines after a finished build. -/
def buildLines (resolve : Bool) (built : Built) : String :=
  let s := built.statistics
  s!"  [✓] Loaded {s.types + s.globals + s.functions} declarations ({s.types} types, {s.globals} variables, " ++
  s!"{s.functions} functions)\n" ++
  (if resolve then "  [✓] Types resolved\n" else "") ++
  s!"  [✓] Generated C code ({s.bytes} bytes)\n\n✅ Output: {built.output}\n"

variable (hash : String → Nat)

/-- The line of a sample in the self-test. -/
def sampleLine (sample : Sample) : String :=
  match sample.failure? hash with
  | none => s!"  [✓] {sample.name}\n"
  | some reason => s!"  [✗] {sample.name}: {reason}\n"

/-- Compile all samples. -/
def selfTest (samples : List Sample) : Run :=
  let out := "Creed self-test\n" ++ String.join (samples.map (sampleLine hash))
  let failed := samples.countP fun sample => (sample.failure? hash).isSome
  if failed = 0 then success (out ++ s!"\n✅ {samples.length} fixtures passed\n")
  else failure out s!"{failed} of {samples.length} fixtures failed" none

/-- Print the tree of a sample. -/
def printSample (name : String) : Run :=
  match Sample.find? name with
  | some sample => success ((Document.ofSourceFile sample.file).pretty ++ "\n")
  | none =>
    let names := ", ".intercalate (Sample.all.map (·.name))
    failure "" s!"unknown fixture `{name}` (available: {names})" none

variable {m : Type → Type} [Monad m]

/-- Build a file. -/
def runBuild (files : FileAccess m) (request : Request) (input : String) (output : Option String) : m Run := do
  let opening := if request.json then "" else s!"Creed Compiler v0.1.0\nCompiling: {input}\n"
  match ← buildFile hash files input output ⟨request.resolve, request.banner⟩ with
  | .error e => return failureOn request.json opening input e
  | .ok built =>
    if request.json then return success (reportLines (.ofSuccess input built.statistics))
    else return success (opening ++ buildLines request.resolve built)

/-- Check a file. -/
def runCheck (files : FileAccess m) (request : Request) (input : String) : m Run := do
  let opening := if request.json then "" else s!"Checking: {input}\n"
  match ← checkFile hash files input with
  | .error e => return failureOn request.json opening input e
  | .ok statistics =>
    if request.json then return success (reportLines (.ofSuccess input statistics))
    else return success (opening ++ "✅ No errors found\n")

/-- Carry out a request. -/
def runRequest (files : FileAccess m) (request : Request) : m Run :=
  match request.command with
  | .build input output => runBuild hash files request input output
  | .check input => runCheck hash files request input
  | .selfTest => return selfTest hash Sample.all
  | .sample name => return printSample name
  | .version => return success (versionLine ++ "Creed Compiler Backend\nLicense: Apache-2.0\n")

/-- Run the program with the given arguments, with symbol tables of the given hash. -/
def run (files : FileAccess m) (arguments : List String) : m Run :=
  match parse arguments with
  | .request request => runRequest hash files request
  | .version => return success versionLine
  | .help => return success usage
  | .refused => return ⟨2, "", usage, none⟩

end DeclTree.CommandLine

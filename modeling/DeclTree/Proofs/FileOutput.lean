import DeclTree.Proofs.Replacing
import DeclTree.Proofs.Sufficiency

/-!
# Steps over files

A step loads, checks or builds a file of a workspace, or writes a text to it, on a device that may fail at any act.
Whatever came before it, a step does one of two things: it leaves the workspace as it was, or it succeeds and replaces
the one file that its output path leads to. A run is a row of steps, each on a device of its own; what a run changes was
replaced by one of its steps.
-/

namespace DeclTree

variable {hash : String → Nat}

/-- A step over files. -/
inductive FileStep where
  | build (input : String) (output : Option String) (options : Options)
  | check (input : String)
  | load (input : String)
  | write (path content : String)

/-- The answer of a step that succeeds. -/
inductive FileAnswer where
  | built (build : Built)
  | checked (statistics : Statistics)
  | loaded (file : SourceFile)
  | written

open Workspace (access)

namespace FileStep

/-- Take a step. -/
def run {m : Type → Type} [Monad m] (hash : String → Nat) (files : FileAccess m) :
    FileStep → m (Except Error FileAnswer)
  | build input output options => do return (← buildFile hash files input output options).map .built
  | check input => do return (← checkFile hash files input).map .checked
  | load input => do return (← loadFile files input).map .loaded
  | write path content => do return (← files.replace path content).map fun _ => .written

/-- The workspace after a row of steps, each on its device. -/
def runAll (hash : String → Nat) (w : Workspace) (steps : List (Device × FileStep)) : Workspace :=
  steps.foldl (fun w (device, step) => (step.run hash (access device) w).2) w

/-- No steps leave the workspace as it is. -/
theorem runAll_nil (hash : String → Nat) (w : Workspace) : runAll hash w [] = w := by rw [runAll, List.foldl_nil]

/-- A row of steps goes on from what its first step leaves. -/
theorem runAll_cons (hash : String → Nat) (w : Workspace) (device : Device) (step : FileStep)
    (rest : List (Device × FileStep)) :
    runAll hash w ((device, step) :: rest) = runAll hash (step.run hash (access device) w).2 rest := by
  rw [runAll, List.foldl_cons, runAll]

/-- The path that a step loads. -/
def input? : FileStep → Option String
  | build input _ _ => some input
  | check input => some input
  | load input => some input
  | write _ _ => none

/-- The path that a step replaces when it succeeds. -/
def target? : FileStep → Option String
  | build input output _ => some (outputPath input output)
  | check _ => none
  | load _ => none
  | write path _ => some path

/-- Why a step fails: in loading, in resolution or compilation, or in replacing the output. -/
inductive Fails (hash : String → Nat) (device : Device) (w : Workspace) : FileStep → Error → Prop
  | unloaded {step : FileStep} {input : String} {error : Error} (hinput : step.input? = some input)
    (h : device.FailsToLoad w input error) : Fails hash device w step error
  | unresolved {input : String} {file : SourceFile} {error : Error} (holds : w.Holds input file)
    (h : (file.resolve hash).2.2 = some error) : Fails hash device w (.check input) error
  | uncompiled {input : String} {output : Option String} {options : Options} {file : SourceFile} {error : Error}
    (holds : w.Holds input file) (h : (compile hash file options).result = .error error) :
    Fails hash device w (.build input output options) error
  | unplaced {input text : String} {output : Option String} {options : Options} {file : SourceFile} {error : Error}
    (holds : w.Holds input file) (compiled : (compile hash file options).result = .ok text)
    (h : device.FailsToReplace w (outputPath input output) text error) :
    Fails hash device w (.build input output options) error
  | unwritten {path content : String} {error : Error} (h : device.FailsToReplace w path content error) :
    Fails hash device w (.write path content) error

/-- What a step answers, and what it leaves of a workspace. -/
inductive Outcome (hash : String → Nat) (device : Device) (w : Workspace) :
    FileStep → Except Error FileAnswer → Workspace → Prop
  | failed {step : FileStep} {error : Error} (fails : step.Fails hash device w error) :
    Outcome hash device w step (.error error) w
  | checked {input : String} {file : SourceFile} (holds : w.Holds input file)
    (resolved : (file.resolve hash).2.2 = none) :
    Outcome hash device w (.check input) (.ok (.checked (.ofFile file))) w
  | loaded {input : String} {file : SourceFile} (holds : w.Holds input file) :
    Outcome hash device w (.load input) (.ok (.loaded file)) w
  | built {input text : String} {output : Option String} {options : Options} {file : SourceFile} {place : List String}
    {after : Workspace} (holds : w.Holds input file) (compiled : (compile hash file options).result = .ok text)
    (replaced : w.Replaced (outputPath input output) text place after) :
    Outcome hash device w (.build input output options)
      (.ok (.built ⟨outputPath input output, { Statistics.ofFile file with bytes := text.utf8ByteSize }⟩)) after
  | written {path content : String} {place : List String} {after : Workspace}
    (replaced : w.Replaced path content place after) :
    Outcome hash device w (.write path content) (.ok .written) after

section Outcome

variable (hash) (device : Device) (w : Workspace)

/-- A build fails, or replaces its output by the text of the document that it loads. -/
theorem outcome_build (input : String) (output : Option String) (options : Options) :
    Outcome hash device w (.build input output options)
      ((buildFile hash (access device) input output options w).1.map .built)
      (buildFile hash (access device) input output options w).2 := by
  obtain ⟨error, hload, hfails⟩ | ⟨file, hload, hholds⟩ := loadFile_cases device input w
  · rw [buildFile_of_load_error hash hload]
    exact .failed (.unloaded rfl hfails)
  · cases hcompile : (compile hash file options).result with
    | error error =>
      rw [buildFile_of_compile_error hash hload hcompile]
      exact .failed (.uncompiled hholds hcompile)
    | ok text =>
      rw [buildFile_of_compile hash hload hcompile]
      obtain ⟨place, hreplace, hplace⟩ | ⟨error, hreplace, hfails⟩ :=
        device.replace_cases w (outputPath input output) text
      · rw [hreplace]
        exact .built hholds hcompile (Workspace.replaced_of_target hplace text)
      · rw [hreplace]
        exact .failed (.unplaced hholds hcompile hfails)

/-- A check fails, or the document that it loads resolves. -/
theorem outcome_check (input : String) :
    Outcome hash device w (.check input) ((checkFile hash (access device) input w).1.map .checked)
      (checkFile hash (access device) input w).2 := by
  obtain ⟨error, hload, hfails⟩ | ⟨file, hload, hholds⟩ := loadFile_cases device input w
  · rw [checkFile_of_load_error hash hload]
    exact .failed (.unloaded rfl hfails)
  · rw [checkFile_of_load hash hload]
    cases hresolve : (file.resolve hash).2.2 with
    | none => exact .checked hholds hresolve
    | some error => exact .failed (.unresolved hholds hresolve)

/-- What any step does. -/
theorem outcome (step : FileStep) :
    Outcome hash device w step (step.run hash (access device) w).1 (step.run hash (access device) w).2 := by
  cases step with
  | build input output options => exact outcome_build hash device w input output options
  | check input => exact outcome_check hash device w input
  | load input =>
    rw [run, Workspace.bind_apply]
    obtain ⟨error, hload, hfails⟩ | ⟨file, hload, hholds⟩ := loadFile_cases device input w
    · rw [hload]
      exact .failed (.unloaded rfl hfails)
    · rw [hload]
      exact .loaded hholds
  | write path content =>
    rw [run, Workspace.bind_apply, Workspace.access_replace]
    obtain ⟨place, hreplace, hplace⟩ | ⟨error, hreplace, hfails⟩ := device.replace_cases w path content
    · rw [hreplace]
      exact .written (Workspace.replaced_of_target hplace content)
    · rw [hreplace]
      exact .failed (.unwritten hfails)

end Outcome

/-- Loading a text that is no document fails, and changes nothing. -/
theorem run_load_of_refused {w : Workspace} {path text : String} {error : Error} (hread : w.read path = .ok text)
    (hrefused : SourceFile.ofDocument text = .error error) :
    (FileStep.load path).run hash (access .reliable) w = (.error error, w) := by
  have hdocument : Device.reliable.read w path = .ok text := hread
  rw [run, Workspace.bind_apply, loadFile_of_read hdocument, hrefused]
  rfl

/-- A step that changes anything succeeds and replaces a file. -/
theorem Outcome.eq_or_replaced {device : Device} {before after : Workspace} {step : FileStep}
    {answer : Except Error FileAnswer} (h : Outcome hash device before step answer after) :
    after = before ∨ ∃ path content place, step.target? = some path ∧ (∃ success, answer = .ok success) ∧
      before.Replaced path content place after := by
  cases h with
  | failed | checked | loaded => exact .inl rfl
  | built _ _ replaced => exact .inr ⟨_, _, _, rfl, ⟨_, rfl⟩, replaced⟩
  | written replaced => exact .inr ⟨_, _, _, rfl, ⟨_, rfl⟩, replaced⟩

/-- What a run changes is where the path of one of its steps leads, and that step succeeded. -/
theorem exists_step_of_changed {w : Workspace} {place : List String} (steps : List (Device × FileStep))
    (hchanged : (runAll hash w steps).entryAt? place ≠ w.entryAt? place) :
    ∃ front device step back path, steps = front ++ (device, step) :: back ∧ step.target? = some path ∧
      (∃ success, (step.run hash (access device) (runAll hash w front)).1 = .ok success) ∧
      (runAll hash w front).target path = .ok place := by
  induction steps generalizing w with
  | nil => exact absurd rfl hchanged
  | cons first rest ih =>
    obtain ⟨device, step⟩ := first
    by_cases hfirst : (step.run hash (access device) w).2.entryAt? place = w.entryAt? place
    · rw [← hfirst] at hchanged
      obtain ⟨front, later, laterStep, back, path, rfl, htarget, hsuccess, hleads⟩ := ih hchanged
      exact ⟨(device, step) :: front, later, laterStep, back, path, rfl, htarget, hsuccess, hleads⟩
    · obtain hsame | ⟨path, content, there, htarget, hsuccess, hreplaced⟩ := (outcome hash device w step).eq_or_replaced
      · exact absurd (congrArg (Workspace.entryAt? · place) hsame) hfirst
      · obtain rfl : place = there := not_not.mp fun hne => hfirst (hreplaced.others place hne)
        exact ⟨[], device, step, rest, path, rfl, htarget, hsuccess, hreplaced.denotes⟩

end FileStep

/-- A step changes a workspace as a whole or not at all. -/
structure FileStep.AllOrNothing (hash : String → Nat) (device : Device) (step : FileStep) (before : Workspace)
    (answer : Except Error FileAnswer) (after : Workspace) : Prop where
  /-- A step that gives an error changes nothing, and it gives one for a cause. -/
  failed : ∀ error, answer = .error error → after = before ∧ step.Fails hash device before error
  /-- A step that only looks changes nothing. -/
  checked : ∀ input, step = .check input → after = before
  loaded : ∀ input, step = .load input → after = before
  /-- A build that succeeds replaces its output by the text of the document, and reports the length of the text. -/
  built : ∀ input output options build, step = .build input output options → answer = .ok (.built build) →
    ∃ file text place, before.Holds input file ∧ (compile hash file options).result = .ok text ∧
      build.output = outputPath input output ∧ build.statistics.bytes = text.utf8ByteSize ∧
      before.Replaced build.output text place after
  /-- A text that is written replaces what is at its path. -/
  written : ∀ path content, step = .write path content → answer = .ok .written →
    ∃ place, before.Replaced path content place after

/-- What a step does is all or nothing. -/
theorem FileStep.Outcome.allOrNothing {device : Device} {before after : Workspace} {step : FileStep}
    {answer : Except Error FileAnswer} (h : Outcome hash device before step answer after) :
    step.AllOrNothing hash device before answer after := by
  cases h with
  | failed fails =>
    refine ⟨fun error herror => ?_, fun _ _ => rfl, fun _ _ => rfl, nofun, nofun⟩
    obtain rfl := Except.error.inj herror
    exact ⟨rfl, fails⟩
  | checked | loaded => exact ⟨nofun, fun _ _ => rfl, fun _ _ => rfl, nofun, nofun⟩
  | built holds compiled replaced =>
    refine ⟨nofun, nofun, nofun, fun input output options build hstep hanswer => ?_, nofun⟩
    cases hstep
    cases hanswer
    exact ⟨_, _, _, holds, compiled, rfl, rfl, replaced⟩
  | written replaced =>
    refine ⟨nofun, nofun, nofun, nofun, fun path content hstep _ => ?_⟩
    cases hstep
    exact ⟨_, replaced⟩

/-- File output is all or nothing, on devices that may fail at any act. After any steps, a step changes the workspace as
a whole or not at all, and nothing is left of the new file that it may have made. Over a whole run, a place that changed
is one where the path of a step led that succeeded. On a device that never fails, a text is written exactly if the
directory of its path has room and the path leads to no directory. -/
theorem file_output_is_all_or_nothing (hash : String → Nat) (w : Workspace) :
    (∀ (earlier : List (Device × FileStep)) (device : Device) (step : FileStep),
      let before := FileStep.runAll hash w earlier
      let result := step.run hash (access device) before
      step.AllOrNothing hash device before result.1 result.2) ∧
    (∀ (steps : List (Device × FileStep)) (place : List String),
      (FileStep.runAll hash w steps).entryAt? place ≠ w.entryAt? place →
      ∃ front device step back path, steps = front ++ (device, step) :: back ∧ step.target? = some path ∧
        (∃ success, (step.run hash (access device) (FileStep.runAll hash w front)).1 = .ok success) ∧
        (FileStep.runAll hash w front).target path = .ok place) ∧
    ∀ path content, (Device.reliable.replace path content w).1 = .ok () ↔
      (∃ directory, w.roomFor path = .ok directory) ∧ ∃ place, w.target path = .ok place :=
  ⟨fun earlier device step => (FileStep.outcome hash device (FileStep.runAll hash w earlier) step).allOrNothing,
    fun steps _ => FileStep.exists_step_of_changed steps, fun _ _ => Device.reliable_replaces_iff⟩

/-- A device on which nothing can be written any more. -/
def full : Device where
  newName := Device.reliable.newName
  fault? act :=
    match act with
    | .write .. => some (.other "No space left on device (os error 28)")
    | _ => none
  written text := (text.take 1).toString

/-- The text of the variable and its structure. -/
def forwardOutput : String := "struct Point \x7b\n    int x;\n    int y;\n\x7d;\n\nstruct Point origin;\n\n"

/-- Building by a path that leaves the directory of the program and comes back, to a path from the root. -/
def climbing : FileStep := .build "../home/point" (some "/point.c") ⟨true, false⟩

/-- The document is loaded by the path that comes back. -/
theorem loadFile_climbing (device : Device) (hread : device.fault? (.read "../home/point") = none) :
    loadFile (access device) "../home/point" plotting = (.ok forward, plotting) := by
  have hdocument : device.read plotting "../home/point" = .ok forwardText := by
    rw [Device.read, hread]
    rfl
  rw [loadFile_of_read hdocument, ofDocument_forwardText]

/-- The text is no document. -/
theorem ofDocument_forwardOutput : ∃ error, SourceFile.ofDocument forwardOutput = .error error := by
  have hrefused : (SourceFile.ofDocument forwardOutput).toOption.isSome = false := by decide +kernel
  cases haccept : SourceFile.ofDocument forwardOutput with
  | error error => exact ⟨error, rfl⟩
  | ok file =>
    rw [haccept] at hrefused
    cases hrefused

/-- The build puts the text at the root. The text is no document: loading it fails, and changes nothing. On the device
that is full, the same build fails and changes nothing, although it has made a new file. -/
theorem climbing_is_all_or_nothing :
    let after := FileStep.runAll nameHash plotting [(.reliable, climbing)]
    plotting.Replaced "/point.c" forwardOutput ["point.c"] after ∧
    (∃ error, (FileStep.load "/point.c").run nameHash (access .reliable) after = (.error error, after)) ∧
    ∃ error, climbing.run nameHash (access full) plotting = (.error error, plotting) := by
  obtain ⟨hsteps, -, hreplaces⟩ := file_output_is_all_or_nothing nameHash plotting
  have hcompile : (compile nameHash forward ⟨true, false⟩).result = .ok forwardOutput := by decide +kernel
  have hfirst (device : Device) := hsteps [] device climbing
  simp only [FileStep.runAll_cons, FileStep.runAll_nil] at hfirst ⊢
  have hreplaced : plotting.Replaced "/point.c" forwardOutput ["point.c"]
      (climbing.run nameHash (access .reliable) plotting).2 := by
    have hok := (hreplaces (outputPath "../home/point" (some "/point.c")) forwardOutput).mpr
      ⟨⟨[], rfl⟩, ["point.c"], rfl⟩
    have hanswer : ∃ built, (climbing.run nameHash (access .reliable) plotting).1 = .ok (.built built) := by
      rw [climbing, FileStep.run, Workspace.bind_apply,
        buildFile_of_compile nameHash (loadFile_climbing .reliable rfl) hcompile, hok]
      exact ⟨_, rfl⟩
    obtain ⟨built, hanswer⟩ := hanswer
    obtain ⟨file, text, place, ⟨document, hread, haccept⟩, htext, houtput, -, hreplaced⟩ :=
      (hfirst .reliable).built _ _ _ _ rfl hanswer
    obtain rfl : forwardText = document := Except.ok.inj hread
    obtain rfl := Except.ok.inj (ofDocument_forwardText.symm.trans haccept)
    obtain rfl := Except.ok.inj (hcompile.symm.trans htext)
    rw [houtput] at hreplaced
    obtain rfl : ["point.c"] = place := Except.ok.inj hreplaced.denotes
    exact hreplaced
  refine ⟨hreplaced, ?_, ?_⟩
  · obtain ⟨error, hrefused⟩ := ofDocument_forwardOutput
    exact ⟨error, FileStep.run_load_of_refused hreplaced.reads hrefused⟩
  · have hanswer : ∃ error, (climbing.run nameHash (access full) plotting).1 = .error error := by
      rw [climbing, FileStep.run, Workspace.bind_apply,
        buildFile_of_compile nameHash (loadFile_climbing full rfl) hcompile]
      exact ⟨_, rfl⟩
    obtain ⟨error, hanswer⟩ := hanswer
    exact ⟨error, Prod.ext hanswer ((hfirst full).failed _ hanswer).1⟩

end DeclTree

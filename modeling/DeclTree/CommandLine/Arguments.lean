/-!
# Command-line arguments

Arguments are read from left to right, and the first one that is wrong refuses all of them. A command takes what follows
it; flags may stand before or after the command, but only once on either side. After `--` nothing is a flag or a command
any more. Asking for the version or for help ends the reading at once.
-/

namespace DeclTree.CommandLine

/-- What the program is asked to do. -/
inductive Command where
  | build (input : String) (output : Option String)
  | check (input : String)
  | selfTest
  | sample (name : String)
  | version

/-- A command with the flags that hold for it. -/
structure Request where
  command : Command
  resolve : Bool
  banner : Bool
  json : Bool

/-- What a row of arguments comes to. -/
inductive Parsed where
  | request (request : Request)
  | version
  | help
  | refused

/-- The commands that have arguments of their own, and the program itself. -/
inductive Level where
  | top
  | build
  | check
  | selfTest
  | sample
  | version
  | help
deriving DecidableEq

namespace Level

/-- The command of a name. -/
def ofName? : String → Option Level
  | "build" => some build
  | "check" => some check
  | "selftest" => some selfTest
  | "fixture" => some sample
  | "version" => some version
  | "help" => some help
  | _ => none

/-- Whether a command takes the output option. -/
def takesOutput : Level → Bool
  | top | build => true
  | check | selfTest | sample | version | help => false

/-- Whether a command takes an argument without a name. -/
def takesOperand : Level → Bool
  | top | build | check | sample => true
  | selfTest | version | help => false

/-- Whether that argument is a path, which must not be empty. -/
def operandIsPath : Level → Bool
  | top | build | check => true
  | selfTest | sample | version | help => false

end Level

/-- The flags that may stand on either side of a command. -/
inductive Flag where
  | noResolve
  | banner
  | json
deriving DecidableEq

/-- The flag of a name. -/
def Flag.ofName? : String → Option Flag
  | "no-resolve" => some noResolve
  | "banner" => some banner
  | "json" => some json
  | _ => none

/-- Why the reading of arguments ends before their end. -/
inductive Stop where
  | version
  | help
  | refused

/-- What has been read. -/
structure State where
  level : Level
  /-- Flags given before the command. -/
  outerFlags : List Flag
  /-- The output given before the command. -/
  outerOutput : Option String
  flags : List Flag
  output : Option String
  operand : Option String
  /-- Whether the next argument is the value of the output option. -/
  awaiting : Bool
  /-- Whether nothing is a flag or a command any more. -/
  plain : Bool

namespace State

/-- Nothing read. -/
def start : State := ⟨.top, [], none, [], none, none, false, false⟩

/-- Start reading the arguments of a command. -/
def enter (s : State) (level : Level) : State := ⟨level, s.flags, s.output, [], none, none, false, false⟩

/-- Take the value of the output option. -/
def setOutput (s : State) (value : String) : Except Stop State :=
  if value = "" ∨ s.output.isSome then .error .refused
  else .ok { s with output := some value, awaiting := false }

/-- Take a flag. -/
def setFlag (s : State) (flag : Flag) : Except Stop State :=
  if flag ∈ s.flags then .error .refused else .ok { s with flags := flag :: s.flags }

/-- Take an argument without a name. -/
def setOperand (s : State) (value : String) : Except Stop State :=
  if !s.level.takesOperand || s.operand.isSome || (s.level.operandIsPath && value == "") then .error .refused
  else .ok { s with operand := some value }

/-- Read an option with a long name and, behind an equals sign, a value. -/
def long (s : State) (name : String) (value : Option String) : Except Stop State :=
  match Flag.ofName? name, value with
  | some flag, none => s.setFlag flag
  | some _, some _ => .error .refused
  | none, value =>
    if name = "output" ∧ s.level.takesOutput then
      match value with
      | some v => s.setOutput v
      | none => if s.output.isSome then .error .refused else .ok { s with awaiting := true }
    else if name = "help" ∧ value.isNone then .error .help
    else if name = "version" ∧ value.isNone ∧ s.level = .top then .error .version
    else .error .refused

/-- Read an option with a short name and what is attached to it. -/
def short (s : State) (name : Char) (attached : List Char) : Except Stop State :=
  if name = 'o' ∧ s.level.takesOutput then
    match attached with
    | [] => if s.output.isSome then .error .refused else .ok { s with awaiting := true }
    | '=' :: value => s.setOutput (String.ofList value)
    | value => s.setOutput (String.ofList value)
  else if name = 'h' then .error .help
  else if name = 'V' ∧ s.level = .top then .error .version
  else .error .refused

/-- The name and the value of a long option. -/
def splitEquals (chars : List Char) : String × Option String :=
  let name := chars.takeWhile (· != '=')
  match chars.drop name.length with
  | [] => (String.ofList name, none)
  | _ :: value => (String.ofList name, some (String.ofList value))

/-- Read a command or an argument without a name. -/
def word (s : State) (argument : String) : Except Stop State :=
  match s.level, Level.ofName? argument with
  | .top, some level => .ok (s.enter level)
  | .help, some _ => if s.operand.isSome then .error .refused else .ok { s with operand := some argument }
  | _, _ => s.setOperand argument

/-- Read an argument. -/
def next (s : State) (argument : String) : Except Stop State :=
  if s.plain then s.setOperand argument
  else match argument.toList with
    | '-' :: c :: rest =>
      if s.awaiting || s.level == .help then .error .refused
      else if c = '-' then
        if rest = [] then .ok { s with plain := true }
        else let (name, value) := splitEquals rest; s.long name value
      else s.short c rest
    | _ => if s.awaiting then s.setOutput argument else s.word argument

/-- The request that the arguments amount to. -/
def finish (s : State) : Parsed :=
  let flags := s.outerFlags ++ s.flags
  let request (command : Command) : Parsed :=
    .request ⟨command, .noResolve ∉ flags, .banner ∈ flags, .json ∈ flags⟩
  if s.awaiting then .refused
  else match s.level, s.operand with
    | .top, some input => request (.build input s.output)
    | .top, none => request .selfTest
    | .build, some input => request (.build input (s.output.or s.outerOutput))
    | .check, some input => request (.check input)
    | .sample, some name => request (.sample name)
    | .build, none | .check, none | .sample, none => .refused
    | .selfTest, _ => request .selfTest
    | .version, _ => request .version
    | .help, _ => .help

end State

/-- Read a row of arguments. -/
def parse (arguments : List String) : Parsed :=
  match arguments.foldlM State.next State.start with
  | .ok s => s.finish
  | .error .version => .version
  | .error .help => .help
  | .error .refused => .refused

end DeclTree.CommandLine

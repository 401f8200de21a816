import DeclTree.Syntax.Declaration

/-!
# Events

What the passes record while they work: each event is a fact with a level and a message. The events of a pass are part
of its result.
-/

namespace DeclTree

/-- How a named type is reached from the declaration that mentions it. -/
inductive Reach where
  /-- Stored in place: the type must be complete first. -/
  | byValue
  /-- Behind a pointer or in a signature: the type only has to exist. -/
  | indirect
deriving DecidableEq

/-- The name of a reach in messages. -/
def Reach.text : Reach → String
  | byValue => "ByValue"
  | indirect => "Indirect"

/-- How much an event matters. -/
inductive Level where
  | info
  | debug
  | trace
deriving DecidableEq

/-- The name of a level. -/
def Level.text : Level → String
  | info => "INFO"
  | debug => "DEBUG"
  | trace => "TRACE"

/-- A recorded fact. -/
inductive Event where
  | loaded (declarations items : Nat)
  | declared (name : String)
  | alreadyDeclared (name : String)
  | rootScope (count : Nat)
  | resolving (keyword name : String)
  | opened (id : DeclId) (name : String)
  | linked (name : String) (target : DeclId) (reach : Reach)
  | closed (id : DeclId) (name : String)
  | resolutionSkipped
  | generating
  | emitting (keyword name : String)
  | function (name : String) (params : Nat)
  | generated (bytes : Nat)
deriving DecidableEq

namespace Event

/-- The level of an event. -/
def level : Event → Level
  | resolutionSkipped => .info
  | loaded .. | rootScope _ | resolving .. | generating | emitting .. | generated _ => .debug
  | declared _ | alreadyDeclared _ | opened .. | linked .. | closed .. | function .. => .trace

/-- The message of an event. -/
def message : Event → String
  | loaded declarations items => s!"loaded {declarations} declarations ({items} top-level)"
  | declared name => s!"symbol table: declared `{name}`"
  | alreadyDeclared name => s!"symbol table: `{name}` already declared"
  | rootScope count => s!"root scope holds {count} declarations"
  | resolving keyword name => s!"resolving {keyword} `{name}`"
  | opened _ name => s!"`{name}` -> Initializing"
  | linked name target reach => s!"linked `{name}` -> DeclId({target}) ({reach.text})"
  | closed _ name => s!"`{name}` -> Initialized"
  | resolutionSkipped => "type resolution skipped"
  | generating => "generating with the C backend"
  | emitting keyword name => s!"emitting {keyword} `{name}`"
  | function name params => s!"function `{name}` with {params} parameters"
  | generated bytes => s!"generated {bytes} bytes of C"

/-- An event as a line of a log. -/
def line (event : Event) : String := event.level.text ++ " " ++ event.message

end Event

end DeclTree

import DeclTree.Compilation

/-!
# Sessions

A session works on one file and one chain of symbol tables, one operation at a time. Operations may fail and the session
goes on from what they left. An operation that names a position outside the arena, or that would leave the outermost
scope, is refused and changes nothing.
-/

namespace DeclTree

/-- The state of a session. -/
structure Session (hash : String → Nat) where
  file : SourceFile
  scopes : Scopes hash

/-- An operation of a session. -/
inductive Session.Operation where
  | push
  | pop
  | insert (id : DeclId)
  | lookup (name : String)
  | lookupLocal (name : String)
  | size
  | resolve (id : DeclId)
  | resolveFile
  | generate (banner : Bool)
  | marks
  | tree
  | describe (id : DeclId)

/-- What an operation answers. -/
inductive Session.Answer where
  | depth (tables : Nat)
  | inserted (fresh : Bool)
  | found (id : Option DeclId)
  | size (bindings : Nat)
  | resolved (error : Option Error) (marks : List Mark)
  | generated (result : Except Error String)
  | marks (marks : List Mark)
  | tree (file : SourceFile)
  | described (declaration : Declaration)
  | refused

namespace Session

variable {hash : String → Nat}

/-- The session on a file before its first operation. -/
def start (hash : String → Nat) (file : SourceFile) : Session hash := ⟨file, .root hash⟩

/-- The session and the answer after a resolution. -/
def afterResolution (session : Session hash) (outcome : Outcome Progress) : Session hash × Answer :=
  ({ session with file := outcome.1.file }, .resolved outcome.2 outcome.1.file.marks)

/-- Carry out an operation. -/
def step (session : Session hash) : Operation → Session hash × Answer
  | .push =>
    let scopes := session.scopes.push
    ({ session with scopes := scopes }, .depth scopes.depth)
  | .pop =>
    match session.scopes.pop? with
    | some scopes => ({ session with scopes := scopes }, .depth scopes.depth)
    | none => (session, .refused)
  | .insert id =>
    match session.file.decl? id with
    | none => (session, .refused)
    | some d =>
      match session.scopes.insert? d.name.name id with
      | some scopes => ({ session with scopes := scopes }, .inserted true)
      | none => (session, .inserted false)
  | .lookup name => (session, .found (session.scopes.find? name))
  | .lookupLocal name => (session, .found (session.scopes.top.find? name))
  | .size => (session, .size session.scopes.top.size)
  | .resolve id =>
    match session.file.decl? id with
    | none => (session, .refused)
    | some _ => session.afterResolution (DeclTree.resolve session.scopes id ⟨session.file, []⟩)
  | .resolveFile => session.afterResolution (DeclTree.resolveFile hash ⟨session.file, []⟩)
  | .generate banner => (session, .generated (DeclTree.generate session.file banner).2)
  | .marks => (session, .marks session.file.marks)
  | .tree => (session, .tree session.file)
  | .describe id =>
    match session.file.decl? id with
    | none => (session, .refused)
    | some d => (session, .described d)

/-- Carry out operations in order. -/
def run (session : Session hash) : List Operation → Session hash × List Answer
  | [] => (session, [])
  | operation :: rest =>
    let (session, answer) := session.step operation
    let (session, answers) := run session rest
    (session, answer :: answers)

end Session

end DeclTree

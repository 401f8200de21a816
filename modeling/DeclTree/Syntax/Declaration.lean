import DeclTree.Syntax.Expr

/-!
# Declarations and files

A file keeps all its declarations, top-level and local, in one arena; `items` lists the top-level ones in the order of
the document. Resolution changes two things only: the mark of a declaration and the links of the named types in it.
-/

namespace DeclTree

/-- How far the resolution of a declaration has come. -/
inductive Mark where
  | untouched
  | opened
  | closed
deriving DecidableEq

/-- The two kinds of type whose members lie in memory. -/
inductive RecordKind where
  | struct
  | union
deriving DecidableEq

/-- The keyword of a record. -/
def RecordKind.keyword : RecordKind → String
  | struct => "struct"
  | union => "union"

/-- What a declaration declares. -/
inductive DeclKind where
  | constant (type : Option TypeExpr) (value : Expr)
  | mutable (type : TypeExpr) (value : Option Expr)
  | enumeration (members : List Ident)
  | record (kind : RecordKind) (members : List (Slot TypeExpr))
  | sum (members : List (Slot (Option TypeExpr)))

namespace DeclKind

/-- The source keyword of what is declared. -/
def keyword : DeclKind → String
  | constant .. => "constant"
  | mutable .. => "variable"
  | enumeration _ => "enum"
  | record kind _ => kind.keyword
  | sum _ => "sum"

/-- Whether a value is declared and not a type. -/
def isVariable : DeclKind → Bool
  | constant .. | mutable .. => true
  | enumeration _ | record .. | sum _ => false

/-- Whether a function is declared: a constant whose value is a function literal. -/
def isFunction : DeclKind → Bool
  | constant _ (.function ..) => true
  | _ => false

end DeclKind

/-- A declaration, with the state of its resolution. -/
structure Declaration where
  name : Ident
  kind : DeclKind
  span : Span
  mark : Mark

namespace Declaration

/-- Whether a value is declared and not a type. -/
def isVariable (d : Declaration) : Bool := d.kind.isVariable

/-- Whether a function is declared. -/
def isFunction (d : Declaration) : Bool := d.kind.isFunction

end Declaration

/-- A compilation unit. -/
structure SourceFile where
  /-- Every declaration of the file, top-level and local. -/
  declarations : List Declaration
  /-- The top-level declarations in the order of the document. -/
  items : List DeclId

namespace SourceFile

/-- The declaration at a position of the arena. -/
def decl? (file : SourceFile) (id : DeclId) : Option Declaration := file.declarations[id]?

/-- The top-level declarations with their positions. -/
def topLevel (file : SourceFile) : List (DeclId × Declaration) :=
  file.items.filterMap fun id => (file.decl? id).map fun d => (id, d)

/-- The marks of all declarations, in arena order. -/
def marks (file : SourceFile) : List Mark := file.declarations.map (·.mark)

/-- Change the declaration at a position of the arena. -/
def update (file : SourceFile) (id : DeclId) (change : Declaration → Declaration) : SourceFile :=
  { file with declarations := file.declarations.modify id change }

/-- Set the mark of a declaration. -/
def setMark (file : SourceFile) (id : DeclId) (mark : Mark) : SourceFile :=
  file.update id fun d => { d with mark := mark }

end SourceFile

end DeclTree

import DeclTree.C.Expr

/-!
# C declarations and statements

Declarations, statements and functions as lowering produces them, and their text at a level of indentation. A statement
is laid out as a row of pieces: the units of C's statement grammar (simple statements, headers, `else`, braces) with the
white space between them.

The first branch of a conditional that has an `else` is put into braces unless it is a block, so that an `if` inside it
cannot claim the `else`.
-/

namespace DeclTree.C

/-- How a declared object extends in memory. -/
inductive Extent where
  | single
  | unsized
  | sized (count : Expr)

/-- A type, a name, and an extent. -/
structure Declarator where
  type : TypeName
  name : String
  extent : Extent

/-- The text of a declarator. -/
def Declarator.text (d : Declarator) : String :=
  d.type.text ++ " " ++ d.name ++ (match d.extent with
    | .single => ""
    | .unsized => "[]"
    | .sized count => "[" ++ count.text ++ "]")

/-- A declaration that is not a function. -/
inductive Declaration where
  | object (declarator : Declarator) (initial : Option Expr)
  | enumeration (tag : String) (members : List String)
  | record (kind : RecordKind) (tag : String) (members : List Declarator)

/-- A statement without parts that are statements. -/
inductive Simple where
  | declaration (declaration : Declaration)
  | increment (target : Expr)
  | decrement (target : Expr)
  | assign (target : Expr) (glyph : String) (value : Expr)
  | expression (value : Expr)
  | label (name : String)
  | goto (name : String)
  | returning (value : Option Expr)

/-- A statement. -/
inductive Statement where
  | simple (statement : Simple)
  | block (body : List Statement)
  | conditional (condition : Expr) (consequent : Statement) (alternative : Option Statement)
  | forLoop (init : Simple) (condition : Expr) (step : Simple) (body : Statement)
  | whileLoop (condition : Expr) (body : Statement)

/-- A function with its body. -/
structure Function where
  result : TypeName
  name : String
  params : List Declarator
  body : List Statement

/-- A declaration of the outermost level. -/
inductive Item where
  | declaration (declaration : Declaration)
  | function (function : Function)

/-- The white space in front of a line at a level: four blanks for each level. -/
def indentation (level : Nat) : String := String.ofList (List.replicate (4 * level) ' ')

/-- The text of a declaration without its terminator. Only its first line is not indented. -/
def Declaration.text (level : Nat) : Declaration → String
  | .object declarator none => declarator.text
  | .object declarator (some value) => declarator.text ++ " = " ++ value.text
  | .enumeration tag members =>
    "enum " ++ tag ++ " \x7b\n" ++ ",\n".intercalate (members.map (indentation (level + 1) ++ ·))
      ++ (if members.isEmpty then "" else "\n") ++ indentation level ++ "\x7d"
  | .record kind tag members =>
    kind.keyword ++ " " ++ tag ++ " \x7b\n"
      ++ String.join (members.map fun m => indentation (level + 1) ++ m.text ++ ";\n")
      ++ indentation level ++ "\x7d"

/-- The text of a simple statement without its terminator. -/
def Simple.text (level : Nat) : Simple → String
  | .declaration d => d.text level
  | .increment target => "++" ++ target.text
  | .decrement target => "--" ++ target.text
  | .assign target glyph value => target.text ++ " " ++ glyph ++ " " ++ value.text
  | .expression value => value.text
  | .label name => name ++ ":"
  | .goto name => "goto " ++ name
  | .returning none => "return"
  | .returning (some value) => "return " ++ value.text

/-- The statements that start with a header. -/
inductive HeaderKind where
  | conditional
  | loop
deriving DecidableEq

/-- A piece of laid-out text: a unit of the statement grammar, or white space. -/
inductive Piece where
  /-- A simple statement with its terminator. -/
  | simple (text : String)
  /-- A keyword with what stands in parentheses behind it. -/
  | header (kind : HeaderKind) (text : String)
  | otherwise
  | openBrace
  | closeBrace
  | blank
  | newline
  | indent (level : Nat)
deriving DecidableEq

/-- The text of a piece. -/
def Piece.text : Piece → String
  | simple s => s
  | header _ s => s
  | otherwise => "else"
  | openBrace => "\x7b"
  | closeBrace => "\x7d"
  | blank => " "
  | newline => "\n"
  | indent level => indentation level

/-- The text of a row of pieces. -/
def Piece.spell (pieces : List Piece) : String := String.join (pieces.map Piece.text)

namespace Statement

/-- Whether a statement is a block. -/
def isBlock : Statement → Bool
  | block _ => true
  | _ => false

/-- Whether a statement is a conditional. -/
def isConditional : Statement → Bool
  | conditional .. => true
  | _ => false

/-- The pieces of a body behind a header, from those of the statement at each level: a block opens on the line of the
header, anything else stands on the next line, one level deeper. -/
def bodyPieces (level : Nat) (isBlock : Bool) (pieces : Nat → List Piece) : List Piece :=
  if isBlock then .blank :: pieces level
  else [.newline, .indent (level + 1)] ++ pieces (level + 1)

/-- The pieces of a block from those of the lines in it. -/
def blockPieces (level : Nat) (lines : List Piece) : List Piece :=
  [.openBrace, .newline] ++ lines ++ [.indent level, .closeBrace, .newline, .newline]

mutual

/-- The pieces of a statement behind the indentation of its first line. -/
def pieces : Statement → Nat → List Piece
  | simple statement, level => [.simple (statement.text level ++ ";"), .newline]
  | block body, level => blockPieces level (linePieces body (level + 1))
  | conditional condition consequent none, level =>
    .header .conditional ("if (" ++ condition.text ++ ")")
      :: bodyPieces level consequent.isBlock fun n => consequent.pieces n
  | conditional condition consequent (some alternative), level =>
    .header .conditional ("if (" ++ condition.text ++ ")") ::
      (if consequent.isBlock then .blank :: consequent.pieces level
        else .blank :: blockPieces level (.indent (level + 1) :: consequent.pieces (level + 1)))
      ++ [.indent level, .otherwise]
      ++ (if alternative.isConditional then .blank :: alternative.pieces level
        else bodyPieces level alternative.isBlock fun n => alternative.pieces n)
  | forLoop init condition step body, level =>
    .header .loop ("for (" ++ init.text level ++ "; " ++ condition.text ++ "; " ++ step.text level ++ ")")
      :: bodyPieces level body.isBlock fun n => body.pieces n
  | whileLoop condition body, level =>
    .header .loop ("while (" ++ condition.text ++ ")") :: bodyPieces level body.isBlock fun n => body.pieces n

/-- The pieces of statements that each start a line. -/
def linePieces : List Statement → Nat → List Piece
  | [], _ => []
  | s :: rest, level => .indent level :: s.pieces level ++ linePieces rest level

end

/-- The text of a statement from the start of a line. -/
def text (level : Nat) (s : Statement) : String := Piece.spell (.indent level :: s.pieces level)

end Statement

/-- The text of a function. -/
def Function.text (f : Function) : String :=
  f.result.text ++ " " ++ f.name ++ "(" ++ ", ".intercalate (f.params.map Declarator.text) ++ ") "
    ++ Piece.spell (Statement.blockPieces 0 (Statement.linePieces f.body 1))

/-- The text of an item, with the blank line behind it. -/
def Item.text : Item → String
  | .declaration d => d.text 0 ++ ";\n\n"
  | .function f => f.text

/-- The comment that a text may start with. -/
def banner : String := "/* Generated by creedc */\n"

/-- The text of a whole unit. -/
def unitText (withBanner : Bool) (items : List Item) : String :=
  (if withBanner then banner else "") ++ String.join (items.map Item.text)

end DeclTree.C

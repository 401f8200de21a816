import DeclTree.C.Literal
import DeclTree.Syntax.Declaration

/-!
# C expressions

The part of C's expressions that lowering produces, and their text. An expression is written as a row of tokens; the
text is what the tokens spell, one after the other. Parentheses are written where the tree has them and nowhere else.
-/

namespace DeclTree.C

/-- The kinds of type that C names with a keyword and a tag. -/
inductive TagKind where
  | struct
  | union
  | enum
deriving DecidableEq

/-- The keyword of a tagged type. -/
def TagKind.keyword : TagKind → String
  | struct => "struct"
  | union => "union"
  | enum => "enum"

/-- The type that a type name starts from. -/
inductive TypeBase where
  | primitive (type : Primitive)
  | tagged (kind : TagKind) (tag : String)
deriving DecidableEq

/-- A type name: a type behind a number of pointers. -/
structure TypeName where
  base : TypeBase
  pointers : Nat
deriving DecidableEq

/-- The type of pointers to a type. -/
def TypeName.pointer (type : TypeName) : TypeName := { type with pointers := type.pointers + 1 }

/-- A C expression. -/
inductive Expr where
  | paren (inner : Expr)
  | unary (op : UnaryOp) (operand : Expr)
  | binary (left : Expr) (op : BinaryOp) (right : Expr)
  | cast (type : TypeName) (operand : Expr)
  | field (object : Expr) (name : String)
  | index (object : Expr) (position : Expr)
  | call (callee : Expr) (arguments : List Expr)
  | ident (name : String)
  | literal (value : Literal)
  | bool (value : Bool)
  | braces (elements : List Expr)

/-- A token of C, or the blank between two of them. -/
inductive Token where
  | operator (glyph : String)
  | punctuator (mark : String)
  | keyword (word : String)
  | identifier (name : String)
  | constant (text : String)
  | blank
deriving DecidableEq

/-- What a token spells. -/
def Token.text : Token → String
  | operator s | punctuator s | keyword s | identifier s | constant s => s
  | blank => " "

/-- What a row of tokens spells. -/
def Token.spell (tokens : List Token) : String := String.join (tokens.map Token.text)

/-- The glyph of a unary operator. -/
def unaryGlyph : UnaryOp → String
  | .not => "!"
  | .bitNot => "~"
  | .neg => "-"
  | .deref => "*"
  | .ref => "&"

/-- The glyph of a binary operator. -/
def binaryGlyph : BinaryOp → String
  | .and => "&&"
  | .or => "||"
  | .bitAnd => "&"
  | .bitOr => "|"
  | .bitXor => "^"
  | .eq => "=="
  | .ne => "!="
  | .lt => "<"
  | .gt => ">"
  | .le => "<="
  | .ge => ">="
  | .shl => "<<"
  | .shr => ">>"
  | .add => "+"
  | .sub => "-"
  | .mul => "*"
  | .div => "/"
  | .mod => "%"

/-- The tokens of a type name: its words, and a star for each pointer, with blanks between. -/
def TypeName.tokens (type : TypeName) : List Token :=
  (match type.base with
    | .primitive p => (p.cWords.map Token.keyword).intersperse .blank
    | .tagged kind tag => [.keyword kind.keyword, .blank, .identifier tag])
  ++ (List.replicate type.pointers [Token.blank, .punctuator "*"]).flatten

/-- The text of a type name. -/
def TypeName.text (type : TypeName) : String := Token.spell type.tokens

namespace Expr

mutual

/-- The tokens of an expression. -/
def tokens : Expr → List Token
  | paren inner => [.punctuator "("] ++ inner.tokens ++ [.punctuator ")"]
  | unary op operand => .operator (unaryGlyph op) :: operand.tokens
  | binary left op right => left.tokens ++ [.blank, .operator (binaryGlyph op), .blank] ++ right.tokens
  | cast type operand => [.punctuator "("] ++ type.tokens ++ [.punctuator ")"] ++ operand.tokens
  | field object name => object.tokens ++ [.punctuator ".", .identifier name]
  | index object position => object.tokens ++ [.punctuator "["] ++ position.tokens ++ [.punctuator "]"]
  | call callee arguments => callee.tokens ++ [.punctuator "("] ++ listTokens arguments ++ [.punctuator ")"]
  | ident name => [.identifier name]
  | literal value => [.constant (literalText value)]
  | bool value => [.constant (if value then "1" else "0")]
  | braces elements => [.punctuator "\x7b"] ++ listTokens elements ++ [.punctuator "\x7d"]

/-- The tokens of expressions with commas between. -/
def listTokens : List Expr → List Token
  | [] => []
  | e :: rest => e.tokens ++ moreTokens rest

/-- The tokens of expressions with a comma before each. -/
def moreTokens : List Expr → List Token
  | [] => []
  | e :: rest => [.punctuator ",", .blank] ++ e.tokens ++ moreTokens rest

end

/-- The text of an expression. -/
def text (e : Expr) : String := Token.spell e.tokens

end Expr

end DeclTree.C

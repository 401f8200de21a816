import DeclTree.Syntax.Declaration

/-!
# The names of variants in a document

How a document names primitive types, operators and marks.
-/

namespace DeclTree

/-- The name of a primitive type in a document. -/
def Primitive.key : Primitive → String
  | void => "Void"
  | char => "Char"
  | i8 => "I8"
  | i16 => "I16"
  | i32 => "I32"
  | i64 => "I64"
  | u8 => "U8"
  | u16 => "U16"
  | u32 => "U32"
  | u64 => "U64"
  | f32 => "F32"
  | f64 => "F64"
  | bool => "Bool"

/-- The name of a unary operator in a document. -/
def UnaryOp.key : UnaryOp → String
  | not => "Not"
  | bitNot => "BitNot"
  | neg => "Neg"
  | deref => "Deref"
  | ref => "Ref"

/-- The name of a binary operator in a document. -/
def BinaryOp.key : BinaryOp → String
  | and => "And"
  | or => "Or"
  | bitAnd => "BitAnd"
  | bitOr => "BitOr"
  | bitXor => "BitXor"
  | eq => "Eq"
  | ne => "Ne"
  | lt => "Lt"
  | gt => "Gt"
  | le => "Le"
  | ge => "Ge"
  | shl => "Shl"
  | shr => "Shr"
  | add => "Add"
  | sub => "Sub"
  | mul => "Mul"
  | div => "Div"
  | mod => "Mod"

/-- The name of an assignment in a document. -/
def AssignOp.key : AssignOp → String
  | assign => "Assign"
  | and => "AndAssign"
  | or => "OrAssign"
  | bitAnd => "BitAndAssign"
  | bitOr => "BitOrAssign"
  | bitXor => "BitXorAssign"
  | shl => "ShlAssign"
  | shr => "ShrAssign"
  | add => "AddAssign"
  | sub => "SubAssign"
  | mul => "MulAssign"
  | div => "DivAssign"
  | mod => "ModAssign"

/-- The name of a mark in a document. -/
def Mark.key : Mark → String
  | untouched => "Uninitialized"
  | opened => "Initializing"
  | closed => "Initialized"

end DeclTree

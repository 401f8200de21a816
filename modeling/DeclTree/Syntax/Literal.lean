import DeclTree.Binary.Format
import DeclTree.Primitive

/-!
# Literals

The value of a literal carries its width and signedness, so that each number has exactly the values of its type.
-/

namespace DeclTree

/-- The value of a literal. -/
inductive Literal where
  | string (value : String)
  | char (byte : UInt8)
  | i8 (value : Int8)
  | i16 (value : Int16)
  | i32 (value : Int32)
  | i64 (value : Int64)
  | u8 (value : UInt8)
  | u16 (value : UInt16)
  | u32 (value : UInt32)
  | u64 (value : UInt64)
  | f32 (value : Binary .single)
  | f64 (value : Binary .double)
deriving DecidableEq

namespace Literal

/-- The primitive type of a literal; strings have none. -/
def primitive? : Literal → Option Primitive
  | string _ => none
  | char _ => some .char
  | i8 _ => some .i8
  | i16 _ => some .i16
  | i32 _ => some .i32
  | i64 _ => some .i64
  | u8 _ => some .u8
  | u16 _ => some .u16
  | u32 _ => some .u32
  | u64 _ => some .u64
  | f32 _ => some .f32
  | f64 _ => some .f64

end Literal

end DeclTree

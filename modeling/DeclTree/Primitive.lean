/-!
# Primitive types

The thirteen primitive types, the keyword that names each in the source language, the C type that represents it,
and the suffix that a C constant of the type carries.
-/

namespace DeclTree

/-- A type that the language provides without a declaration. -/
inductive Primitive where
  | void
  | char
  | i8
  | i16
  | i32
  | i64
  | u8
  | u16
  | u32
  | u64
  | f32
  | f64
  | bool
deriving DecidableEq

namespace Primitive

/-- All primitive types, in the order of their declaration. -/
def all : List Primitive :=
  [void, char, i8, i16, i32, i64, u8, u16, u32, u64, f32, f64, bool]

/-- The source keyword of the type. -/
def keyword : Primitive → String
  | void => "void"
  | char => "char"
  | i8 => "int8"
  | i16 => "int16"
  | i32 => "int"
  | i64 => "int64"
  | u8 => "uint8"
  | u16 => "uint16"
  | u32 => "uint"
  | u64 => "uint64"
  | f32 => "float"
  | f64 => "float64"
  | bool => "bool"

/-- The words of the C type that represents the type. -/
def cWords : Primitive → List String
  | void => ["void"]
  | char => ["char"]
  | i8 => ["signed", "char"]
  | i16 => ["short"]
  | i32 => ["int"]
  | i64 => ["long", "long"]
  | u8 => ["unsigned", "char"]
  | u16 => ["unsigned", "short"]
  | u32 => ["unsigned", "int"]
  | u64 => ["unsigned", "long", "long"]
  | f32 => ["float"]
  | f64 => ["double"]
  | bool => ["int"]

/-- The C type that represents the type. -/
def cName (p : Primitive) : String := " ".intercalate p.cWords

/-- The suffix of a C constant of the type. -/
def suffix : Primitive → String
  | i64 => "LL"
  | u8 | u16 | u32 => "U"
  | u64 => "ULL"
  | f32 => "f"
  | void | char | i8 | i16 | i32 | f64 | bool => ""

end Primitive

end DeclTree

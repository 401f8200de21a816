import DeclTree.Binary.Reading
import DeclTree.Document.Names
import DeclTree.Json.Reader
import DeclTree.Json.Shape

/-!
# Trees from JSON

Every node is read with a bound on the number of arrays and objects that may still be opened, which is also what the
recursion goes down on. Marks and links are not part of a document: their fields are passed over like any unknown field,
and a tree that was read is untouched and has no links.
-/

namespace DeclTree.Document

open Json (Decoder required optional choice)

/-- The greatest position that a document can name. -/
def greatestId : Nat := UInt64.size - 1

/-- A position in the arena. -/
def declId (value : Json) : Option DeclId := value.nat? greatestId

/-- A coordinate of a span. -/
def coordinate (value : Json) : Option UInt32 := (value.nat? (UInt32.size - 1)).map UInt32.ofNat

/-- A span. -/
def span : Decoder Span
  | _ + 1, value => do
    let fields ← value.fields? ["line", "column", "end_line", "end_column"]
    return ⟨← required coordinate fields 0, ← required coordinate fields 1,
      ← required coordinate fields 2, ← required coordinate fields 3⟩
  | 0, _ => none

/-- An identifier. -/
def ident : Decoder Ident
  | d + 1, value => do
    let fields ← value.fields? ["name", "span"]
    return ⟨← required Json.text? fields 0, ← required (span d) fields 1⟩
  | 0, _ => none

/-- A list of nodes. -/
def list {α : Type} (decode : Decoder α) : Decoder (List α)
  | d + 1, .array elements => elements.mapM (decode d)
  | _, _ => none

/-- A primitive type. -/
def primitive : Decoder Primitive := choice Primitive.key Primitive.all

mutual

/-- A type. -/
def type : Nat → Json → Option TypeExpr
  | d + 2, .object [(some tag, content)] =>
    match tag with
    | "Primitive" => do
      let parts ← content.tuple? 2
      return .primitive (← required (primitive d) parts 0) (← required (span d) parts 1)
    | "Pointer" => do
      let parts ← content.tuple? 2
      return .pointer (← required (type d) parts 0) (← required (span d) parts 1)
    | "NullablePointer" => do
      let parts ← content.tuple? 2
      return .nullable (← required (type d) parts 0) (← required (span d) parts 1)
    | "Array" => do
      let parts ← content.tuple? 2
      return .array (← required (type d) parts 0) (← required (span d) parts 1)
    | "Named" => do
      let fields ← content.fields? ["name"]
      return .named (← required (ident d) fields 0) none
    | "Function" => do return .function (← signature (d + 1) content)
    | _ => none
  | _, _ => none

/-- A signature. -/
def signature : Nat → Json → Option (Signature TypeExpr)
  | d + 1, value => do
    let fields ← value.fields? ["params", "result", "span"]
    return ⟨← required (slots d) fields 0, ← required (type d) fields 1, ← required (span d) fields 2⟩
  | 0, _ => none

/-- Members or parameters. -/
def slots : Nat → Json → Option (List (Slot TypeExpr))
  | d + 1, .array elements => elements.mapM (slot d)
  | _, _ => none

/-- A member or a parameter. -/
def slot : Nat → Json → Option (Slot TypeExpr)
  | d + 1, value => do
    let fields ← value.fields? ["name", "ty", "span"]
    return ⟨← required (ident d) fields 0, ← required (type d) fields 1, ← required (span d) fields 2⟩
  | 0, _ => none

end

/-- A member of a sum. -/
def sumSlot : Decoder (Slot (Option TypeExpr))
  | d + 1, value => do
    let fields ← value.fields? ["name", "ty", "span"]
    return ⟨← required (ident d) fields 0, ← optional (type d) fields 1, ← required (span d) fields 2⟩
  | 0, _ => none

/-- A floating-point number of 32 bits. -/
def single : Json → Option (Binary .single)
  | .number n => n.toSingle?
  | _ => none

/-- A floating-point number of 64 bits. -/
def double : Json → Option (Binary .double)
  | .number n => n.toDouble?
  | _ => none

/-- The value of a literal. -/
def literal : Decoder Literal
  | _ + 1, .object [(some tag, content)] =>
    match tag with
    | "String" => content.text?.map .string
    | "Char" => (content.nat? (UInt8.size - 1)).map fun n => .char (.ofNat n)
    | "I8" => (content.int? Int8.minValue.toInt Int8.maxValue.toInt).map fun n => .i8 (.ofInt n)
    | "I16" => (content.int? Int16.minValue.toInt Int16.maxValue.toInt).map fun n => .i16 (.ofInt n)
    | "I32" => (content.int? Int32.minValue.toInt Int32.maxValue.toInt).map fun n => .i32 (.ofInt n)
    | "I64" => (content.int? Int64.minValue.toInt Int64.maxValue.toInt).map fun n => .i64 (.ofInt n)
    | "U8" => (content.nat? (UInt8.size - 1)).map fun n => .u8 (.ofNat n)
    | "U16" => (content.nat? (UInt16.size - 1)).map fun n => .u16 (.ofNat n)
    | "U32" => (content.nat? (UInt32.size - 1)).map fun n => .u32 (.ofNat n)
    | "U64" => (content.nat? (UInt64.size - 1)).map fun n => .u64 (.ofNat n)
    | "F32" => (single content).map .f32
    | "F64" => (double content).map .f64
    | _ => none
  | _, _ => none

mutual

/-- An expression. -/
def expr : Nat → Json → Option Expr
  | d + 2, .object [(some tag, content)] =>
    match tag with
    | "Paren" => do
      let fields ← content.fields? ["expr", "span"]
      return .paren (← required (expr d) fields 0) (← required (span d) fields 1)
    | "Unary" => do
      let fields ← content.fields? ["op", "expr", "span"]
      return .unary (← required (choice UnaryOp.key UnaryOp.all d) fields 0) (← required (expr d) fields 1)
        (← required (span d) fields 2)
    | "Binary" => do
      let fields ← content.fields? ["left", "op", "right", "span"]
      return .binary (← required (expr d) fields 0) (← required (choice BinaryOp.key BinaryOp.all d) fields 1)
        (← required (expr d) fields 2) (← required (span d) fields 3)
    | "Cast" => do
      let fields ← content.fields? ["expr", "ty", "span"]
      return .cast (← required (expr d) fields 0) (← required (type d) fields 1) (← required (span d) fields 2)
    | "Field" => do
      let fields ← content.fields? ["expr", "field", "span"]
      return .field (← required (expr d) fields 0) (← required (ident d) fields 1) (← required (span d) fields 2)
    | "Index" => do
      let fields ← content.fields? ["expr", "index", "span"]
      return .index (← required (expr d) fields 0) (← required (expr d) fields 1) (← required (span d) fields 2)
    | "Function" => do
      let fields ← content.fields? ["ty", "body", "span"]
      return .function (← required (signature d) fields 0) (← required (scope d) fields 1)
        (← required (span d) fields 2)
    | "Call" => do
      let fields ← content.fields? ["func", "args", "span"]
      return .call (← required (expr d) fields 0) (← required (exprs d) fields 1) (← required (span d) fields 2)
    | "Ident" => do return .ident (← ident (d + 1) content)
    | "Literal" => do
      let fields ← content.fields? ["value", "span"]
      return .literal (← required (literal d) fields 0) (← required (span d) fields 1)
    | "Bool" => do
      let parts ← content.tuple? 2
      return .bool (← required Json.bool? parts 0) (← required (span d) parts 1)
    | "Array" => do
      let fields ← content.fields? ["count", "elem_ty", "elements", "span"]
      return .array (← optional (expr d) fields 0) (← required (type d) fields 1)
        (← required (exprs d) fields 2) (← required (span d) fields 3)
    | _ => none
  | _, _ => none

/-- Expressions. -/
def exprs : Nat → Json → Option (List Expr)
  | d + 1, .array elements => elements.mapM (expr d)
  | _, _ => none

/-- A statement. -/
def stmt : Nat → Json → Option Stmt
  | d + 2, .object [(some tag, content)] =>
    match tag with
    | "Declaration" => do
      let parts ← content.tuple? 2
      return .declaration (← required declId parts 0) (← required (span d) parts 1)
    | "Increment" => do
      let parts ← content.tuple? 2
      return .increment (← required (expr d) parts 0) (← required (span d) parts 1)
    | "Decrement" => do
      let parts ← content.tuple? 2
      return .decrement (← required (expr d) parts 0) (← required (span d) parts 1)
    | "Assign" => do
      let fields ← content.fields? ["op", "target", "value", "span"]
      return .assign (← required (choice AssignOp.key AssignOp.all d) fields 0) (← required (expr d) fields 1)
        (← required (expr d) fields 2) (← required (span d) fields 3)
    | "Expr" => do return .expr (← expr (d + 1) content)
    | "Label" => do return .label (← ident (d + 1) content)
    | "Goto" => do return .goto (← ident (d + 1) content)
    | "Return" => do
      let fields ← content.fields? ["value", "span"]
      return .returning (← optional (expr d) fields 0) (← required (span d) fields 1)
    | _ => none
  | _, _ => none

/-- A scope. -/
def scope : Nat → Json → Option Scope
  | d + 2, .object [(some tag, content)] =>
    match tag with
    | "Statement" => do return .statement (← stmt (d + 1) content)
    | "Block" => do
      let fields ← content.fields? ["scopes", "span"]
      return .block (← required (scopes d) fields 0) (← required (span d) fields 1)
    | "Conditional" => do
      let fields ← content.fields? ["cond", "then_scope", "else_scope", "span"]
      return .conditional (← required (expr d) fields 0) (← required (scope d) fields 1)
        (← optional (scope d) fields 2) (← required (span d) fields 3)
    | "For" => do
      let fields ← content.fields? ["init", "cond", "step", "body", "span"]
      return .forLoop (← required (stmt d) fields 0) (← required (expr d) fields 1) (← required (stmt d) fields 2)
        (← required (scope d) fields 3) (← required (span d) fields 4)
    | "While" => do
      let fields ← content.fields? ["cond", "body", "span"]
      return .whileLoop (← required (expr d) fields 0) (← required (scope d) fields 1) (← required (span d) fields 2)
    | "ForEach" => do
      let fields ← content.fields? ["element", "iterable", "body", "span"]
      return .forEach (← required (ident d) fields 0) (← required (expr d) fields 1) (← required (scope d) fields 2)
        (← required (span d) fields 3)
    | "Match" => do
      let fields ← content.fields? ["expr", "cases", "span"]
      return .matching (← required (expr d) fields 0) (← required (arms d) fields 1) (← required (span d) fields 2)
    | _ => none
  | _, _ => none

/-- Scopes. -/
def scopes : Nat → Json → Option (List Scope)
  | d + 1, .array elements => elements.mapM (scope d)
  | _, _ => none

/-- The cases of a match. -/
def arms : Nat → Json → Option (List (Arm Scope))
  | d + 1, .array elements => elements.mapM (arm d)
  | _, _ => none

/-- A case of a match. -/
def arm : Nat → Json → Option (Arm Scope)
  | d + 1, value => do
    let fields ← value.fields? ["name", "scopes", "span"]
    return ⟨← required (ident d) fields 0, ← required (scopes d) fields 1, ← required (span d) fields 2⟩
  | 0, _ => none

end

/-- A variable or a constant. -/
def variableKind : Decoder DeclKind
  | d + 2, .object [(some tag, content)] =>
    match tag with
    | "Constant" => do
      let fields ← content.fields? ["ty", "value"]
      return .constant (← optional (type d) fields 0) (← required (expr d) fields 1)
    | "Mutable" => do
      let fields ← content.fields? ["ty", "value"]
      return .mutable (← required (type d) fields 0) (← optional (expr d) fields 1)
    | _ => none
  | _, _ => none

/-- What a declaration declares. -/
def declKind : Decoder DeclKind
  | d + 2, .object [(some tag, content)] =>
    match tag with
    | "Var" => variableKind (d + 1) content
    | "Enum" => do
      let fields ← content.fields? ["members"]
      return .enumeration (← required (list ident d) fields 0)
    | "Struct" => do
      let fields ← content.fields? ["members"]
      return .record .struct (← required (slots d) fields 0)
    | "Union" => do
      let fields ← content.fields? ["members"]
      return .record .union (← required (slots d) fields 0)
    | "Sum" => do
      let fields ← content.fields? ["members"]
      return .sum (← required (list sumSlot d) fields 0)
    | _ => none
  | _, _ => none

/-- A declaration. -/
def declaration : Decoder Declaration
  | d + 1, value => do
    let fields ← value.fields? ["name", "kind", "span"]
    return ⟨← required (ident d) fields 0, ← required (declKind d) fields 1, ← required (span d) fields 2, .untouched⟩
  | 0, _ => none

/-- A file. -/
def sourceFile : Decoder SourceFile
  | d + 1, value => do
    let fields ← value.fields? ["declarations", "items"]
    return ⟨← required (list declaration d) fields 0, ← required (list (fun _ => declId) d) fields 1⟩
  | 0, _ => none

/-- The number of arrays and objects inside one another that a document may have. -/
def depthLimit : Nat := 127

/-- Read a text as a node of some kind. -/
def read? {α : Type} (decode : Decoder α) (text : String) : Option α := (Json.parse? text).bind (decode depthLimit)

end DeclTree.Document

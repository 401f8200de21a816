import DeclTree.Binary.Shortest
import DeclTree.Document.Names
import DeclTree.Json.Writer

/-!
# Trees as JSON

Records are objects with their fields in declared order, variants are objects with one key or, without content, just
their name, and what is absent is `null`. Unlike reading, writing shows the marks and the links.
-/

namespace DeclTree.Document

open Json (ofString ofNat ofInt ofOption ofFields tagged)

/-- Doubles have their point in place from `1e-5` up to `1e16`. -/
def doubleLayout : FloatLayout := ⟨-5, 15, .plus, .even⟩

/-- Singles have their point in place from `1e-6` up to `1e13`. -/
def singleLayout : FloatLayout := ⟨-6, 12, .plus, .even⟩

/-- A floating-point number; one that is not finite is `null`. -/
def ofBinary {f : Format} (layout : FloatLayout) (x : Binary f) : Json :=
  if x.isFinite then .number (x.numeral layout) else .null

/-- A span. -/
def ofSpan (span : Span) : Json :=
  ofFields [("line", ofNat span.line.toNat), ("column", ofNat span.column.toNat),
    ("end_line", ofNat span.endLine.toNat), ("end_column", ofNat span.endColumn.toNat)]

/-- An identifier. -/
def ofIdent (ident : Ident) : Json :=
  ofFields [("name", ofString ident.name), ("span", ofSpan ident.span)]

/-- A primitive type. -/
def ofPrimitive (p : Primitive) : Json := ofString p.key

mutual

/-- A type. -/
def ofType : TypeExpr → Json
  | .primitive p s => tagged "Primitive" (.array [ofPrimitive p, ofSpan s])
  | .pointer base s => tagged "Pointer" (.array [ofType base, ofSpan s])
  | .nullable base s => tagged "NullablePointer" (.array [ofType base, ofSpan s])
  | .array element s => tagged "Array" (.array [ofType element, ofSpan s])
  | .named name link => tagged "Named" (ofFields [("name", ofIdent name), ("resolved", ofOption ofNat link)])
  | .function ⟨params, result, s⟩ =>
    tagged "Function" (ofFields [("params", .array (ofSlots params)), ("result", ofType result), ("span", ofSpan s)])

/-- Members or parameters. -/
def ofSlots : List (Slot TypeExpr) → List Json
  | [] => []
  | ⟨name, type, s⟩ :: rest =>
    ofFields [("name", ofIdent name), ("ty", ofType type), ("span", ofSpan s)] :: ofSlots rest

end

/-- A signature. -/
def ofSignature (signature : Signature TypeExpr) : Json :=
  ofFields [("params", .array (ofSlots signature.params)), ("result", ofType signature.result),
    ("span", ofSpan signature.span)]

/-- A member of a sum. -/
def ofSumSlot (slot : Slot (Option TypeExpr)) : Json :=
  ofFields [("name", ofIdent slot.name), ("ty", ofOption ofType slot.type), ("span", ofSpan slot.span)]

/-- The value of a literal. -/
def ofLiteral : Literal → Json
  | .string s => tagged "String" (ofString s)
  | .char n => tagged "Char" (ofNat n.toNat)
  | .i8 n => tagged "I8" (ofInt n.toInt)
  | .i16 n => tagged "I16" (ofInt n.toInt)
  | .i32 n => tagged "I32" (ofInt n.toInt)
  | .i64 n => tagged "I64" (ofInt n.toInt)
  | .u8 n => tagged "U8" (ofNat n.toNat)
  | .u16 n => tagged "U16" (ofNat n.toNat)
  | .u32 n => tagged "U32" (ofNat n.toNat)
  | .u64 n => tagged "U64" (ofNat n.toNat)
  | .f32 x => tagged "F32" (ofBinary singleLayout x)
  | .f64 x => tagged "F64" (ofBinary doubleLayout x)

mutual

/-- An expression. -/
def ofExpr : Expr → Json
  | .paren inner s => tagged "Paren" (ofFields [("expr", ofExpr inner), ("span", ofSpan s)])
  | .unary op operand s =>
    tagged "Unary" (ofFields [("op", ofString op.key), ("expr", ofExpr operand), ("span", ofSpan s)])
  | .binary left op right s =>
    tagged "Binary" (ofFields [("left", ofExpr left), ("op", ofString op.key), ("right", ofExpr right),
      ("span", ofSpan s)])
  | .cast operand type s =>
    tagged "Cast" (ofFields [("expr", ofExpr operand), ("ty", ofType type), ("span", ofSpan s)])
  | .field object name s =>
    tagged "Field" (ofFields [("expr", ofExpr object), ("field", ofIdent name), ("span", ofSpan s)])
  | .index object position s =>
    tagged "Index" (ofFields [("expr", ofExpr object), ("index", ofExpr position), ("span", ofSpan s)])
  | .function signature body s =>
    tagged "Function" (ofFields [("ty", ofSignature signature), ("body", ofScope body), ("span", ofSpan s)])
  | .call callee arguments s =>
    tagged "Call" (ofFields [("func", ofExpr callee), ("args", .array (ofExprs arguments)), ("span", ofSpan s)])
  | .ident name => tagged "Ident" (ofIdent name)
  | .literal value s => tagged "Literal" (ofFields [("value", ofLiteral value), ("span", ofSpan s)])
  | .bool value s => tagged "Bool" (.array [.bool value, ofSpan s])
  | .array count element elements s =>
    tagged "Array" (ofFields [("count", ofOptionExpr count), ("elem_ty", ofType element),
      ("elements", .array (ofExprs elements)), ("span", ofSpan s)])

/-- An expression that may be absent. -/
def ofOptionExpr : Option Expr → Json
  | none => .null
  | some e => ofExpr e

/-- Expressions. -/
def ofExprs : List Expr → List Json
  | [] => []
  | e :: rest => ofExpr e :: ofExprs rest

/-- A statement. -/
def ofStmt : Stmt → Json
  | .declaration id s => tagged "Declaration" (.array [ofNat id, ofSpan s])
  | .increment target s => tagged "Increment" (.array [ofExpr target, ofSpan s])
  | .decrement target s => tagged "Decrement" (.array [ofExpr target, ofSpan s])
  | .assign op target value s =>
    tagged "Assign" (ofFields [("op", ofString op.key), ("target", ofExpr target), ("value", ofExpr value),
      ("span", ofSpan s)])
  | .expr value => tagged "Expr" (ofExpr value)
  | .label name => tagged "Label" (ofIdent name)
  | .goto name => tagged "Goto" (ofIdent name)
  | .returning value s => tagged "Return" (ofFields [("value", ofOptionExpr value), ("span", ofSpan s)])

/-- A scope. -/
def ofScope : Scope → Json
  | .statement stmt => tagged "Statement" (ofStmt stmt)
  | .block scopes s => tagged "Block" (ofFields [("scopes", .array (ofScopes scopes)), ("span", ofSpan s)])
  | .conditional condition consequent alternative s =>
    tagged "Conditional" (ofFields [("cond", ofExpr condition), ("then_scope", ofScope consequent),
      ("else_scope", ofOptionScope alternative), ("span", ofSpan s)])
  | .forLoop init condition step body s =>
    tagged "For" (ofFields [("init", ofStmt init), ("cond", ofExpr condition), ("step", ofStmt step),
      ("body", ofScope body), ("span", ofSpan s)])
  | .whileLoop condition body s =>
    tagged "While" (ofFields [("cond", ofExpr condition), ("body", ofScope body), ("span", ofSpan s)])
  | .forEach element iterable body s =>
    tagged "ForEach" (ofFields [("element", ofIdent element), ("iterable", ofExpr iterable), ("body", ofScope body),
      ("span", ofSpan s)])
  | .matching subject arms s =>
    tagged "Match" (ofFields [("expr", ofExpr subject), ("cases", .array (ofArms arms)), ("span", ofSpan s)])

/-- A scope that may be absent. -/
def ofOptionScope : Option Scope → Json
  | none => .null
  | some scope => ofScope scope

/-- Scopes. -/
def ofScopes : List Scope → List Json
  | [] => []
  | scope :: rest => ofScope scope :: ofScopes rest

/-- The cases of a match. -/
def ofArms : List (Arm Scope) → List Json
  | [] => []
  | ⟨name, scopes, s⟩ :: rest =>
    ofFields [("name", ofIdent name), ("scopes", .array (ofScopes scopes)), ("span", ofSpan s)] :: ofArms rest

end

/-- What a declaration declares. -/
def ofDeclKind : DeclKind → Json
  | .constant type value =>
    tagged "Var" (tagged "Constant" (ofFields [("ty", ofOption ofType type), ("value", ofExpr value)]))
  | .mutable type value =>
    tagged "Var" (tagged "Mutable" (ofFields [("ty", ofType type), ("value", ofOptionExpr value)]))
  | .enumeration members => tagged "Enum" (ofFields [("members", .array (members.map ofIdent))])
  | .record .struct members => tagged "Struct" (ofFields [("members", .array (ofSlots members))])
  | .record .union members => tagged "Union" (ofFields [("members", .array (ofSlots members))])
  | .sum members => tagged "Sum" (ofFields [("members", .array (members.map ofSumSlot))])

/-- A declaration. -/
def ofDeclaration (d : Declaration) : Json :=
  ofFields [("name", ofIdent d.name), ("kind", ofDeclKind d.kind), ("span", ofSpan d.span),
    ("state", ofString d.mark.key)]

/-- A file. -/
def ofSourceFile (file : SourceFile) : Json :=
  ofFields [("declarations", .array (file.declarations.map ofDeclaration)), ("items", .array (file.items.map ofNat))]

end DeclTree.Document

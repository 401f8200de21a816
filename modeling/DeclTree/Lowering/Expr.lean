import DeclTree.C.Statement
import DeclTree.Error

/-!
# Lowering types and expressions

A type becomes a C type name, and where something is declared a declarator; an expression becomes a C expression. A
named type takes the keyword of the declaration that its link names, so lowering fails on a name without a link. What C
cannot say is refused: function types, function literals, arrays of arrays, sums, and numbers that are not finite.
-/

namespace DeclTree.Lowering

/-- The declaration at a position of the arena, or the error that there is none. -/
def declAt (file : SourceFile) (id : DeclId) : Except Error Declaration :=
  match file.decl? id with
  | some d => .ok d
  | none => .error (.outOfRange id file.declarations.length)

/-- The type name of a named type. -/
def namedType (file : SourceFile) (name : Ident) : Option DeclId → Except Error C.TypeName
  | none => .error (.unresolvedType name.name name.span)
  | some id => do
    match (← declAt file id).kind with
    | .record .struct _ => return ⟨.tagged .struct name.name, 0⟩
    | .record .union _ => return ⟨.tagged .union name.name, 0⟩
    | .enumeration _ => return ⟨.tagged .enum name.name, 0⟩
    | .sum _ => throw (.unsupported (.sumType name.name) name.span)
    | .constant .. | .mutable .. => throw (.notAType name.name name.span)

/-- The type name of a type. The brackets of an array belong to the declarator. -/
def typeName (file : SourceFile) : TypeExpr → Except Error C.TypeName
  | .primitive p _ => .ok ⟨.primitive p, 0⟩
  | .pointer base _ => (typeName file base).map C.TypeName.pointer
  | .nullable base _ => (typeName file base).map C.TypeName.pointer
  | .array element _ => typeName file element
  | .named name link => namedType file name link
  | .function signature =>
    .error (.unsupported (.functionType (TypeExpr.function signature).text) signature.span)

/-- The C form of a literal. A floating-point number that is not finite has none. -/
def literal (value : Literal) (span : Span) : Except Error C.Expr :=
  match value with
  | .f32 x => if x.isFinite then .ok (.literal value) else .error (.unsupported (.nonFinite x.nonFiniteText) span)
  | .f64 x => if x.isFinite then .ok (.literal value) else .error (.unsupported (.nonFinite x.nonFiniteText) span)
  | _ => .ok (.literal value)

mutual

/-- The C form of an expression. -/
def expr (file : SourceFile) : Expr → Except Error C.Expr
  | .paren inner _ => do return .paren (← expr file inner)
  | .unary op operand _ => do return .unary op (← expr file operand)
  | .binary left op right _ => do return .binary (← expr file left) op (← expr file right)
  | .cast operand type _ => do return .cast (← typeName file type) (← expr file operand)
  | .field object name _ => do return .field (← expr file object) name.name
  | .index object position _ => do return .index (← expr file object) (← expr file position)
  | .function _ _ span => .error (.unsupported .functionLiteral span)
  | .call callee arguments _ => do return .call (← expr file callee) (← exprs file arguments)
  | .ident name => .ok (.ident name.name)
  | .literal value span => literal value span
  | .bool value _ => .ok (.bool value)
  | .array _ _ elements _ => do return .braces (← exprs file elements)

/-- The C forms of expressions, in order. -/
def exprs (file : SourceFile) : List Expr → Except Error (List C.Expr)
  | [] => .ok []
  | e :: rest => do return (← expr file e) :: (← exprs file rest)

end

/-- The C form of an expression that may be absent. -/
def optionExpr (file : SourceFile) : Option Expr → Except Error (Option C.Expr)
  | none => .ok none
  | some e => (expr file e).map some

/-- The extent of an array whose initial value spells out a count. -/
def extent (file : SourceFile) : Option Expr → Except Error C.Extent
  | none => .ok .unsized
  | some count => (expr file count).map .sized

/-- The declarator of a name. An array takes brackets, with the given count between them. -/
def declarator (file : SourceFile) (type : TypeExpr) (name : String) (count : Option Expr) :
    Except Error C.Declarator :=
  match type with
  | .array (.array element inner) outer =>
    .error (.unsupported (.nestedArray (TypeExpr.array (.array element inner) outer).text) inner)
  | .array element _ => do
    let extent ← extent file count
    return ⟨← typeName file element, name, extent⟩
  | type => do return ⟨← typeName file type, name, .single⟩

/-- The declarators of slots, in order. -/
def declarators (file : SourceFile) (slots : List (Slot TypeExpr)) : Except Error (List C.Declarator) :=
  slots.mapM fun slot => declarator file slot.type slot.name.name none

/-- The count that an array literal spells out. -/
def arrayCount : Expr → Option Expr
  | .array count _ _ _ => count
  | _ => none

end DeclTree.Lowering

import DeclTree.Lowering.Expr

/-!
# Lowering declarations and statements

A declaration that is not a function becomes a C declaration, wherever it stands; a function can only be an item. A
statement that declares something takes the declaration from the arena. For-each loops, matches and the logical
assignments have no C form.
-/

namespace DeclTree.Lowering

/-- The C form of a declaration that is not a function. -/
def declaration (file : SourceFile) (d : Declaration) : Except Error C.Declaration :=
  match d.kind with
  | .constant none _ => .error (.missingType d.name.name d.span)
  | .constant (some type) value => do
    let declarator ← declarator file type d.name.name (arrayCount value)
    return .object declarator (some (← expr file value))
  | .mutable type value => do
    let declarator ← declarator file type d.name.name (value.bind arrayCount)
    return .object declarator (← optionExpr file value)
  | .enumeration members => .ok (.enumeration d.name.name (members.map (·.name)))
  | .record kind members => do return .record kind d.name.name (← declarators file members)
  | .sum _ => .error (.unsupportedKind d.kind.keyword d.name.name d.span)

/-- The glyph of an assignment; the logical ones have none. -/
def assignGlyph? : AssignOp → Option String
  | .assign => some "="
  | .and | .or => none
  | .bitAnd => some "&="
  | .bitOr => some "|="
  | .bitXor => some "^="
  | .shl => some "<<="
  | .shr => some ">>="
  | .add => some "+="
  | .sub => some "-="
  | .mul => some "*="
  | .div => some "/="
  | .mod => some "%="

/-- The C form of a statement. -/
def simple (file : SourceFile) : Stmt → Except Error C.Simple
  | .declaration id span => do
    let d ← declAt file id
    if d.isFunction then throw (.unsupported (.localFunction d.name.name) span)
    return .declaration (← declaration file d)
  | .increment target _ => (expr file target).map .increment
  | .decrement target _ => (expr file target).map .decrement
  | .assign op target value span =>
    match assignGlyph? op with
    | none => .error (.unsupported .logicalAssignment span)
    | some glyph => do return .assign (← expr file target) glyph (← expr file value)
  | .expr value => (expr file value).map .expression
  | .label name => .ok (.label name.name)
  | .goto name => .ok (.goto name.name)
  | .returning value _ => (optionExpr file value).map .returning

mutual

/-- The C form of a scope. -/
def statement (file : SourceFile) : Scope → Except Error C.Statement
  | .statement stmt => (simple file stmt).map .simple
  | .block scopes _ => (statements file scopes).map .block
  | .conditional condition consequent none _ => do
    return .conditional (← expr file condition) (← statement file consequent) none
  | .conditional condition consequent (some alternative) _ => do
    return .conditional (← expr file condition) (← statement file consequent) (some (← statement file alternative))
  | .forLoop init condition step body _ => do
    return .forLoop (← simple file init) (← expr file condition) (← simple file step) (← statement file body)
  | .whileLoop condition body _ => do return .whileLoop (← expr file condition) (← statement file body)
  | .forEach _ _ _ span => .error (.unsupported .forEach span)
  | .matching _ _ span => .error (.unsupported .matching span)

/-- The C forms of scopes, in order. -/
def statements (file : SourceFile) : List Scope → Except Error (List C.Statement)
  | [] => .ok []
  | scope :: rest => do return (← statement file scope) :: (← statements file rest)

end

/-- The C forms of the scopes of a function's body. -/
def body (file : SourceFile) : Scope → Except Error (List C.Statement)
  | .block scopes _ => statements file scopes
  | single => (statement file single).map fun s => [s]

/-- The result type of a function: what its annotation gives, and without one what its signature gives. -/
def resultType (ascribed : Option TypeExpr) (signature : Signature TypeExpr) : TypeExpr :=
  match ascribed with
  | some (.function annotated) => annotated.result
  | some type => type
  | none => signature.result

end DeclTree.Lowering

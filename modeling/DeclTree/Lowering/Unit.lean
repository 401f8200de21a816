import DeclTree.Event
import DeclTree.Lowering.Statement

/-!
# Generating C

The items of a file are lowered one after the other, types before variables and functions, and printed in that order.
The first item that cannot be lowered stops the work. What is recorded on the way does not influence the result.
-/

namespace DeclTree.Lowering

/-- The C form of a function item, with what is recorded: the parameters are lowered first, then the result type and
the body. -/
def function (file : SourceFile) (name : String) (ascribed : Option TypeExpr) (signature : Signature TypeExpr)
    (scope : Scope) : List Event × Except Error C.Function :=
  match declarators file signature.params with
  | .error e => ([], .error e)
  | .ok params => ([.function name params.length], do
    let result ← typeName file (resultType ascribed signature)
    return ⟨result, name, params, ← body file scope⟩)

/-- The C form of an item, with what is recorded. -/
def item (file : SourceFile) (d : Declaration) : List Event × Except Error C.Item :=
  let (events, result) :=
    match d.kind with
    | .constant ascribed (.function signature scope _) =>
      let (events, result) := function file d.name.name ascribed signature scope
      (events, result.map C.Item.function)
    | _ => ([], (declaration file d).map C.Item.declaration)
  (.emitting d.kind.keyword d.name.name :: events, result)

/-- The C forms of items, in order, with what is recorded until one fails. -/
def items (file : SourceFile) : List Declaration → List Event × Except Error (List C.Item)
  | [] => ([], .ok [])
  | d :: rest =>
    match item file d with
    | (events, .error e) => (events, .error e)
    | (events, .ok lowered) =>
      let (more, result) := items file rest
      (events ++ more, result.map (lowered :: ·))

/-- The top-level declarations in the order in which they are emitted: types first. -/
def emissionOrder (file : SourceFile) : List Declaration :=
  let all := file.topLevel.map (·.2)
  all.filter (!·.isVariable) ++ all.filter (·.isVariable)

end DeclTree.Lowering

namespace DeclTree

/-- The C text of a file, with what is recorded. -/
def generate (file : SourceFile) (banner : Bool) : List Event × Except Error String :=
  match Lowering.items file (Lowering.emissionOrder file) with
  | (events, .error e) => (events, .error e)
  | (events, .ok items) =>
    let text := C.unitText banner items
    (events ++ [.generated text.utf8ByteSize], .ok text)

end DeclTree

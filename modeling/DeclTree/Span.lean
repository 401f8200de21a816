/-!
# Places in a source text

A span runs from one line and column to another. The span whose four numbers are all zero stands for "no place":
trees that were not read from a source text carry it. Identifiers are names with the place where they are written.
-/

namespace DeclTree

/-- The stretch of source text that a node of the tree was written in. -/
structure Span where
  line : UInt32
  column : UInt32
  endLine : UInt32
  endColumn : UInt32
deriving DecidableEq

namespace Span

/-- The span of a node that was written nowhere. -/
def nowhere : Span := ⟨0, 0, 0, 0⟩

/-- Whether the span is the one that stands for no place. -/
def isNowhere (span : Span) : Bool := span == nowhere

/-- The span as a reader of diagnostics sees it: `(1, 4) -> (2, 7)`. -/
def text (span : Span) : String :=
  s!"({span.line}, {span.column}) -> ({span.endLine}, {span.endColumn})"

end Span

/-- A name and the place where it is written. -/
structure Ident where
  name : String
  span : Span
deriving DecidableEq

end DeclTree

import DeclTree.Document.Decode
import DeclTree.Document.Encode
import DeclTree.Error

/-!
# Reports

What a tool that drives the compiler gets to read: whether the compilation succeeded, what went wrong and where, and
what may be done about it, the most confident suggestion first.
-/

namespace DeclTree

/-- A place in a named file. -/
structure Location where
  file : String
  line : UInt32
  column : UInt32
  endLine : Option UInt32
  endColumn : Option UInt32
deriving DecidableEq

/-- The location of a span; no place has none. -/
def Location.ofSpan? (file : String) (span : Span) : Option Location :=
  if span.isNowhere then none
  else some ⟨file, span.line, span.column, some span.endLine, some span.endColumn⟩

/-- A way to mend a failure, with a text to put in place and the confidence that it helps. -/
structure Suggestion where
  message : String
  replacement : Option String
  confidence : Binary .double
deriving DecidableEq

/-- A confidence of some tenths. -/
def Binary.tenths (n : Nat) : Binary .double := .ofRatio ⟨n, 10⟩

/-- A failure in the form in which tools read it; every diagnostic is an error. -/
structure Diagnostic where
  code : String
  message : String
  location : Option Location
  suggestions : List Suggestion
deriving DecidableEq

/-- The suggestions for a failure. -/
def Error.suggestions : Error → List Suggestion
  | duplicateDeclaration name _ =>
    [⟨s!"Rename one of the declarations of `{name}`", none, .tenths 8⟩,
      ⟨"Move the second declaration into an inner block to shadow the first", none, .tenths 3⟩]
  | duplicateMember owner name _ =>
    [⟨s!"Remove or rename the repeated member `{name}` of `{owner}`", none, .tenths 9⟩]
  | unknownType name _ =>
    [⟨s!"Declare `{name}` as a struct or union", some (name ++ " :: struct \x7b \x7d"), .tenths 6⟩,
      ⟨"Check the spelling of the type name", none, .tenths 5⟩]
  | notAType name _ =>
    [⟨s!"`{name}` names a variable; use the name of a struct or union here", none, .tenths 8⟩]
  | circularType name _ =>
    [⟨s!"Store `{name}` behind a pointer to break the cycle", some ("*" ++ name), .tenths 9⟩,
      ⟨"Use a nullable pointer if the link may be absent", none, .tenths 6⟩]
  | unsupportedKind keyword _ _ =>
    [⟨s!"Rewrite the {keyword} as a struct with an explicit tag member", none, .tenths 4⟩]
  | missingIdentifier _ => [⟨"Give the declaration a name", none, .tenths 9⟩]
  | missingType name _ =>
    [⟨s!"Add a type annotation to `{name}`", some (name ++ ": int : ..."), .tenths 8⟩]
  | unsupported .. =>
    [⟨"Rewrite the construct using if/for/while and plain assignment", none, .tenths 5⟩]
  | unresolvedType .. =>
    [⟨"Run type resolution before code generation (drop --no-resolve)", none, .tenths 9⟩]
  | unreadable .. | unplaceable _ | noTemporary .. | malformed | outOfRange .. => []

namespace Diagnostic

/-- The same diagnostic with the most confident suggestion first; equally confident ones keep their order. -/
def ranked (d : Diagnostic) : Diagnostic :=
  { d with suggestions := d.suggestions.mergeSort fun a b => b.confidence.orderKey ≤ a.confidence.orderKey }

/-- The diagnostic of a failure in a named file. -/
def ofError (error : Error) (file : String) : Diagnostic :=
  ranked ⟨error.code, error.message, error.span?.bind (Location.ofSpan? file), error.suggestions⟩

end Diagnostic

/-- What a file declares at top level, and the size of the text made from it. -/
structure Statistics where
  types : Nat
  globals : Nat
  functions : Nat
  bytes : Nat
deriving DecidableEq

namespace Statistics

/-- The statistics of nothing. -/
def zero : Statistics := ⟨0, 0, 0, 0⟩

/-- The statistics of a file from which nothing has been made. -/
def ofFile (file : SourceFile) : Statistics :=
  let all := file.topLevel.map (·.2)
  ⟨all.countP (!·.isVariable), all.countP (fun d => d.isVariable && !d.isFunction), all.countP (·.isFunction), 0⟩

end Statistics

/-- The report on the compilation of a file. -/
structure Report where
  success : Bool
  file : String
  diagnostics : List Diagnostic
  statistics : Statistics

namespace Report

/-- The report on a success. -/
def ofSuccess (file : String) (statistics : Statistics) : Report := ⟨true, file, [], statistics⟩

/-- The report on a failure. -/
def ofError (file : String) (error : Error) : Report := ⟨false, file, [.ofError error file], .zero⟩

end Report

namespace Document

open Json (ofString ofNat ofOption ofFields required optional choice Decoder)

/-- A location. -/
def ofLocation (l : Location) : Json :=
  ofFields [("file", ofString l.file), ("line", ofNat l.line.toNat), ("column", ofNat l.column.toNat),
    ("end_line", ofOption (fun n : UInt32 => ofNat n.toNat) l.endLine),
    ("end_column", ofOption (fun n : UInt32 => ofNat n.toNat) l.endColumn)]

/-- A suggestion. -/
def ofSuggestion (s : Suggestion) : Json :=
  ofFields [("message", ofString s.message), ("replacement", ofOption ofString s.replacement),
    ("confidence", ofBinary doubleLayout s.confidence)]

/-- The word for how bad a diagnostic is. -/
def severity : String := "Error"

/-- A diagnostic. -/
def ofDiagnostic (d : Diagnostic) : Json :=
  ofFields [("code", ofString d.code), ("severity", ofString severity), ("message", ofString d.message),
    ("location", ofOption ofLocation d.location), ("suggestions", .array (d.suggestions.map ofSuggestion))]

/-- The statistics of a report. Times are not measured. -/
def ofStatistics (s : Statistics) : Json :=
  ofFields [("type_count", ofNat s.types), ("variable_count", ofNat s.globals),
    ("function_count", ofNat s.functions), ("output_bytes", ofNat s.bytes), ("total_time_ms", ofNat 0)]

/-- A report. -/
def ofReport (r : Report) : Json :=
  ofFields [("success", .bool r.success), ("source_file", ofString r.file),
    ("diagnostics", .array (r.diagnostics.map ofDiagnostic)), ("stats", ofStatistics r.statistics)]

/-- Read a location. -/
def location : Decoder Location
  | _ + 1, value => do
    let fields ← value.fields? ["file", "line", "column", "end_line", "end_column"]
    return ⟨← required Json.text? fields 0, ← required coordinate fields 1, ← required coordinate fields 2,
      ← optional coordinate fields 3, ← optional coordinate fields 4⟩
  | 0, _ => none

/-- Read a suggestion. -/
def suggestion : Decoder Suggestion
  | _ + 1, value => do
    let fields ← value.fields? ["message", "replacement", "confidence"]
    return ⟨← required Json.text? fields 0, ← optional Json.text? fields 1, ← required double fields 2⟩
  | 0, _ => none

/-- Read a diagnostic. -/
def diagnostic : Decoder Diagnostic
  | d + 1, value => do
    let fields ← value.fields? ["code", "severity", "message", "location", "suggestions"]
    let code ← required Json.text? fields 0
    let _ ← required (choice id [severity] d) fields 1
    return ⟨code, ← required Json.text? fields 2, ← optional (location d) fields 3,
      ← required (list suggestion d) fields 4⟩
  | 0, _ => none

end Document

end DeclTree

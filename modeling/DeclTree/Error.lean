import DeclTree.Span

/-!
# What can go wrong

Every failure is a cause with the names and the place it concerns; code, message and place of a failure are functions
of the cause. Failures of the document or of the file system have no place.
-/

namespace DeclTree

/-- A construct that has no C form. -/
inductive Construct where
  | forEach
  | matching
  | localFunction (name : String)
  | logicalAssignment
  | functionLiteral
  | functionType (type : String)
  | sumType (name : String)
  | nestedArray (type : String)
  | nonFinite (value : String)
deriving DecidableEq

/-- The construct in the words of a diagnostic. -/
def Construct.text : Construct → String
  | forEach => "for-each loop"
  | matching => "match scope"
  | localFunction name => s!"local function `{name}`"
  | logicalAssignment => "logical compound assignment"
  | functionLiteral => "function literal outside a top-level constant"
  | functionType type => s!"function type `{type}` outside a function declaration"
  | sumType name => s!"sum type `{name}`"
  | nestedArray type => s!"nested array type `{type}`"
  | nonFinite value => s!"non-finite float literal `{value}`"

/-- Why a file could not be read or replaced. -/
inductive FileFault where
  | notFound
  | busy
  | notDirectory
  | isDirectory
  /-- A name or a path has too many bytes. -/
  | tooLong
  /-- The path to be read contains a zero character. -/
  | zeroInPath
  /-- The path to be replaced contains a zero character. -/
  | invalidPath
  | notText
  /-- No name is left for a new file. -/
  | nameTaken
  | other (text : String)
deriving DecidableEq

/-- The fault in the words of the system. -/
def FileFault.text : FileFault → String
  | notFound => "No such file or directory (os error 2)"
  | busy => "Device or resource busy (os error 16)"
  | notDirectory => "Not a directory (os error 20)"
  | isDirectory => "Is a directory (os error 21)"
  | tooLong => "File name too long (os error 36)"
  | zeroInPath => "file name contained an unexpected NUL byte"
  | invalidPath => "Invalid argument (os error 22)"
  | notText => "stream did not contain valid UTF-8"
  | nameTaken => "too many temporary files exist"
  | other text => text

/-- The cause of a failure. -/
inductive Error where
  | duplicateDeclaration (name : String) (span : Span)
  | duplicateMember (owner : String) (name : String) (span : Span)
  | unknownType (name : String) (span : Span)
  | notAType (name : String) (span : Span)
  | circularType (name : String) (span : Span)
  | unsupportedKind (keyword : String) (name : String) (span : Span)
  | missingIdentifier (span : Span)
  | missingType (name : String) (span : Span)
  | unsupported (construct : Construct) (span : Span)
  | unresolvedType (name : String) (span : Span)
  /-- The file at a path cannot be read. -/
  | unreadable (path : String) (fault : FileFault)
  /-- The finished output cannot take its place. -/
  | unplaceable (fault : FileFault)
  /-- No new file can be made and written in the directory of the output. -/
  | noTemporary (directory : String) (fault : FileFault)
  /-- The text is not the JSON text of a declaration tree. -/
  | malformed
  /-- A declaration is named that the arena does not have. -/
  | outOfRange (id : Nat) (count : Nat)
deriving DecidableEq

namespace Error

/-- The code of a failure. -/
def code : Error → String
  | duplicateDeclaration .. => "E0101"
  | duplicateMember .. => "E0102"
  | unknownType .. => "E0103"
  | notAType .. => "E0104"
  | circularType .. => "E0105"
  | unsupportedKind .. => "E0106"
  | missingIdentifier _ => "E0107"
  | missingType .. => "E0108"
  | unsupported .. => "E0201"
  | unresolvedType .. => "E0202"
  | unreadable .. | unplaceable _ | noTemporary .. => "E0901"
  | malformed | outOfRange .. => "E0902"

/-- The place of a failure. -/
def span? : Error → Option Span
  | duplicateDeclaration _ s | duplicateMember _ _ s | unknownType _ s | notAType _ s | circularType _ s => some s
  | unsupportedKind _ _ s | missingIdentifier s | missingType _ s | unsupported _ s | unresolvedType _ s => some s
  | unreadable .. | unplaceable _ | noTemporary .. | malformed | outOfRange .. => none

/-- The message of a failure. -/
def message : Error → String
  | duplicateDeclaration name _ => s!"A declaration named `{name}` already exists in this scope"
  | duplicateMember owner name _ => s!"`{owner}` declares more than one member named `{name}`"
  | unknownType name _ => s!"Unknown type: {name}"
  | notAType name _ => s!"`{name}` is a variable, not the name of a type"
  | circularType name _ => s!"Type `{name}` contains itself"
  | unsupportedKind keyword name _ => s!"{keyword} declarations are not supported yet (`{name}`)"
  | missingIdentifier _ => "Declaration is missing its identifier"
  | missingType name _ => s!"Cannot determine the type of `{name}`; add an explicit type"
  | unsupported construct _ => s!"Unsupported construct: {construct.text}"
  | unresolvedType name _ => s!"Type `{name}` was not resolved before code generation"
  | unreadable path fault => s!"IO error: {path}: {fault.text}"
  | unplaceable fault => s!"IO error: {fault.text}"
  | noTemporary directory fault => s!"IO error: {fault.text} at path \"{directory}\""
  | malformed => "Invalid input: not the JSON text of a declaration tree"
  | outOfRange id count => s!"Invalid input: declaration index {id} out of range ({count} declarations)"

end Error

end DeclTree

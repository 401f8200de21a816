/-!
# Paths

Paths are texts whose segments are divided by slashes. Empty segments and single dots name nothing; the file name is the
last segment that is left, unless that goes up. The extension is what follows the last dot of the file name, where a dot
at its very start does not count.

Names and paths have a greatest length, counted in bytes, and no path contains a zero character.
-/

namespace DeclTree.Path

/-- The parts of a row of characters between its slashes. There is always one more part than there are slashes. -/
def splitSlash : List Char → List (List Char)
  | [] => [[]]
  | c :: rest =>
    if c = '/' then [] :: splitSlash rest
    else match splitSlash rest with
      | [] => [[c]]
      | segment :: more => (c :: segment) :: more

/-- The segments of a path, empty ones included. -/
def segments (path : String) : List String := (splitSlash path.toList).map String.ofList

/-- Whether a path starts at the root of all files. -/
def isAbsolute (path : String) : Bool := path.toList.head? == some '/'

/-- The segments that name something. -/
def components (path : String) : List String :=
  (segments path).filter fun segment => segment != "" && segment != "."

/-- The components of the directory that a path lies in. -/
def parent (path : String) : List String := (components path).dropLast

/-- The greatest length of a name in bytes. -/
def nameLimit : Nat := 255

/-- The greatest length of a path in bytes. -/
def pathLimit : Nat := 4095

/-- Whether a text contains a zero character. -/
def hasZero (text : String) : Bool := text.toList.contains '\x00'

/-- Drop slashes and segments of one dot from the end of a path; the path is reversed. -/
def trimEnd : List Char → List Char
  | '/' :: rest => trimEnd rest
  | '.' :: '/' :: rest => trimEnd rest
  | chars => chars

/-- The text of the directory that a path lies in, without slashes at its end. -/
def directory (path : String) : String :=
  String.ofList (trimEnd ((trimEnd path.toList.reverse).dropWhile (· != '/'))).reverse

/-- The text in front of the file name and the file name, if there is one. -/
def splitName? (path : List Char) : Option (List Char × List Char) :=
  let back := trimEnd path.reverse
  let name := (back.takeWhile (· != '/')).reverse
  if name = [] ∨ name = ['.'] ∨ name = ['.', '.'] then none
  else some ((back.drop name.length).reverse, name)

/-- The stem and the extension of a file name. -/
def splitExtension (name : List Char) : List Char × Option (List Char) :=
  let last := (name.reverse.takeWhile (· != '.')).reverse
  let stem := name.take (name.length - last.length - 1)
  if stem = [] ∨ last.length = name.length then (name, none) else (stem, some last)

/-- Put an extension behind the stem of the file name, in place of all that follows the stem. -/
def replaceExtension (path extension : List Char) : List Char :=
  match splitName? path with
  | none => path
  | some (directory, name) => directory ++ (splitExtension name).1 ++ '.' :: extension

/-- The path with another extension. An old extension is first cut off by its length from the end of the path, and the
new one goes behind the stem of what is left. -/
def withExtension (path extension : String) : String :=
  let chars := path.toList
  let old := ((splitName? chars).bind fun (_, name) => (splitExtension name).2).getD []
  String.ofList (replaceExtension (chars.take (chars.length - old.length)) extension.toList)

end DeclTree.Path

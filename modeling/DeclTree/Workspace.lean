import DeclTree.Error
import DeclTree.Path

/-!
# Directories of files

A workspace is a tree of directories and the directory in it that the program works in. A path is followed segment by
segment, from the root or from the directory of the program, and may go up and down again. A file is replaced through a
new file in the directory of its path: the text is written to the new file, which then takes its place.

The device that holds the files may fail at any act. A new file that cannot be written or moved is removed.

`FileAccess` is what the program needs of any such tree; `Workspace.access` provides it for a workspace on a device.
-/

namespace DeclTree

/-- What a path of a workspace holds. -/
inductive Entry where
  | directory
  | text (content : String)
  /-- Bytes that are not the UTF-8 form of a text. -/
  | binary
deriving DecidableEq

/-- The entries of a tree at any depth, by the names that lead to them from the root, and the directory that the program
works in. A directory need not be listed when something in it is, or when the program works in it or below it. -/
structure Workspace where
  home : List String
  entries : List (List String × Entry)

namespace Workspace

/-- The entry at a place. -/
def entryAt? (w : Workspace) (place : List String) : Option Entry :=
  if place.isPrefixOf w.home then some .directory
  else match w.entries.lookup place with
    | some entry => some entry
    | none => if w.entries.any fun (listed, _) => place.isPrefixOf listed then some .directory else none

/-- Put a text at a place. -/
def put (w : Workspace) (place : List String) (content : String) : Workspace :=
  if (w.entries.lookup place).isSome then
    ⟨w.home, w.entries.map fun (listed, entry) => (listed, if listed = place then .text content else entry)⟩
  else ⟨w.home, w.entries ++ [(place, .text content)]⟩

/-- Remove what is listed at a place. -/
def remove (w : Workspace) (place : List String) : Workspace :=
  ⟨w.home, w.entries.filter fun (listed, _) => listed != place⟩

/-- Move a text from one place to another. -/
def move (w : Workspace) (source target : List String) : Workspace :=
  match w.entries.lookup source with
  | some (.text content) => (w.remove source).put target content
  | _ => w

/-- The place that a segment leads to from a directory. The root is above itself. A name that is too long is not looked
for. -/
def enter (w : Workspace) (place : List String) (segment : String) : Except FileFault (List String) :=
  if segment = "" ∨ segment = "." then .ok place
  else if segment = ".." then .ok place.dropLast
  else if Path.nameLimit < segment.utf8ByteSize then .error .tooLong
  else if (w.entryAt? (place ++ [segment])).isSome then .ok (place ++ [segment])
  else .error .notFound

/-- The place that segments lead to; every segment starts from a directory. -/
def walk (w : Workspace) : List String → List String → Except FileFault (List String)
  | place, [] => .ok place
  | place, segment :: rest =>
    if w.entryAt? place = some .directory then
      match w.enter place segment with
      | .error fault => .error fault
      | .ok place => w.walk place rest
    else .error .notDirectory

/-- Where following a path starts. -/
def origin (w : Workspace) (path : String) : List String := if Path.isAbsolute path then [] else w.home

/-- The directory that segments lead to. -/
def directory (w : Workspace) (start segments : List String) : Except FileFault (List String) :=
  match w.walk start segments with
  | .error fault => .error fault
  | .ok place => if w.entryAt? place = some .directory then .ok place else .error .notDirectory

/-- The text at a path. -/
def read (w : Workspace) (path : String) : Except FileFault String :=
  if Path.hasZero path then .error .zeroInPath
  else if path = "" then .error .notFound
  else if Path.pathLimit < path.utf8ByteSize then .error .tooLong
  else match w.walk (w.origin path) (Path.segments path) with
    | .error fault => .error fault
    | .ok place =>
      match w.entryAt? place with
      | none => .error .notFound
      | some .directory => .error .isDirectory
      | some .binary => .error .notText
      | some (.text content) => .ok content

/-- The place that a file is moved to by a path. The path must name something in a directory, and not a directory
itself. -/
def target (w : Workspace) (path : String) : Except FileFault (List String) :=
  let all := Path.segments path
  let named := (all.reverse.dropWhile (· == "")).reverse
  if Path.hasZero path then .error .invalidPath
  else if Path.pathLimit < path.utf8ByteSize then .error .tooLong
  else match named.getLast? with
    | none => .error (if path = "" then .notFound else .busy)
    | some last =>
      match w.directory (w.origin path) named.dropLast with
      | .error fault => .error fault
      | .ok parent =>
        if last = "." ∨ last = ".." then .error .busy
        else if Path.nameLimit < last.utf8ByteSize then .error .tooLong
        else if named.length < all.length then .error .notDirectory
        else if w.entryAt? (parent ++ [last]) = some .directory then .error .isDirectory
        else .ok (parent ++ [last])

/-- The bytes that the name of a new file adds to the path of its directory. -/
def newNameLength : Nat := "/.tmpXXXXXX".utf8ByteSize

/-- The directory of a path, in which a new file can be made. -/
def roomFor (w : Workspace) (path : String) : Except FileFault (List String) :=
  let directory := Path.directory path
  if Path.hasZero directory then .error .zeroInPath
  else if Path.pathLimit < directory.utf8ByteSize + newNameLength then .error .tooLong
  else w.directory (w.origin path) (Path.parent path)

/-- A name that is longer than every name of the workspace. -/
def longName (w : Workspace) : String :=
  let names := w.home ++ w.entries.flatMap (·.1)
  ".tmp" ++ String.ofList (names.flatMap String.toList)

end Workspace

/-- What is asked of a device that holds files. -/
inductive FileAct where
  | read (path : String)
  | create (place : List String)
  | write (place : List String) (content : String)
  | move (source target : List String)

/-- A device that holds the files of a workspace. -/
structure Device where
  /-- The name that a new file in a directory gets. -/
  newName : Workspace → List String → String
  /-- The fault that an act meets, if it fails. -/
  fault? : FileAct → Option FileFault
  /-- What has been written of a text when writing it fails. -/
  written : String → String

namespace Device

/-- A device that never fails. -/
def reliable : Device := ⟨fun w _ => w.longName, fun _ => none, id⟩

/-- Read the text at a path. -/
def read (device : Device) (w : Workspace) (path : String) : Except FileFault String :=
  match device.fault? (.read path) with
  | some fault => .error fault
  | none => w.read path

/-- The place of a new file in a directory. -/
def newPlace (device : Device) (w : Workspace) (directory : List String) : List String :=
  directory ++ [device.newName w directory]

/-- Make a new file with a text in a directory. There must be nothing of its name. Where the text cannot be written, the
new file is removed. -/
def makeNew (device : Device) (directory : List String) (content : String) :
    StateM Workspace (Except FileFault (List String)) := fun w =>
  let new := device.newPlace w directory
  if (w.entryAt? new).isSome then (.error .nameTaken, w)
  else match device.fault? (.create new) with
    | some fault => (.error fault, w)
    | none =>
      let created := w.put new ""
      match device.fault? (.write new content) with
      | some fault => (.error fault, (created.put new (device.written content)).remove new)
      | none => (.ok new, created.put new content)

/-- Move a new file to the place of a path, or remove it. -/
def moveNew (device : Device) (new : List String) (path : String) : StateM Workspace (Except FileFault Unit) := fun w =>
  match w.target path with
  | .error fault => (.error fault, w.remove new)
  | .ok place =>
    match device.fault? (.move new place) with
    | some fault => (.error fault, w.remove new)
    | none => (.ok (), w.move new place)

/-- Replace the file at a path. The text is first written to a new file in the directory of the path, so that directory
must exist; then the new file is moved. -/
def replace (device : Device) (path content : String) : StateM Workspace (Except Error Unit) := fun w =>
  match w.roomFor path with
  | .error fault => (.error (.noTemporary (Path.directory path) fault), w)
  | .ok directory =>
    match device.makeNew directory content w with
    | (.error fault, w) => (.error (.noTemporary (Path.directory path) fault), w)
    | (.ok new, w) =>
      match device.moveNew new path w with
      | (.error fault, w) => (.error (.unplaceable fault), w)
      | (.ok (), w) => (.ok (), w)

end Device

/-- How files are read and replaced. -/
structure FileAccess (m : Type → Type) where
  read : String → m (Except FileFault String)
  replace : String → String → m (Except Error Unit)

/-- Access to the files of a workspace on a device. -/
def Workspace.access (device : Device) : FileAccess (StateM Workspace) where
  read path := fun w => (device.read w path, w)
  replace := device.replace

namespace Workspace

/-- Reading goes through the device, and leaves the files as they are. -/
@[simp] theorem access_read (device : Device) (path : String) (w : Workspace) :
    (access device).read path w = (device.read w path, w) := by rw [access]

/-- Replacing goes through the device. -/
@[simp] theorem access_replace (device : Device) : (access device).replace = device.replace := by rw [access]

end Workspace

end DeclTree

import DeclTree.Workspace
import Mathlib.Data.List.Infix

/-!
# Replacing a file

Replacing a file on any device either fails and leaves the workspace as it was, or puts the text where the path leads
and leaves every other place as it was. The path may start at the root, and it may leave the directory of the program
and come back.

A new file is a text in a directory, so no path goes through it: whatever place a path leads to beside the new file, it
leads to without it. The new file is gone once it is moved or removed, so that nothing is left of it.
-/

namespace DeclTree

namespace Workspace

variable {w w' : Workspace} {place other start segments : List String} {path content : String}

/-- A text can be put at a place that lies in a directory and is none itself. -/
structure Takes (w : Workspace) (place : List String) : Prop where
  parent : w.entryAt? place.dropLast = some .directory
  file : w.entryAt? place ≠ some .directory

/-- The root is a directory. -/
theorem entryAt?_nil (w : Workspace) : w.entryAt? [] = some .directory := by simp [entryAt?]

/-- Replacing the entry at a place of a list changes what is listed there. -/
theorem lookup_set (entries : List (List String × Entry)) (place other : List String) (content : String) :
    (entries.map fun entry => (entry.1, if entry.1 = place then .text content else entry.2)).lookup other =
      (entries.lookup other).map fun entry => if other = place then .text content else entry := by
  induction entries with
  | nil => rfl
  | cons entry rest ih =>
    obtain ⟨path, held⟩ := entry
    rw [List.map_cons, List.lookup_cons, List.lookup_cons, ih]
    by_cases hpath : other = path
    · simp [hpath]
    · simp [beq_false_of_ne hpath]

/-- A place that is not on the way to the program holds what is listed there, or is a directory on the way to something
listed. -/
theorem entryAt?_eq_or (w : Workspace) (hway : ¬ place <+: w.home) :
    w.entryAt? place = (w.entries.lookup place).or
      (if w.entries.any (fun listed => place.isPrefixOf listed.1) then some .directory else none) := by
  rw [entryAt?, if_neg (mt List.isPrefixOf_iff_prefix.mp hway)]
  cases w.entries.lookup place with
  | none => rfl
  | some held => rfl

/-- The directories on the way to the program. -/
theorem entryAt?_of_prefix_home (hway : place <+: w.home) : w.entryAt? place = some .directory :=
  if_pos (List.isPrefixOf_iff_prefix.mpr hway)

/-- Something is on the way to the program or to something listed. -/
theorem exists_prefix_of_entryAt? {entry : Entry} (h : w.entryAt? place = some entry) :
    place <+: w.home ∨ ∃ listed ∈ w.entries, place <+: listed.1 := by
  refine or_iff_not_imp_left.mpr fun hway => ?_
  rw [entryAt?_eq_or w hway] at h
  cases hheld : w.entries.lookup place with
  | some held =>
    obtain ⟨before, after, hentries, -⟩ := List.lookup_eq_some_iff.mp hheld
    exact ⟨(place, held), by simp [hentries], List.prefix_rfl⟩
  | none =>
    rw [hheld, Option.none_or] at h
    split at h
    · next hany =>
      obtain ⟨listed, hlisted, hprefix⟩ := List.any_eq_true.mp hany
      exact ⟨listed, hlisted, List.isPrefixOf_iff_prefix.mp hprefix⟩
    · cases h

/-- Where there is nothing, nothing is listed. -/
theorem lookup_of_entryAt?_eq_none (h : w.entryAt? place = none) : w.entries.lookup place = none := by
  have hway : ¬ place <+: w.home := fun hway => by simp [entryAt?_of_prefix_home hway] at h
  rw [entryAt?_eq_or w hway] at h
  exact (Option.or_eq_none_iff.mp h).1

/-- What is on the way to a directory, but not to the program, is on the way to something listed. -/
theorem any_isPrefixOf {parent : List String} (hparent : w.entryAt? parent = some .directory)
    (hother : other <+: parent) (hway : ¬ other <+: w.home) :
    w.entries.any (fun listed => other.isPrefixOf listed.1) = true := by
  rcases exists_prefix_of_entryAt? hparent with hhome | ⟨listed, hlisted, hprefix⟩
  · exact absurd (hother.trans hhome) hway
  · exact List.any_eq_true.mpr ⟨listed, hlisted, List.isPrefixOf_iff_prefix.mpr (hother.trans hprefix)⟩

/-- Storing a file leaves the working directory as it is. -/
@[simp] theorem put_home (w : Workspace) (place : List String) (content : String) :
    (w.put place content).home = w.home := by
  unfold put
  split
  · rfl
  · rfl

/-- Paths start at the same place, whatever has been put somewhere. -/
@[simp] theorem put_origin (w : Workspace) (place : List String) (content path : String) :
    (w.put place content).origin path = w.origin path := by
  rw [origin, origin, put_home]

/-- Putting a text into a directory changes nothing else. -/
theorem Takes.entryAt?_put (h : w.Takes place) (content : String) (other : List String) :
    (w.put place content).entryAt? other = if other = place then some (.text content) else w.entryAt? other := by
  by_cases hway : other <+: w.home
  · have hne : other ≠ place := fun heq => h.file (heq ▸ entryAt?_of_prefix_home hway)
    rw [if_neg hne, entryAt?_of_prefix_home hway, entryAt?_of_prefix_home (by simpa using hway)]
  rw [entryAt?_eq_or w hway, entryAt?_eq_or _ (by simpa using hway), put]
  split
  · next hlisted =>
    dsimp only
    rw [lookup_set, List.any_map]
    by_cases hother : other = place
    · subst hother
      obtain ⟨held, hheld⟩ := Option.isSome_iff_exists.mp hlisted
      simp [hheld]
    · simp only [if_neg hother, Option.map_id']
      rfl
  · next hlisted =>
    dsimp only
    rw [List.lookup_append, List.any_append]
    by_cases hother : other = place
    · subst hother
      have hnone : w.entries.lookup other = none := Option.not_isSome_iff_eq_none.mp hlisted
      simp [hnone]
    · have hnew : [(place, Entry.text content)].lookup other = none := by
        simp [List.lookup_cons, beq_false_of_ne hother]
      rw [hnew, Option.or_none, if_neg hother]
      obtain ⟨parent, last, rfl⟩ : ∃ parent last, place = parent ++ [last] :=
        (List.eq_nil_or_concat' place).resolve_left fun hroot => h.file (hroot ▸ entryAt?_nil w)
      -- A place on the way to the new one is on the way to its directory.
      by_cases hprefix : other <+: parent ++ [last]
      · have hparent := (List.prefix_concat_iff.mp hprefix).resolve_left hother
        rw [any_isPrefixOf (by simpa using h.parent) hparent hway, Bool.true_or]
      · have hstray : other.isPrefixOf (parent ++ [last]) = false :=
          Bool.eq_false_iff.mpr (mt List.isPrefixOf_iff_prefix.mp hprefix)
        rw [List.any_cons, List.any_nil, hstray, Bool.or_false, Bool.or_false]

/-- Putting a text somewhere neither makes nor removes a directory. -/
theorem Takes.directory_put_iff (h : w.Takes place) (content : String) (other : List String) :
    (w.put place content).entryAt? other = some .directory ↔ w.entryAt? other = some .directory := by
  rw [h.entryAt?_put]
  split
  · next hother => simpa [hother] using h.file
  · rfl

section New

variable (hnew : w.entries.lookup place = none)

include hnew

/-- A place at which nothing is listed is not the place of an entry. -/
theorem ne_of_mem_entries : ∀ listed ∈ w.entries, listed.1 ≠ place := fun listed hlisted heq =>
  absurd (List.lookup_eq_none_iff.mp hnew listed hlisted) (by simp [heq])

/-- What is put at a new place is replaced by what is put there again. -/
theorem put_put (first second : String) : (w.put place first).put place second = w.put place second := by
  have hkept : w.entries.map (fun listed => (listed.1, if listed.1 = place then .text second else listed.2)) =
      w.entries := by
    refine (List.map_congr_left fun listed hlisted => ?_).trans (List.map_id _)
    rw [if_neg (ne_of_mem_entries hnew listed hlisted), id]
  simp [put, hnew, List.lookup_append, hkept]

/-- Nothing is left of what is put at a new place and removed. -/
theorem remove_put_self (content : String) : (w.put place content).remove place = w := by
  have hkept : w.entries.filter (fun listed => listed.1 != place) = w.entries :=
    List.filter_eq_self.mpr fun listed hlisted => bne_iff_ne.mpr (ne_of_mem_entries hnew listed hlisted)
  simp [put, remove, hnew, hkept]

/-- Moving what was put at a new place leaves it at the other place only. -/
theorem move_put (content : String) (other : List String) :
    (w.put place content).move place other = w.put other content := by
  have hlisted : (w.put place content).entries.lookup place = some (.text content) := by
    simp [put, hnew, List.lookup_append]
  rw [move, hlisted]
  dsimp only
  rw [remove_put_self hnew]

end New

/-- A walk goes on from the place that its first part leads to. -/
theorem walk_append (w : Workspace) (start front back : List String) :
    w.walk start (front ++ back) = w.walk start front >>= fun place => w.walk place back := by
  induction front generalizing start with
  | nil => rfl
  | cons segment rest ih =>
    rw [List.cons_append, walk, walk]
    split
    · split
      · rfl
      · exact ih _
    · rfl

/-- A walk to a directory starts from one. -/
theorem directory_of_walk (hwalk : w.walk start segments = .ok place) (hplace : w.entryAt? place = some .directory) :
    w.entryAt? start = some .directory := by
  cases segments with
  | nil => exact Except.ok.inj hwalk ▸ hplace
  | cons segment rest =>
    rw [walk] at hwalk
    split at hwalk
    · next hstart => exact hstart
    · cases hwalk

/-- A directory is found exactly if the walk ends at one. -/
theorem directory_eq_ok_iff :
    w.directory start segments = .ok place ↔
      w.walk start segments = .ok place ∧ w.entryAt? place = some .directory := by
  unfold directory
  cases w.walk start segments with
  | error fault => simp
  | ok reached =>
    dsimp only
    split
    · next hreached => exact ⟨fun h => ⟨h, Except.ok.inj h ▸ hreached⟩, fun h => h.1⟩
    · next hreached => exact ⟨nofun, fun h => absurd (Except.ok.inj h.1 ▸ h.2) hreached⟩

section Directories

variable (hsame : ∀ place, w.entryAt? place = some .directory → w'.entryAt? place = some .directory)

include hsame

/-- A segment that leads to a directory leads there wherever the directories are kept. -/
theorem enter_of_directory {segment : String} (h : w.enter start segment = .ok place)
    (hplace : w.entryAt? place = some .directory) : w'.enter start segment = .ok place := by
  unfold enter at h ⊢
  split at h
  · next hstays => rwa [if_pos hstays]
  next hstays =>
  split at h
  · next hup => rwa [if_neg hstays, if_pos hup]
  next hup =>
  split at h
  · cases h
  next hlong =>
  split at h
  · obtain rfl := Except.ok.inj h
    rw [if_neg hstays, if_neg hup, if_neg hlong, hsame _ hplace]
    rfl
  · cases h

/-- A walk to a directory goes the same way wherever the directories are kept, since it only goes through them. -/
theorem directory_of_directories (h : w.directory start segments = .ok place) :
    w'.directory start segments = .ok place := by
  obtain ⟨hwalk, hplace⟩ := directory_eq_ok_iff.mp h
  refine directory_eq_ok_iff.mpr ⟨?_, hsame place hplace⟩
  clear h
  induction segments generalizing start with
  | nil => exact hwalk
  | cons segment rest ih =>
    have hstart := directory_of_walk hwalk hplace
    rw [walk, if_pos hstart] at hwalk
    rw [walk, if_pos (hsame start hstart)]
    split at hwalk
    · cases hwalk
    · next hnext =>
      rw [enter_of_directory hsame hnext (directory_of_walk hwalk hplace)]
      exact ih hwalk

end Directories

/-- A text that is put somewhere is not on the way to a directory. -/
theorem Takes.directory_put (h : w.Takes place) (content : String) {parent : List String} :
    (w.put place content).directory start segments = .ok parent ↔ w.directory start segments = .ok parent :=
  ⟨directory_of_directories fun other => (h.directory_put_iff content other).mp,
    directory_of_directories fun other => (h.directory_put_iff content other).mpr⟩

/-- Segments of which none is dropped from the end do not end in an empty one. -/
theorem named_segments {all : List String} (h : all.length ≤ (all.reverse.dropWhile (· == "")).reverse.length) :
    (all.reverse.dropWhile (· == "")).reverse = all ∧ ∀ last, all.getLast? = some last → last ≠ "" := by
  have hall : all.reverse.dropWhile (· == "") = all.reverse :=
    (List.dropWhile_suffix _).eq_of_length_le (by simpa using h)
  refine ⟨by rw [hall, List.reverse_reverse], fun last hlast => ?_⟩
  have hhead := List.head?_dropWhile_not (· == "") all.reverse
  rw [hall, List.head?_reverse, hlast] at hhead
  simpa using hhead

/-- A path to something in a directory: the name of the thing, and the directory that the rest of the path leads to. -/
structure Names (w : Workspace) (path : String) (front : List String) (last : String) (parent : List String) :
    Prop where
  zero : Path.hasZero path = false
  length : path.utf8ByteSize ≤ Path.pathLimit
  segments : Path.segments path = front ++ [last]
  named : last ≠ "" ∧ last ≠ "." ∧ last ≠ ".."
  nameLength : last.utf8ByteSize ≤ Path.nameLimit
  directory : w.directory (w.origin path) front = .ok parent
  file : w.entryAt? (parent ++ [last]) ≠ some .directory

/-- A file is moved to what a path names in a directory. -/
theorem target_eq_ok_iff :
    w.target path = .ok place ↔ ∃ front last parent, w.Names path front last parent ∧ place = parent ++ [last] := by
  constructor
  · intro h
    unfold target at h
    dsimp only at h
    split at h
    · cases h
    next hzero =>
    split at h
    · cases h
    next hpath =>
    split at h
    · cases h
    next last hlast =>
    split at h
    · cases h
    next parent hdirectory =>
    split at h
    · cases h
    next hdots =>
    split at h
    · cases h
    next hlimit =>
    split at h
    · cases h
    next hlength =>
    split at h
    · cases h
    next hfile =>
    obtain ⟨hnamed, hempty⟩ := named_segments (Nat.le_of_not_lt hlength)
    rw [hnamed] at hlast hdirectory
    obtain ⟨front, hsegments⟩ := List.getLast?_eq_some_iff.mp hlast
    rw [hsegments, List.dropLast_concat] at hdirectory
    exact ⟨front, last, parent, ⟨Bool.eq_false_iff.mpr hzero, Nat.le_of_not_lt hpath, hsegments,
      ⟨hempty last hlast, not_or.mp hdots⟩, Nat.le_of_not_lt hlimit, hdirectory, hfile⟩, (Except.ok.inj h).symm⟩
  · rintro ⟨front, last, parent, h, rfl⟩
    rw [target, h.segments]
    simp [h.zero, Nat.not_lt.mpr h.length, h.directory, h.named, Nat.not_lt.mpr h.nameLength, h.file]

/-- A text can be put where a file can be moved to. -/
theorem takes_of_target (h : w.target path = .ok place) : w.Takes place := by
  obtain ⟨front, last, parent, hnames, rfl⟩ := target_eq_ok_iff.mp h
  exact ⟨by simpa using (directory_eq_ok_iff.mp hnames.directory).2, hnames.file⟩

/-- A path leads to the same place beside a text that has been put somewhere. -/
theorem Takes.target_put (h : w.Takes other) (content : String) :
    (w.put other content).target path = .ok place ↔ w.target path = .ok place := by
  have hnames (front : List String) (last : String) (parent : List String) :
      (w.put other content).Names path front last parent ↔ w.Names path front last parent := by
    constructor
    · rintro ⟨hzero, hlength, hsegments, hnamed, hname, hdirectory, hfile⟩
      exact ⟨hzero, hlength, hsegments, hnamed, hname, (h.directory_put content).mp (by simpa using hdirectory),
        mt (h.directory_put_iff content _).mpr hfile⟩
    · rintro ⟨hzero, hlength, hsegments, hnamed, hname, hdirectory, hfile⟩
      exact ⟨hzero, hlength, hsegments, hnamed, hname, by simpa using (h.directory_put content).mpr hdirectory,
        mt (h.directory_put_iff content _).mp hfile⟩
  simp only [target_eq_ok_iff, hnames]

/-- The text is in the place that the path leads to, and every other place is as it was. -/
structure Replaced (w : Workspace) (path content : String) (place : List String) (after : Workspace) : Prop where
  denotes : w.target path = .ok place
  leads : after.walk (after.origin path) (Path.segments path) = .ok place
  reads : after.read path = .ok content
  others : ∀ other, other ≠ place → after.entryAt? other = w.entryAt? other
  home : after.home = w.home

/-- Putting a text where a path leads replaces what is there. -/
theorem replaced_of_target (h : w.target path = .ok place) (content : String) :
    w.Replaced path content place (w.put place content) := by
  have htakes := takes_of_target h
  have hput := htakes.entryAt?_put content
  obtain ⟨front, last, parent, hnames, rfl⟩ := target_eq_ok_iff.mp h
  have hleads : (w.put (parent ++ [last]) content).walk (w.origin path) (Path.segments path) =
      .ok (parent ++ [last]) := by
    obtain ⟨hfront, hparent⟩ := directory_eq_ok_iff.mp ((htakes.directory_put content).mpr hnames.directory)
    have hbind : (Except.ok parent >>= fun place => (w.put (parent ++ [last]) content).walk place [last]) =
        (w.put (parent ++ [last]) content).walk parent [last] := rfl
    rw [hnames.segments, walk_append, hfront, hbind, walk, if_pos hparent]
    simp [enter, hnames.named, Nat.not_lt.mpr hnames.nameLength, hput, walk]
  have hpath : path ≠ "" := by
    rintro rfl
    have hsingle : [""].getLast? = (front ++ [last]).getLast? := congrArg List.getLast? hnames.segments
    exact hnames.named.1 (by simpa using hsingle.symm)
  refine ⟨h, by rw [put_origin, hleads], ?_, fun other hother => by rw [hput, if_neg hother], put_home ..⟩
  rw [read, if_neg (Bool.eq_false_iff.mp hnames.zero), if_neg hpath, if_neg (Nat.not_lt.mpr hnames.length), put_origin,
    hleads]
  simp [hput]

/-- A directory that has room for a new file is a directory. -/
theorem entryAt?_of_roomFor (h : w.roomFor path = .ok place) : w.entryAt? place = some .directory := by
  unfold roomFor at h
  dsimp only at h
  split at h
  · cases h
  · split at h
    · cases h
    · exact (directory_eq_ok_iff.mp h).2

/-- The long name is none of the names in use. -/
theorem longName_notMem (w : Workspace) : w.longName ∉ w.home ++ w.entries.flatMap (·.1) := by
  intro hmem
  have hsublist : w.longName.toList.Sublist ((w.home ++ w.entries.flatMap (·.1)).flatMap String.toList) :=
    List.flatMap_def .. ▸ List.sublist_flatten_of_mem (List.mem_map_of_mem hmem)
  have hlength := hsublist.length_le
  simp only [longName, String.toList_append, String.toList_ofList, List.length_append] at hlength
  have hdots : 0 < ".tmp".toList.length := by decide
  omega

/-- Nothing has the long name. -/
theorem entryAt?_longName (w : Workspace) (directory : List String) :
    w.entryAt? (directory ++ [w.longName]) = none := by
  by_contra hentry
  obtain ⟨entry, hentry⟩ := Option.ne_none_iff_exists'.mp hentry
  refine w.longName_notMem (List.mem_append.mpr ?_)
  rcases exists_prefix_of_entryAt? hentry with hway | ⟨listed, hlisted, hway⟩
  · exact .inl (hway.subset (by simp))
  · exact .inr (List.mem_flatMap.mpr ⟨listed, hlisted, hway.subset (by simp)⟩)

end Workspace

namespace Device

open Workspace (Replaced)

variable {device : Device} {w : Workspace} {directory place : List String} {path content : String}

/-- Why a file is not replaced: there is no directory for a new file, the new file cannot be made or written, or it
cannot be moved. -/
inductive FailsToReplace (device : Device) (w : Workspace) (path content : String) : Error → Prop
  | noRoom {fault : FileFault} (h : w.roomFor path = .error fault) :
    FailsToReplace device w path content (.noTemporary (Path.directory path) fault)
  | nameTaken {directory : List String} (room : w.roomFor path = .ok directory)
    (h : (w.entryAt? (device.newPlace w directory)).isSome) :
    FailsToReplace device w path content (.noTemporary (Path.directory path) .nameTaken)
  | notCreated {directory : List String} {fault : FileFault} (room : w.roomFor path = .ok directory)
    (h : device.fault? (.create (device.newPlace w directory)) = some fault) :
    FailsToReplace device w path content (.noTemporary (Path.directory path) fault)
  | notWritten {directory : List String} {fault : FileFault} (room : w.roomFor path = .ok directory)
    (h : device.fault? (.write (device.newPlace w directory) content) = some fault) :
    FailsToReplace device w path content (.noTemporary (Path.directory path) fault)
  | noTarget {directory : List String} {fault : FileFault} (room : w.roomFor path = .ok directory)
    (h : (w.put (device.newPlace w directory) content).target path = .error fault) :
    FailsToReplace device w path content (.unplaceable fault)
  | notMoved {directory place : List String} {fault : FileFault} (room : w.roomFor path = .ok directory)
    (target : w.target path = .ok place) (h : device.fault? (.move (device.newPlace w directory) place) = some fault) :
    FailsToReplace device w path content (.unplaceable fault)

/-- A new file can be put in a directory under a name that nothing has. -/
theorem takes_newPlace (device : Device) (hdirectory : w.entryAt? directory = some .directory)
    (hnew : w.entryAt? (device.newPlace w directory) = none) : w.Takes (device.newPlace w directory) :=
  ⟨by rwa [newPlace, List.dropLast_concat], by simp [hnew]⟩

/-- Making a new file puts the text there, or leaves nothing of it. -/
theorem makeNew_cases (device : Device) (w : Workspace) (directory : List String) (content : String) :
    (device.makeNew directory content w =
        (.ok (device.newPlace w directory), w.put (device.newPlace w directory) content) ∧
      w.entryAt? (device.newPlace w directory) = none) ∨
    ∃ fault, device.makeNew directory content w = (.error fault, w) ∧
      ((w.entryAt? (device.newPlace w directory)).isSome ∧ fault = .nameTaken ∨
        device.fault? (.create (device.newPlace w directory)) = some fault ∨
        device.fault? (.write (device.newPlace w directory) content) = some fault) := by
  unfold makeNew
  dsimp only
  split
  · next htaken => exact .inr ⟨_, rfl, .inl ⟨htaken, rfl⟩⟩
  next hfree =>
  have hnone : w.entryAt? (device.newPlace w directory) = none := Option.not_isSome_iff_eq_none.mp hfree
  have hnew := Workspace.lookup_of_entryAt?_eq_none hnone
  split
  · next fault hcreate => exact .inr ⟨fault, rfl, .inr (.inl hcreate)⟩
  split
  · next fault hwrite =>
    refine .inr ⟨fault, ?_, .inr (.inr hwrite)⟩
    rw [Workspace.put_put hnew, Workspace.remove_put_self hnew]
  · exact .inl ⟨by rw [Workspace.put_put hnew], hnone⟩

/-- Moving a new file puts its text where the path leads, or leaves nothing of it. -/
theorem moveNew_cases {new : List String} (device : Device) (htakes : w.Takes new) (hnone : w.entryAt? new = none)
    (path content : String) :
    (∃ place, device.moveNew new path (w.put new content) = (.ok (), w.put place content) ∧
      w.target path = .ok place) ∨
    ∃ fault, device.moveNew new path (w.put new content) = (.error fault, w) ∧
      ((w.put new content).target path = .error fault ∨
        ∃ place, w.target path = .ok place ∧ device.fault? (.move new place) = some fault) := by
  have hnew := Workspace.lookup_of_entryAt?_eq_none hnone
  unfold moveNew
  split
  · next fault htarget => exact .inr ⟨fault, by rw [Workspace.remove_put_self hnew], .inl htarget⟩
  next place htarget =>
  have hplace := (htakes.target_put content).mp htarget
  split
  · next fault hmove => exact .inr ⟨fault, by rw [Workspace.remove_put_self hnew], .inr ⟨place, hplace, hmove⟩⟩
  · exact .inl ⟨place, by rw [Workspace.move_put hnew], hplace⟩

/-- Replacing a file puts the text where the path leads, or changes nothing and fails for a cause. -/
theorem replace_cases (device : Device) (w : Workspace) (path content : String) :
    (∃ place, device.replace path content w = (.ok (), w.put place content) ∧ w.target path = .ok place) ∨
    ∃ error, device.replace path content w = (.error error, w) ∧ device.FailsToReplace w path content error := by
  unfold replace
  split
  · next fault hroom => exact .inr ⟨_, rfl, .noRoom hroom⟩
  next directory hroom =>
  obtain ⟨hmake, hnone⟩ | ⟨fault, hmake, hcause⟩ := makeNew_cases device w directory content
  · rw [hmake]
    have htakes := takes_newPlace device (Workspace.entryAt?_of_roomFor hroom) hnone
    obtain ⟨place, hmove, hplace⟩ | ⟨fault, hmove, hcause⟩ := moveNew_cases device htakes hnone path content
    · dsimp only
      rw [hmove]
      exact .inl ⟨place, rfl, hplace⟩
    · dsimp only
      rw [hmove]
      rcases hcause with htarget | ⟨place, hplace, hfault⟩
      · exact .inr ⟨_, rfl, .noTarget hroom htarget⟩
      · exact .inr ⟨_, rfl, .notMoved hroom hplace hfault⟩
  · rw [hmake]
    rcases hcause with ⟨htaken, rfl⟩ | hcreate | hwrite
    · exact .inr ⟨_, rfl, .nameTaken hroom htaken⟩
    · exact .inr ⟨_, rfl, .notCreated hroom hcreate⟩
    · exact .inr ⟨_, rfl, .notWritten hroom hwrite⟩

/-- A file that is replaced has a directory with room. -/
theorem exists_roomFor_of_replace (h : (device.replace path content w).1 = .ok ()) :
    ∃ directory, w.roomFor path = .ok directory := by
  unfold replace at h
  split at h
  · cases h
  · next directory hroom => exact ⟨directory, hroom⟩

/-- On a device that never fails, a file is replaced exactly if its directory has room and its path leads to no
directory. -/
theorem reliable_replaces_iff : (reliable.replace path content w).1 = .ok () ↔
    (∃ directory, w.roomFor path = .ok directory) ∧ ∃ place, w.target path = .ok place := by
  obtain ⟨place, hreplace, hplace⟩ | ⟨error, hreplace, hfails⟩ := replace_cases reliable w path content
  · rw [hreplace]
    exact ⟨fun _ => ⟨exists_roomFor_of_replace (by rw [hreplace]), place, hplace⟩, fun _ => rfl⟩
  · rw [hreplace]
    refine ⟨nofun, fun ⟨⟨directory, hroom⟩, place, htarget⟩ => ?_⟩
    cases hfails with
    | noRoom h => cases hroom.symm.trans h
    | nameTaken _ h => simp [newPlace, reliable, Workspace.entryAt?_longName] at h
    | notCreated _ h => cases h
    | notWritten _ h => cases h
    | @noTarget directory _ room h =>
      have htakes := takes_newPlace reliable (Workspace.entryAt?_of_roomFor room) (w.entryAt?_longName directory)
      cases ((htakes.target_put content).mpr htarget).symm.trans h
    | notMoved _ _ h => cases h

end Device

end DeclTree

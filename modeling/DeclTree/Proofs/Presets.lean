import DeclTree.Compilation
import DeclTree.Document.Encode
import DeclTree.Proofs.JsonText
import DeclTree.Proofs.Unlinked

/-!
# What a document cannot set

Links and marks are fields of a tree that resolution alone fills. A document may still name them: a declaration may have
a member `state`, and a named type a member `resolved`, with any value and any number of times. Reading passes over
these members wherever they stand, so two documents that differ in nothing else are the same file.

The argument is that every decoder gives the same for a value and for the value without these members. It goes down with
the depth, as the decoders do.
-/

namespace DeclTree

namespace Json

/-- The value without its members of a name. -/
def without (name : String) : Json → Json
  | object members => object (members.filter fun member => member.1 != some name)
  | value => value

/-- The members with their values changed, each as its key asks. -/
def changeMembers (change : Option String → Json → Json) (members : List (Option String × Json)) :
    List (Option String × Json) :=
  members.map fun member => (member.1, change member.1 member.2)

mutual

/-- The value without links. A named type is what stands under the key `Named`; its link is the member `resolved`. -/
def unlinked : Json → Json
  | null => null
  | bool value => bool value
  | number value => number value
  | string value => string value
  | array elements => array (unlinkedElements elements)
  | object members => object (unlinkedMembers members)

/-- The elements without links. -/
def unlinkedElements : List Json → List Json
  | [] => []
  | value :: rest => value.unlinked :: unlinkedElements rest

/-- The members without links. -/
def unlinkedMembers : List (Option String × Json) → List (Option String × Json)
  | [] => []
  | (key, value) :: rest =>
    (key, if key = some "Named" then value.unlinked.without "resolved" else value.unlinked) :: unlinkedMembers rest

end

/-- The declarations without marks. The mark of a declaration is its member `state`. -/
def unmarked : Json → Json
  | array declarations => array (declarations.map (without "state"))
  | value => value

/-- The file without marks: its declarations are its member of that name, or its first element. -/
def unmarkedFile : Json → Json
  | object members =>
    object (changeMembers (fun key value => if key = some "declarations" then value.unmarked else value) members)
  | array (declarations :: rest) => array (declarations.unmarked :: rest)
  | value => value

/-- The file with neither links nor marks. -/
def bare (file : Json) : Json := file.unlinked.unmarkedFile

/-- The elements of an array lose their links one by one. -/
theorem unlinkedElements_eq_map (elements : List Json) : unlinkedElements elements = elements.map unlinked := by
  induction elements with
  | nil => rfl
  | cons value rest ih => rw [unlinkedElements, ih, List.map_cons]

/-- Losing links is a change of the members of an object: behind the key of a named type the link goes as well. -/
theorem unlinkedMembers_eq_changeMembers (members : List (Option String × Json)) :
    unlinkedMembers members = changeMembers
      (fun key value => if key = some "Named" then value.unlinked.without "resolved" else value.unlinked) members := by
  induction members with
  | nil => rfl
  | cons member rest ih => rw [unlinkedMembers, ih, changeMembers, changeMembers, List.map_cons]

/-- A change of a value makes no difference to a decoder. -/
def Overlooks {α : Type} (change : Json → Json) (decode : Json → Option α) : Prop :=
  ∀ value, decode (change value) = decode value

namespace Overlooks

variable {α : Type} {change : Json → Json} {decode : Json → Option α}

/-- A change that a decoder overlooks may be made in a member that must be there. -/
theorem required (h : Overlooks change decode) (fields : List (Option Json)) (position : Nat) :
    required decode (fields.map (Option.map change)) position = required decode fields position := by
  unfold Json.required
  rw [List.getElem?_map]
  rcases fields[position]? with _ | _ | value
  · rfl
  · rfl
  · exact h value

/-- Links may be taken from a member that may be absent: the change makes no value null and leaves null as it is. -/
theorem optional (h : Overlooks unlinked decode) (fields : List (Option Json)) (position : Nat) :
    optional decode (fields.map (Option.map unlinked)) position = optional decode fields position := by
  unfold Json.optional
  rw [List.getElem?_map]
  rcases fields[position]? with _ | _ | value
  · rfl
  · rfl
  · change nullable decode value.unlinked = nullable decode value
    have hvalue := h value
    cases value with
    | null => rfl
    | bool | number | string | array | object => exact congrArg (Option.map some) hvalue

/-- A change that a decoder overlooks may be made in every element. -/
theorem mapM (h : Overlooks change decode) (elements : List Json) :
    (elements.map change).mapM decode = elements.mapM decode := by
  induction elements with
  | nil => rfl
  | cons value rest ih => rw [List.map_cons, List.mapM_cons, List.mapM_cons, ih, h value]

end Overlooks

/-- Members of one name are not looked at where another name is looked for. -/
theorem key_beq_of_ne {name other : String} (hne : other ≠ name) (member : Option String × Json) :
    (member.1 == some other && member.1 != some name) = (member.1 == some other) := by
  by_cases hkey : member.1 = some other
  · simp [hkey, hne]
  · simp [hkey]

/-- Whether a key is repeated does not depend on the members of other keys. -/
theorem unrepeated_filter {name other : String} (hne : other ≠ name) (members : List (Option String × Json)) :
    unrepeated (members.filter fun member => member.1 != some name) other = unrepeated members other := by
  simp only [unrepeated, List.filter_filter, key_beq_of_ne hne]

/-- The member of a key is found whatever members of other keys are left out. -/
theorem member?_filter {name other : String} (hne : other ≠ name) (members : List (Option String × Json)) :
    member? (members.filter fun member => member.1 != some name) other = member? members other := by
  simp only [member?, ← List.head?_filter, List.filter_filter, key_beq_of_ne hne]

/-- A member that is not asked for may be left out. -/
theorem fields?_without {name : String} {names : List String} (hname : name ∉ names) :
    Overlooks (without name) (fields? names) := by
  rintro (_ | _ | _ | _ | _ | members)
  case object =>
    have hne : ∀ other ∈ names, other ≠ name := fun other hother h => hname (h ▸ hother)
    have hkeys : (members.filter fun member => member.1 != some name).all (·.1.isSome) = members.all (·.1.isSome) := by
      rw [List.all_filter]
      congr 1
      funext member
      obtain ⟨_ | key, value⟩ := member
      · rfl
      · simp
    have hunrepeated : names.all (unrepeated (members.filter fun member => member.1 != some name)) =
        names.all (unrepeated members) := by
      rw [Bool.eq_iff_iff, List.all_eq_true, List.all_eq_true]
      exact forall₂_congr fun other hother => by rw [unrepeated_filter (hne other hother)]
    rw [without, fields?, fields?, hkeys, hunrepeated,
      List.map_congr_left fun other hother => member?_filter (hne other hother) members]
  all_goals rfl

section ChangeMembers

variable (change : Option String → Json → Json) (members : List (Option String × Json)) (name : String)

/-- Changing the values of members does not change which keys are repeated. -/
theorem unrepeated_changeMembers : unrepeated (changeMembers change members) name = unrepeated members name := by
  simp only [unrepeated, changeMembers, List.filter_map, List.length_map, Function.comp_def]

/-- The member of a key is found in its changed form. -/
theorem member?_changeMembers :
    member? (changeMembers change members) name = (member? members name).map (change (some name)) := by
  unfold member? changeMembers
  induction members with
  | nil => rfl
  | cons member rest ih =>
    by_cases hkey : member.1 = some name
    · simp [hkey]
    · simpa [hkey] using ih

/-- The fields of a record whose members were changed are the changed fields. -/
theorem fields?_changeMembers (names : List String) :
    fields? names (object (changeMembers change members)) =
      (fields? names (object members)).map fun _ =>
        names.map fun name => (member? members name).map (change (some name)) := by
  have hkeys : (changeMembers change members).all (·.1.isSome) = members.all (·.1.isSome) := List.all_map
  have hunrepeated : unrepeated (changeMembers change members) = unrepeated members :=
    funext (unrepeated_changeMembers change members)
  have hmember : member? (changeMembers change members) = fun name => (member? members name).map (change (some name)) :=
    funext (member?_changeMembers change members)
  rw [fields?, fields?, hkeys, hunrepeated, hmember]
  split
  · rfl
  · rfl

end ChangeMembers

/-- The fields of a value without links are those of the value, each without links, unless one is a named type. -/
theorem fields?_unlinked {names : List String} (hnames : "Named" ∉ names) (value : Json) :
    fields? names value.unlinked = (fields? names value).map (List.map (Option.map unlinked)) := by
  cases value with
  | null | bool | number | string => rfl
  | array elements =>
    rw [unlinked, unlinkedElements_eq_map, fields?, fields?, List.length_map]
    split
    · simp
    · rfl
  | object members =>
    rw [unlinked, unlinkedMembers_eq_changeMembers, fields?_changeMembers, fields?]
    split
    · refine congrArg some ?_
      rw [List.map_map]
      refine List.map_congr_left fun name hname => ?_
      have hne : name ≠ "Named" := fun h => hnames (h ▸ hname)
      simp [hne]
    · rfl

/-- The parts of a value without links are those of the value, each without links. -/
theorem tuple?_unlinked (length : Nat) (value : Json) :
    tuple? length value.unlinked = (tuple? length value).map (List.map (Option.map unlinked)) := by
  cases value with
  | null | bool | number | string | object => rfl
  | array elements =>
    rw [unlinked, unlinkedElements_eq_map, tuple?, tuple?, List.length_map]
    split
    · simp
    · rfl

/-- A decoder of variants looks at the only member of an object. -/
theorem overlooks_of_variant {α : Type} {decode : Json → Option α}
    (hother : ∀ value, (∀ tag content, value ≠ object [(some tag, content)]) → decode value = none)
    (htag : ∀ tag content, tag ≠ "Named" →
      decode (object [(some tag, content.unlinked)]) = decode (object [(some tag, content)]))
    (hnamed : ∀ content, decode (object [(some "Named", content.unlinked.without "resolved")]) =
      decode (object [(some "Named", content)])) : Overlooks unlinked decode := by
  have hneither : ∀ value, (∀ tag content, value ≠ object [(some tag, content)]) →
      (∀ tag content, value.unlinked ≠ object [(some tag, content)]) → decode value.unlinked = decode value :=
    fun value hvalue hchanged => (hother _ hchanged).trans (hother _ hvalue).symm
  intro value
  cases value with
  | null | bool | number | string | array => exact hneither _ nofun nofun
  | object members =>
    match members with
    | [] => exact hneither _ nofun nofun
    | [(none, content)] => exact hneither _ (by simp) (by simp [unlinked, unlinkedMembers])
    | [(some tag, content)] =>
      by_cases h : tag = "Named"
      · subst h
        exact hnamed content
      · have hunlinked : (object [(some tag, content)]).unlinked = object [(some tag, content.unlinked)] := by
          simp [unlinked, unlinkedMembers, h]
        rw [hunlinked, htag tag content h]
    | _ :: _ :: _ => exact hneither _ (by simp) (by simp [unlinked, unlinkedMembers])

end Json

namespace Document

open Json

/-- A coordinate is a number, which has no links. -/
theorem overlooks_coordinate : Overlooks unlinked coordinate := by
  intro value
  cases value <;> rfl

/-- A position is a number, which has no links. -/
theorem overlooks_declId : Overlooks unlinked declId := by
  intro value
  cases value <;> rfl

/-- A record is read from its fields, or the content of a variant from its parts; so it is read alike if each of them
is. -/
theorem bind_fields?_unlinked {α : Type} {names : List String} (hnames : "Named" ∉ names) (value : Json)
    {read : List (Option Json) → Option α} (hread : ∀ fields, read (fields.map (Option.map unlinked)) = read fields) :
    (fields? names value.unlinked >>= read) = (fields? names value >>= read) := by
  rw [fields?_unlinked hnames]
  cases fields? names value with
  | none => rfl
  | some fields => exact hread fields

/-- What is read from the parts of a value may lose its links if each part may. -/
theorem bind_tuple?_unlinked {α : Type} (length : Nat) (value : Json) {read : List (Option Json) → Option α}
    (hread : ∀ parts, read (parts.map (Option.map unlinked)) = read parts) :
    (tuple? length value.unlinked >>= read) = (tuple? length value >>= read) := by
  rw [tuple?_unlinked]
  cases tuple? length value with
  | none => rfl
  | some parts => exact hread parts

/-- A span has no links. -/
theorem overlooks_span (depth : Nat) : Overlooks unlinked (span depth) := by
  intro value
  cases depth with
  | zero => rfl
  | succ d => exact bind_fields?_unlinked (by decide) value fun fields => by simp only [overlooks_coordinate.required]

/-- An identifier has no links. -/
theorem overlooks_ident (depth : Nat) : Overlooks unlinked (ident depth) := by
  intro value
  cases depth with
  | zero => rfl
  | succ d =>
    have htext : Overlooks unlinked text? := fun value => by cases value <;> rfl
    exact bind_fields?_unlinked (by decide) value fun fields => by
      simp only [htext.required, (overlooks_span d).required]

/-- A choice between names has no links. -/
theorem overlooks_choice {α : Type} (key : α → String) (choices : List α) (depth : Nat) :
    Overlooks unlinked (choice key choices depth) := by
  intro value
  cases value with
  | null | bool | number | string | array => rfl
  | object members =>
    match depth, members with
    | 0, _ => simp [choice, unlinked]
    | _ + 1, [] => rfl
    | _ + 1, [(none, _)] => rfl
    | _ + 1, [(some name, content)] =>
      by_cases h : name = "Named" <;> cases content <;> simp [unlinked, unlinkedMembers, without, choice, h]
    | _ + 1, _ :: _ :: _ => simp [choice, unlinked, unlinkedMembers]

/-- A decoder that reads an array element by element overlooks links if the decoder of elements does. -/
theorem overlooks_elements {α : Type} {decode : Json → Option (List α)} {part : Json → Option α}
    (hpart : Overlooks unlinked part) (harray : ∀ elements, decode (.array elements) = elements.mapM part)
    (hother : ∀ value, (∀ elements, value ≠ .array elements) → decode value = none) : Overlooks unlinked decode := by
  intro value
  cases value with
  | null | bool | number | string => rfl
  | array elements => rw [unlinked, unlinkedElements_eq_map, harray, harray, hpart.mapM]
  | object members =>
    rw [unlinked]
    exact (hother (.object _) nofun).trans (hother (.object _) nofun).symm

/-- A list may lose its links if its elements may. -/
theorem overlooks_list {α : Type} {decode : Decoder α} (h : ∀ depth, Overlooks unlinked (decode depth)) :
    ∀ depth, Overlooks unlinked (list decode depth)
  | 0 => fun _ => rfl
  | d + 1 => overlooks_elements (h d) (fun _ => rfl) fun value hvalue => by
    unfold list
    split
    · exact absurd rfl (hvalue _)
    · rfl

/-- Links make no difference to the decoders of types at a depth. -/
structure OverlooksTypes (depth : Nat) : Prop where
  type : Overlooks unlinked (type depth)
  signature : Overlooks unlinked (signature depth)
  slots : Overlooks unlinked (slots depth)
  slot : Overlooks unlinked (slot depth)

section Types

variable {d : Nat}

/-- A type may lose its links: a named type does not ask for the member of its link. -/
theorem overlooks_type (hbelow : OverlooksTypes d) (hsignature : Overlooks unlinked (signature (d + 1))) :
    Overlooks unlinked (type (d + 2)) := by
  have hspan := (overlooks_span d).required
  have htype := hbelow.type.required
  refine overlooks_of_variant (fun value hvalue => ?_) (fun tag content h => ?_) (fun content => ?_)
  · unfold type
    split
    · exact absurd rfl (hvalue _ _)
    · rfl
  · unfold type
    split
    · exact bind_tuple?_unlinked 2 content fun parts => by
        simp only [primitive, (overlooks_choice _ _ d).required, hspan]
    · exact bind_tuple?_unlinked 2 content fun parts => by simp only [htype, hspan]
    · exact bind_tuple?_unlinked 2 content fun parts => by simp only [htype, hspan]
    · exact bind_tuple?_unlinked 2 content fun parts => by simp only [htype, hspan]
    · exact absurd rfl h
    · rw [hsignature content]
    · rfl
  · -- The link is no field of a named type.
    unfold type
    rw [fields?_without (by decide)]
    exact bind_fields?_unlinked (by decide) content fun fields => by simp only [(overlooks_ident d).required]

/-- A signature may lose the links of its parameters and of its result. -/
theorem overlooks_signature (hbelow : OverlooksTypes d) : Overlooks unlinked (signature (d + 1)) := by
  intro value
  unfold signature
  exact bind_fields?_unlinked (by decide) value fun fields => by
    simp only [hbelow.slots.required, hbelow.type.required, (overlooks_span d).required]

/-- Slots may lose the links of their types. -/
theorem overlooks_slots (hbelow : OverlooksTypes d) : Overlooks unlinked (slots (d + 1)) :=
  overlooks_elements hbelow.slot (fun elements => by rw [slots]) fun value hvalue => by
    unfold slots
    split
    · exact absurd rfl (hvalue _)
    · rfl

/-- A slot may lose the links of its type. -/
theorem overlooks_slot (hbelow : OverlooksTypes d) : Overlooks unlinked (slot (d + 1)) := by
  intro value
  unfold slot
  exact bind_fields?_unlinked (by decide) value fun fields => by
    simp only [(overlooks_ident d).required, hbelow.type.required, (overlooks_span d).required]

end Types

/-- Types, signatures and slots may lose their links, at every depth. -/
theorem overlooksTypes : ∀ depth, OverlooksTypes depth
  | 0 => ⟨fun _ => rfl, fun _ => rfl, fun _ => rfl, fun _ => rfl⟩
  | 1 =>
    have hbelow := overlooksTypes 0
    ⟨fun _ => rfl, overlooks_signature hbelow, overlooks_slots hbelow, overlooks_slot hbelow⟩
  | d + 2 =>
    have hbelow := overlooksTypes (d + 1)
    ⟨overlooks_type (overlooksTypes d) hbelow.signature, overlooks_signature hbelow, overlooks_slots hbelow,
      overlooks_slot hbelow⟩

/-- A literal has no links. -/
theorem overlooks_literal (depth : Nat) : Overlooks unlinked (literal depth) := by
  refine overlooks_of_variant (fun value hvalue => ?_) (fun tag content _ => ?_) (fun content => ?_)
  · unfold literal
    split
    · exact absurd rfl (hvalue _ _)
    · rfl
  · cases depth with
    | zero => rfl
    | succ d => cases content <;> rfl
  · cases depth <;> rfl

/-- Links make no difference to the decoders of expressions, statements and scopes at a depth. -/
structure OverlooksNodes (depth : Nat) : Prop where
  expr : Overlooks unlinked (expr depth)
  exprs : Overlooks unlinked (exprs depth)
  stmt : Overlooks unlinked (stmt depth)
  scope : Overlooks unlinked (scope depth)
  scopes : Overlooks unlinked (scopes depth)
  arms : Overlooks unlinked (arms depth)
  arm : Overlooks unlinked (arm depth)

section Nodes

variable {d : Nat} (hbelow : OverlooksNodes d)

include hbelow

/-- An expression may lose the links below it. -/
theorem overlooks_expr : Overlooks unlinked (expr (d + 2)) := by
  have hspan := (overlooks_span d).required
  have hident := (overlooks_ident d).required
  have htype := (overlooksTypes d).type.required
  have hexpr := hbelow.expr.required
  have hexprs := hbelow.exprs.required
  refine overlooks_of_variant (fun value hvalue => ?_) (fun tag content _ => ?_) (fun content => rfl)
  · unfold expr
    split
    · exact absurd rfl (hvalue _ _)
    · rfl
  · unfold expr
    split
    · exact bind_fields?_unlinked (by decide) content fun fields => by simp only [hexpr, hspan]
    · exact bind_fields?_unlinked (by decide) content fun fields => by
        simp only [(overlooks_choice _ _ d).required, hexpr, hspan]
    · exact bind_fields?_unlinked (by decide) content fun fields => by
        simp only [(overlooks_choice _ _ d).required, hexpr, hspan]
    · exact bind_fields?_unlinked (by decide) content fun fields => by simp only [hexpr, htype, hspan]
    · exact bind_fields?_unlinked (by decide) content fun fields => by simp only [hexpr, hident, hspan]
    · exact bind_fields?_unlinked (by decide) content fun fields => by simp only [hexpr, hspan]
    · exact bind_fields?_unlinked (by decide) content fun fields => by
        simp only [(overlooksTypes d).signature.required, hbelow.scope.required, hspan]
    · exact bind_fields?_unlinked (by decide) content fun fields => by simp only [hexpr, hexprs, hspan]
    · rw [overlooks_ident (d + 1) content]
    · exact bind_fields?_unlinked (by decide) content fun fields => by simp only [(overlooks_literal d).required, hspan]
    · have hbool : Overlooks unlinked bool? := fun value => by cases value <;> rfl
      exact bind_tuple?_unlinked 2 content fun parts => by simp only [hbool.required, hspan]
    · exact bind_fields?_unlinked (by decide) content fun fields => by
        simp only [hbelow.expr.optional, htype, hexprs, hspan]
    · rfl

/-- A statement may lose the links below it. -/
theorem overlooks_stmt (hexpr' : Overlooks unlinked (expr (d + 1))) : Overlooks unlinked (stmt (d + 2)) := by
  have hspan := (overlooks_span d).required
  have hexpr := hbelow.expr.required
  refine overlooks_of_variant (fun value hvalue => ?_) (fun tag content _ => ?_) (fun content => rfl)
  · unfold stmt
    split
    · exact absurd rfl (hvalue _ _)
    · rfl
  · unfold stmt
    split
    · exact bind_tuple?_unlinked 2 content fun parts => by simp only [overlooks_declId.required, hspan]
    · exact bind_tuple?_unlinked 2 content fun parts => by simp only [hexpr, hspan]
    · exact bind_tuple?_unlinked 2 content fun parts => by simp only [hexpr, hspan]
    · exact bind_fields?_unlinked (by decide) content fun fields => by
        simp only [(overlooks_choice _ _ d).required, hexpr, hspan]
    · rw [hexpr' content]
    · rw [overlooks_ident (d + 1) content]
    · rw [overlooks_ident (d + 1) content]
    · exact bind_fields?_unlinked (by decide) content fun fields => by simp only [hbelow.expr.optional, hspan]
    · rfl

/-- A scope may lose the links below it. -/
theorem overlooks_scope (hstmt' : Overlooks unlinked (stmt (d + 1))) : Overlooks unlinked (scope (d + 2)) := by
  have hspan := (overlooks_span d).required
  have hexpr := hbelow.expr.required
  have hscope := hbelow.scope.required
  refine overlooks_of_variant (fun value hvalue => ?_) (fun tag content _ => ?_) (fun content => rfl)
  · unfold scope
    split
    · exact absurd rfl (hvalue _ _)
    · rfl
  · unfold scope
    split
    · rw [hstmt' content]
    · exact bind_fields?_unlinked (by decide) content fun fields => by simp only [hbelow.scopes.required, hspan]
    · exact bind_fields?_unlinked (by decide) content fun fields => by
        simp only [hexpr, hscope, hbelow.scope.optional, hspan]
    · exact bind_fields?_unlinked (by decide) content fun fields => by
        simp only [hbelow.stmt.required, hexpr, hscope, hspan]
    · exact bind_fields?_unlinked (by decide) content fun fields => by simp only [hexpr, hscope, hspan]
    · exact bind_fields?_unlinked (by decide) content fun fields => by
        simp only [(overlooks_ident d).required, hexpr, hscope, hspan]
    · exact bind_fields?_unlinked (by decide) content fun fields => by simp only [hexpr, hbelow.arms.required, hspan]
    · rfl

/-- Expressions in a row may lose the links below them. -/
theorem overlooks_exprs : Overlooks unlinked (exprs (d + 1)) :=
  overlooks_elements hbelow.expr (fun elements => by rw [exprs]) fun value hvalue => by
    unfold exprs
    split
    · exact absurd rfl (hvalue _)
    · rfl

/-- Scopes in a row may lose the links below them. -/
theorem overlooks_scopes : Overlooks unlinked (scopes (d + 1)) :=
  overlooks_elements hbelow.scope (fun elements => by rw [scopes]) fun value hvalue => by
    unfold scopes
    split
    · exact absurd rfl (hvalue _)
    · rfl

/-- The arms of a match may lose the links below them. -/
theorem overlooks_arms : Overlooks unlinked (arms (d + 1)) :=
  overlooks_elements hbelow.arm (fun elements => by rw [arms]) fun value hvalue => by
    unfold arms
    split
    · exact absurd rfl (hvalue _)
    · rfl

/-- An arm may lose the links of its scopes. -/
theorem overlooks_arm : Overlooks unlinked (arm (d + 1)) := by
  intro value
  unfold arm
  exact bind_fields?_unlinked (by decide) value fun fields => by
    simp only [(overlooks_ident d).required, hbelow.scopes.required, (overlooks_span d).required]

end Nodes

/-- Expressions, statements and scopes may lose their links, at every depth. -/
theorem overlooksNodes : ∀ depth, OverlooksNodes depth
  | 0 => ⟨fun _ => rfl, fun _ => rfl, fun _ => rfl, fun _ => rfl, fun _ => rfl, fun _ => rfl, fun _ => rfl⟩
  | 1 =>
    have hbelow := overlooksNodes 0
    ⟨fun _ => rfl, overlooks_exprs hbelow, fun _ => rfl, fun _ => rfl, overlooks_scopes hbelow, overlooks_arms hbelow,
      overlooks_arm hbelow⟩
  | d + 2 =>
    have hnext := overlooksNodes (d + 1)
    have hbelow := overlooksNodes d
    ⟨overlooks_expr hbelow, overlooks_exprs hnext, overlooks_stmt hbelow hnext.expr, overlooks_scope hbelow hnext.stmt,
      overlooks_scopes hnext, overlooks_arms hnext, overlooks_arm hnext⟩

/-- A member of a sum may lose the links of its type, if it has one. -/
theorem overlooks_sumSlot : ∀ depth, Overlooks unlinked (sumSlot depth)
  | 0 => fun _ => rfl
  | d + 1 => fun value => by
    unfold sumSlot
    exact bind_fields?_unlinked (by decide) value fun fields => by
      simp only [(overlooks_ident d).required, (overlooksTypes d).type.optional, (overlooks_span d).required]

/-- A constant or a variable may lose the links of its type and of its initial value. -/
theorem overlooks_variableKind : ∀ depth, Overlooks unlinked (variableKind depth)
  | 0 => fun _ => rfl
  | 1 => fun _ => rfl
  | d + 2 => by
    refine overlooks_of_variant (fun value hvalue => ?_) (fun tag content _ => ?_) (fun content => rfl)
    · unfold variableKind
      split
      · exact absurd rfl (hvalue _ _)
      · rfl
    · dsimp only [variableKind]
      split
      · exact bind_fields?_unlinked (by decide) content fun fields => by
          simp only [(overlooksTypes d).type.optional, (overlooksNodes d).expr.required]
      · exact bind_fields?_unlinked (by decide) content fun fields => by
          simp only [(overlooksTypes d).type.required, (overlooksNodes d).expr.optional]
      · rfl

/-- What a declaration declares may lose its links. -/
theorem overlooks_declKind : ∀ depth, Overlooks unlinked (declKind depth)
  | 0 => fun _ => rfl
  | 1 => fun _ => rfl
  | d + 2 => by
    have hslots := (overlooksTypes d).slots.required
    refine overlooks_of_variant (fun value hvalue => ?_) (fun tag content _ => ?_) (fun content => rfl)
    · unfold declKind
      split
      · exact absurd rfl (hvalue _ _)
      · rfl
    · dsimp only [declKind]
      split
      · exact overlooks_variableKind (d + 1) content
      · exact bind_fields?_unlinked (by decide) content fun fields => by
          simp only [(overlooks_list overlooks_ident d).required]
      · exact bind_fields?_unlinked (by decide) content fun fields => by simp only [hslots]
      · exact bind_fields?_unlinked (by decide) content fun fields => by simp only [hslots]
      · exact bind_fields?_unlinked (by decide) content fun fields => by
          simp only [(overlooks_list overlooks_sumSlot d).required]
      · rfl

/-- A declaration may lose its links. -/
theorem overlooks_declaration : ∀ depth, Overlooks unlinked (declaration depth)
  | 0 => fun _ => rfl
  | d + 1 => fun value => by
    unfold declaration
    exact bind_fields?_unlinked (by decide) value fun fields => by
      simp only [(overlooks_ident d).required, (overlooks_declKind d).required, (overlooks_span d).required]

/-- A file may lose its links. -/
theorem overlooks_sourceFile : ∀ depth, Overlooks unlinked (sourceFile depth)
  | 0 => fun _ => rfl
  | d + 1 => fun value => by
    have hdeclarations := (overlooks_list overlooks_declaration d).required
    have hitems := (overlooks_list (fun _ => overlooks_declId) d).required
    unfold sourceFile
    exact bind_fields?_unlinked (by decide) value fun fields => by simp only [hdeclarations, hitems]

/-- The mark is no field of a declaration. -/
theorem overlooks_state : ∀ depth, Overlooks (without "state") (declaration depth)
  | 0 => fun _ => rfl
  | d + 1 => fun value => by
    dsimp only [declaration]
    rw [fields?_without (by decide)]

/-- Declarations may lose their marks, which are not asked for. -/
theorem overlooks_unmarked : ∀ depth, Overlooks unmarked (list declaration depth)
  | 0 => fun _ => rfl
  | d + 1 => fun value => by
    cases value with
    | null | bool | number | string | object => rfl
    | array declarations => exact (overlooks_state d).mapM declarations

/-- A file may lose the marks of its declarations. -/
theorem overlooks_unmarkedFile : ∀ depth, Overlooks unmarkedFile (sourceFile depth)
  | 0 => fun _ => rfl
  | d + 1 => fun value => by
    have hlist := overlooks_unmarked d
    cases value with
    | null | bool | number | string => rfl
    | array elements =>
      match elements with
      | [] | [_] | _ :: _ :: _ :: _ => rfl
      | [declarations, items] =>
        simp only [sourceFile, unmarkedFile, fields?, List.length_cons, List.length_nil, if_true, List.map_cons,
          Option.bind_eq_bind, Option.bind_some, required, List.getElem?_cons_zero, Option.join_some,
          hlist declarations]
        rfl
    | object members =>
      dsimp only [sourceFile, unmarkedFile]
      rw [fields?_changeMembers, fields?]
      split
      · have hdeclarations : ((member? members "declarations").map unmarked).bind (list declaration d) =
            (member? members "declarations").bind (list declaration d) := by
          rw [Option.bind_map]
          exact congrArg _ (funext hlist)
        simp [required, hdeclarations]
      · rfl

/-- Neither links nor marks make a difference to the decoder of files. -/
theorem overlooks_bare (depth : Nat) : Overlooks bare (sourceFile depth) := fun value =>
  (overlooks_unmarkedFile depth value.unlinked).trans (overlooks_sourceFile depth value)

end Document

/-- Two documents that are the same without links and marks are accepted as the same file, or refused alike. -/
theorem SourceFile.ofDocument_eq_of_bare {text other : String}
    (hbare : (Json.parse? text).map Json.bare = (Json.parse? other).map Json.bare) :
    ofDocument text = ofDocument other := by
  have hread : ∀ t, Document.read? Document.sourceFile t =
      ((Json.parse? t).map Json.bare).bind (Document.sourceFile Document.depthLimit) := by
    intro t
    rw [Option.bind_map]
    exact congrArg _ (funext fun value => (Document.overlooks_bare _ value).symm)
  rw [ofDocument, ofDocument, hread, hread, hbare]

/-- A document cannot set links and marks. Two texts that are the same value but for members `state` of declarations and
members `resolved` of named types, or neither of which is a value, are the same file or refused alike. The declarations
of an accepted file are untouched and have no links, and compiling it gives the same and leaves the same. -/
theorem documents_cannot_preset_resolution {text other : String}
    (hbare : (Json.parse? text).map Json.bare = (Json.parse? other).map Json.bare) :
    SourceFile.ofDocument text = SourceFile.ofDocument other ∧
    (∀ file, SourceFile.ofDocument text = .ok file →
      ∀ d ∈ file.declarations, d.mark = .untouched ∧ d.kind.cleared = d.kind) ∧
    ∀ hash options, (SourceFile.ofDocument text).map (compile hash · options) =
      (SourceFile.ofDocument other).map (compile hash · options) := by
  have hsame := SourceFile.ofDocument_eq_of_bare hbare
  refine ⟨hsame, fun file haccept d hd => ?_, fun hash options => by rw [hsame]⟩
  have hcleared : d.cleared = d := by
    have hfile := congrArg SourceFile.declarations (SourceFile.cleared_of_ofDocument haccept)
    exact List.map_inj_left.mp (hfile.trans (List.map_id' _).symm) d hd
  exact ⟨(congrArg Declaration.mark hcleared).symm, congrArg Declaration.kind hcleared⟩

/-- A record and a variable of it, in a document that gives the record marks and the type of the variable links. -/
def presetting (marks links : List Json) : Json :=
  let here := Document.ofSpan .nowhere
  let name (text : String) := (some "name", Document.ofIdent ⟨text, .nowhere⟩)
  let record := [name "R", (some "kind", Document.ofDeclKind (.record .struct [])), (some "span", here)]
  let type := .tagged "Named" (.object (links.map (some "resolved", ·) ++ [name "R"]))
  let kind := .tagged "Var" (.tagged "Mutable" (.ofFields [("ty", type)]))
  .ofFields [("items", .array [.ofNat 0, .ofNat 1]),
    ("declarations", .array [.object (record ++ marks.map (some "state", ·)),
      .object [name "x", (some "kind", kind), (some "span", here)]])]

/-- Marks of which one is no mark, and links that lead nowhere or are no links. -/
def preset : Json := presetting [.ofString "Resolved", .array [.null]] [.ofNat 99, .ofString "R"]

/-- The document with these marks and links is accepted as the one without any, and nothing in it is marked. -/
theorem preset_is_overlooked :
    SourceFile.ofDocument preset.compact = SourceFile.ofDocument (presetting [] []).compact ∧
    ∃ file, SourceFile.ofDocument preset.compact = .ok file ∧ ∀ d ∈ file.declarations, d.mark = .untouched := by
  have hlegible : preset.Legible ∧ (presetting [] []).Legible := by
    simp [preset, presetting, Json.ofFields, Json.tagged, Json.ofNat, Json.ofString, Document.ofIdent, Document.ofSpan,
      Document.ofDeclKind, Document.ofSlots, Json.Legible, Json.LegibleElements, Json.LegibleMembers]
  have hpreset : Json.parse? preset.compact = some preset := Json.IsTextOf.parse? (.inl rfl) hlegible.1
  have hplain : Json.parse? (presetting [] []).compact = some (presetting [] []) :=
    Json.IsTextOf.parse? (.inl rfl) hlegible.2
  have hbare : (Json.parse? preset.compact).map Json.bare = (Json.parse? (presetting [] []).compact).map Json.bare := by
    rw [hpreset, hplain]
    rfl
  obtain ⟨hsame, hunset, -⟩ := documents_cannot_preset_resolution hbare
  obtain ⟨file, hfile⟩ : ∃ file, SourceFile.ofDocument preset.compact = .ok file := by
    rw [SourceFile.ofDocument, Document.read?, hpreset]
    have haccept : ∀ result : Except Error SourceFile, result.toOption.isSome = true → ∃ file, result = .ok file := by
      rintro (_ | file) h
      · cases h
      · exact ⟨file, rfl⟩
    exact haccept _ (by decide +kernel)
  exact ⟨hsame, file, hfile, fun d hd => (hunset file hfile d hd).1⟩

end DeclTree

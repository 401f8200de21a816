import DeclTree.Proofs.Lexemes
import DeclTree.Proofs.Rendering

/-!
# Arrays of arrays

A type is a base behind layers of pointers and arrays. A pointer is written into the name of a type, but the brackets
of an array belong to what is declared. So an array is written where it is the outermost layer of the type of a member,
a parameter or a variable. A type that is only named, as the result of a function or the target of a cast, has no place
for brackets, and neither has what stands behind a pointer.

An array of arrays is refused where its outer array is the outermost layer of what is declared, and nowhere else. Behind
a pointer, in a result type and in a cast its brackets are left out, and what is written is another type.
-/

namespace DeclTree

open Lowering

/-- A layer of a type. -/
inductive Layer where
  | pointer
  | array
deriving DecidableEq

/-- The layers of a type in front of its base, outermost first. -/
def TypeExpr.layers : TypeExpr → List Layer
  | .pointer base _ => .pointer :: base.layers
  | .nullable base _ => .pointer :: base.layers
  | .array element _ => .array :: element.layers
  | .primitive .. | .named .. | .function _ => []

/-- Whether an array of arrays stands anywhere in a type, through pointers and arrays. -/
def TypeExpr.hasNestedArray : TypeExpr → Bool
  | .array (.array ..) _ => true
  | .array element _ => element.hasNestedArray
  | .pointer base _ => base.hasNestedArray
  | .nullable base _ => base.hasNestedArray
  | .primitive .. | .named .. | .function _ => false

/-- Whether a type itself is an array of arrays. -/
def TypeExpr.isNestedArray : TypeExpr → Bool
  | .array (.array ..) _ => true
  | _ => false

/-- The layers that a type name writes. -/
def C.TypeName.layers (type : C.TypeName) : List Layer := List.replicate type.pointers .pointer

/-- The layers that an extent writes. -/
def C.Extent.layers : C.Extent → List Layer
  | .single => []
  | .unsized | .sized _ => [.array]

/-- The layers that a declarator writes. -/
def C.Declarator.layers (d : C.Declarator) : List Layer := d.extent.layers ++ d.type.layers

/-- Where a whole type is written: for a member, a parameter or a variable that is declared, for a variable with the
count that its initial value spells out; or as the result of a function or the target of a cast. -/
inductive TypePlace where
  | declared (name : String) (count : Option Expr)
  | result
  | cast

namespace TypePlace

/-- The number of layers that can be written as brackets at a place. -/
def brackets : TypePlace → Nat
  | declared .. => 1
  | result | cast => 0

/-- The layers that C writes for a type at a place. -/
def written (file : SourceFile) (type : TypeExpr) : TypePlace → Except Error (List Layer)
  | declared name count => (declarator file type name count).map C.Declarator.layers
  | result | cast => (typeName file type).map C.TypeName.layers

/-- The fragment that a type is at a place. -/
def fragment (type : TypeExpr) : TypePlace → Fragment
  | declared _ count => .declarator type count
  | result | cast => .type type

/-- What is left of layers at a place: the outermost one if something is declared, and the pointers. -/
def kept (place : TypePlace) (layers : List Layer) : List Layer :=
  layers.take place.brackets ++ (layers.drop place.brackets).filter (· = .pointer)

end TypePlace

/-- The types that are written as a whole for what is declared. -/
def DeclKind.places (name : String) : DeclKind → List (TypePlace × TypeExpr)
  | .constant ascribed (.function signature _ _) =>
    signature.params.map (fun slot => (.declared slot.name.name none, slot.type))
      ++ [(.result, resultType ascribed signature)]
  | .constant none _ => []
  | .constant (some type) value => [(.declared name (arrayCount value), type)]
  | .mutable type value => [(.declared name (value.bind arrayCount), type)]
  | .record _ members => members.map fun slot => (.declared slot.name.name none, slot.type)
  | .enumeration _ | .sum _ => []

/-- The types that are written as a whole for a fragment itself. -/
def Fragment.places : Fragment → List (TypePlace × TypeExpr)
  | declaration d => d.kind.places d.name.name
  | expr (.cast _ t _) => [(.cast, t)]
  | expr _ | declarator .. | type _ | stmt _ | scope _ => []

/-- A type is written at a place of a file. -/
def SourceFile.Writes (file : SourceFile) (place : TypePlace) (type : TypeExpr) : Prop :=
  ∃ f, Rendered file f ∧ (place, type) ∈ f.places

section Writing

variable {file : SourceFile}

/-- A type name writes the pointers of a type. -/
theorem layers_of_typeName : ∀ (type : TypeExpr) {t : C.TypeName}, typeName file type = .ok t →
    t.layers = type.layers.filter (· = .pointer)
  | .primitive p _, _, h => by
    cases h
    rfl
  | .pointer base _, _, h => by
    obtain ⟨b, hb, rfl⟩ := Except.map_eq_ok_iff.mp h
    rw [TypeExpr.layers, List.filter_cons_of_pos (by rfl), ← layers_of_typeName base hb]
    rfl
  | .nullable base _, _, h => by
    obtain ⟨b, hb, rfl⟩ := Except.map_eq_ok_iff.mp h
    rw [TypeExpr.layers, List.filter_cons_of_pos (by rfl), ← layers_of_typeName base hb]
    rfl
  | .array element _, _, h => by
    rw [TypeExpr.layers, List.filter_cons_of_neg (by decide)]
    exact layers_of_typeName element h
  | .named name link, _, h => by
    obtain ⟨id, kind, -, -, rfl⟩ := namedType_eq_ok h
    rfl
  | .function _, _, h => by simp [typeName] at h

/-- An extent is written as brackets, with a count or without. -/
theorem layers_of_extent {count : Option Expr} {e : C.Extent} (h : extent file count = .ok e) :
    e.layers = [.array] := by
  cases count with
  | none =>
    cases h
    rfl
  | some count =>
    obtain ⟨c, -, rfl⟩ := Except.map_eq_ok_iff.mp h
    rfl

/-- A declarator writes the outermost layer of a type and its pointers. -/
theorem layers_of_declarator {type : TypeExpr} {name : String} {count : Option Expr} {d : C.Declarator}
    (h : declarator file type name count = .ok d) :
    d.layers = type.layers.take 1 ++ (type.layers.drop 1).filter (· = .pointer) := by
  unfold declarator at h
  split at h
  · cases h
  · next element _ _ =>
    obtain ⟨e, he, h⟩ := Except.bind_eq_ok_iff.mp h
    obtain ⟨t, ht, ⟨⟩⟩ := Except.bind_eq_ok_iff.mp h
    rw [C.Declarator.layers, layers_of_extent he, layers_of_typeName element ht]
    rfl
  · next harray =>
    obtain ⟨t, ht, ⟨⟩⟩ := Except.bind_eq_ok_iff.mp h
    have hlayers : C.Declarator.layers ⟨t, name, .single⟩ = type.layers.filter (· = .pointer) :=
      layers_of_typeName type ht
    rw [hlayers]
    -- The outermost layer is no array, so it is a pointer if there is one.
    cases type with
    | array element span => exact absurd rfl (harray element span)
    | _ => rfl

/-- What is written of a type at a place where it can be lowered. -/
theorem TypePlace.written_eq (place : TypePlace) {type : TypeExpr} (h : (place.fragment type).failure? file = none) :
    place.written file type = .ok (place.kept type.layers) := by
  have hname (h : (Fragment.type type).failure? file = none) :
      (typeName file type).map C.TypeName.layers = .ok (type.layers.filter (· = .pointer)) := by
    obtain ⟨t, ht⟩ := Except.failure?_eq_none_iff.mp h
    rw [ht, Except.map, layers_of_typeName type ht]
  cases place with
  | declared name count =>
    rw [fragment, ← Fragment.failure?_declarator file type name] at h
    obtain ⟨d, hd⟩ := Except.failure?_eq_none_iff.mp h
    rw [written, hd, Except.map, layers_of_declarator hd]
    rfl
  | result => exact hname h
  | cast => exact hname h

/-- A fragment is written from the types at its places. -/
theorem Fragment.fragment_mem_parts {f : Fragment} {place : TypePlace} {type : TypeExpr}
    (h : (place, type) ∈ f.places) : place.fragment type ∈ f.parts file := by
  cases f with
  | declaration d =>
    obtain ⟨name, kind, span, mark⟩ := d
    cases kind with
    | constant ascribed value =>
      cases value with
      | function signature body _ =>
        rw [places, DeclKind.places, List.mem_append, List.mem_singleton] at h
        rw [parts, DeclKind.parts, List.mem_append]
        rcases h with hparam | hresult
        · obtain ⟨slot, hslot, heq⟩ := List.mem_map.mp hparam
          obtain ⟨rfl, rfl⟩ := Prod.mk.inj heq
          exact .inl (List.mem_map_of_mem hslot)
        · obtain ⟨rfl, rfl⟩ := Prod.mk.inj hresult
          exact .inr List.mem_cons_self
      | _ =>
        cases ascribed with
        | none => cases h
        | some t =>
          obtain ⟨rfl, rfl⟩ := Prod.mk.inj (List.mem_singleton.mp h)
          exact List.mem_cons_self
    | mutable t value =>
      obtain ⟨rfl, rfl⟩ := Prod.mk.inj (List.mem_singleton.mp h)
      exact List.mem_cons_self
    | record kind members =>
      obtain ⟨slot, hslot, heq⟩ := List.mem_map.mp h
      obtain ⟨rfl, rfl⟩ := Prod.mk.inj heq
      exact List.mem_map_of_mem hslot
    | enumeration | sum => cases h
  | expr e =>
    cases e with
    | cast operand t _ =>
      obtain ⟨rfl, rfl⟩ := Prod.mk.inj (List.mem_singleton.mp h)
      exact List.mem_cons_self
    | _ => cases h
  | _ => cases h

/-- What is written at a place is rendered. -/
theorem SourceFile.Writes.rendered {place : TypePlace} {type : TypeExpr} (h : file.Writes place type) :
    Rendered file (place.fragment type) := by
  obtain ⟨f, hf, hplace⟩ := h
  exact hf.part (Fragment.fragment_mem_parts hplace)

end Writing

section Refusing

variable {file : SourceFile}

/-- A declarator is a part only of what is declared. -/
theorem DeclKind.exists_place_of_declarator (name : String) {kind : DeclKind} {type : TypeExpr} {count : Option Expr}
    (h : .declarator type count ∈ kind.parts) : ∃ declared, (.declared declared count, type) ∈ kind.places name := by
  cases kind with
  | constant ascribed value =>
    cases value with
    | function signature body _ =>
      simp only [parts, List.mem_append, List.mem_cons, List.mem_map, reduceCtorEq, and_false, exists_false,
        or_false] at h
      obtain ⟨slot, hslot, heq⟩ := h
      obtain ⟨rfl, rfl⟩ := Fragment.declarator.inj heq
      exact ⟨slot.name.name, List.mem_append_left _ (List.mem_map_of_mem hslot)⟩
    | _ =>
      cases ascribed with
      | none => cases h
      | some t =>
        obtain ⟨rfl, rfl⟩ : type = t ∧ count = _ := by simpa [parts] using h
        exact ⟨name, List.mem_singleton_self _⟩
  | mutable t value =>
    obtain ⟨rfl, rfl⟩ : type = t ∧ count = value.bind arrayCount := by simpa [parts] using h
    exact ⟨name, List.mem_singleton_self _⟩
  | record kind members =>
    obtain ⟨slot, hslot, heq⟩ := List.mem_map.mp h
    obtain ⟨rfl, rfl⟩ := Fragment.declarator.inj heq
    exact ⟨slot.name.name, List.mem_map_of_mem hslot⟩
  | enumeration | sum => cases h

/-- A declarator that is a part of a fragment has its place there. -/
theorem Fragment.exists_place_of_declarator {f : Fragment} {type : TypeExpr} {count : Option Expr}
    (h : .declarator type count ∈ f.parts file) : ∃ name, (.declared name count, type) ∈ f.places := by
  cases f with
  | declaration d => exact DeclKind.exists_place_of_declarator d.name.name h
  | declarator t extent =>
    rw [parts, TypeExpr.declaratorParts.eq_def] at h
    split at h <;> simp at h
  | type t => cases t <;> simp [parts, TypeExpr.parts] at h
  | expr e => cases e <;> simp [parts, Expr.parts] at h
  | stmt s =>
    cases s with
    | declaration id _ =>
      obtain ⟨d, -, hd⟩ := List.mem_flatMap.mp h
      split at hd <;> simp at hd
    | assign op => cases op <;> simp [parts, Stmt.parts] at h
    | _ => simp [parts, Stmt.parts] at h
  | scope s => cases s <;> simp [parts, Scope.parts] at h

/-- A declarator that is rendered is written at a place. -/
theorem Rendered.exists_writes {type : TypeExpr} {count : Option Expr} (h : Rendered file (.declarator type count)) :
    ∃ name, file.Writes (.declared name count) type := by
  cases h with
  | part hf hpart =>
    obtain ⟨name, hplace⟩ := Fragment.exists_place_of_declarator hpart
    exact ⟨name, _, hf, hplace⟩

/-- A named type is no array of arrays. -/
theorem namedType_failure?_ne (name : Ident) (link : Option DeclId) (message : String) (span : Span) :
    (namedType file name link).failure? ≠ some (.unsupported (.nestedArray message) span) := by
  intro h
  cases link with
  | none => cases h
  | some id =>
    rw [namedType, declAt] at h
    cases hdecl : file.decl? id with
    | none =>
      rw [hdecl] at h
      cases h
    | some d =>
      rw [hdecl, Except.ok_bind] at h
      split at h <;> cases h

/-- An array of arrays stops the work only as a declarator. -/
theorem exists_declarator_of_obstacle? {f : Fragment} {message : String} {span : Span}
    (h : f.obstacle? file = some (.unsupported (.nestedArray message) span)) :
    ∃ element outer count, f = .declarator (.array (.array element span) outer) count ∧
      message = (TypeExpr.array (.array element span) outer).text := by
  unfold Fragment.obstacle? at h
  split at h
  case h_1 => split at h <;> cases h
  case h_2 element inner outer count =>
    cases h
    exact ⟨element, outer, count, rfl, rfl⟩
  case h_5 name link => exact absurd h (namedType_failure?_ne name link message span)
  case h_8 value literalSpan =>
    unfold literal at h
    split at h
    · split at h <;> cases h
    · split at h <;> cases h
    · cases h
  case h_10 =>
    split at h
    · cases h
    · split at h <;> cases h
  all_goals cases h

end Refusing

/-- All layers are left at a place if none behind the brackets is an array. -/
theorem TypePlace.kept_eq_self_iff (place : TypePlace) (layers : List Layer) :
    place.kept layers = layers ↔ .array ∉ layers.drop place.brackets := by
  have hpointers : (layers.drop place.brackets).filter (· = .pointer) = layers.drop place.brackets ↔
      .array ∉ layers.drop place.brackets := by
    rw [List.filter_eq_self]
    constructor
    · intro hall harray
      simpa using hall .array harray
    · intro hnone layer hlayer
      cases layer with
      | pointer => rfl
      | array => exact absurd hlayer hnone
  rw [← hpointers, kept]
  conv_lhs => rhs; rw [← List.take_append_drop place.brackets layers]
  exact List.append_right_inj _

/-- An array of arrays in a type leaves an array behind the outermost layer. -/
theorem TypeExpr.array_mem_tail_of_hasNestedArray : ∀ type : TypeExpr, type.hasNestedArray = true →
    .array ∈ type.layers.tail
  | .array (.array _ _) _, _ => List.mem_cons_self
  | .array (.pointer base _) _, h =>
    List.mem_cons_of_mem _ (List.mem_of_mem_tail (base.array_mem_tail_of_hasNestedArray h))
  | .array (.nullable base _) _, h =>
    List.mem_cons_of_mem _ (List.mem_of_mem_tail (base.array_mem_tail_of_hasNestedArray h))
  | .pointer base _, h => List.mem_of_mem_tail (base.array_mem_tail_of_hasNestedArray h)
  | .nullable base _, h => List.mem_of_mem_tail (base.array_mem_tail_of_hasNestedArray h)

/-- A type with an array of arrays in it is nowhere written as it is. -/
theorem TypePlace.kept_ne_of_hasNestedArray (place : TypePlace) {type : TypeExpr} (h : type.hasNestedArray = true) :
    place.kept type.layers ≠ type.layers := by
  have htail := type.array_mem_tail_of_hasNestedArray h
  rw [Ne, kept_eq_self_iff, not_not]
  cases place with
  | declared name count => rwa [brackets, List.drop_one]
  | result | cast => exact List.mem_of_mem_tail htail

/-- Arrays of arrays are refused as declared types, and only as these. In a file that has a text no member, parameter or
variable has a type that is itself an array of arrays. What is written at any place are the pointers of the type and,
for something declared, the outermost array: so a type with an array of arrays further inside, behind a pointer or in a
result type or a cast, is written as another type. A file that is refused for an array of arrays declares something of
that type. -/
theorem nested_arrays_are_refused_where_declared (file : SourceFile) (banner : Bool) :
    ((∃ text, (generate file banner).2 = .ok text) → ∀ place type, file.Writes place type →
      (∀ name count, place = .declared name count → type.isNestedArray = false) ∧
      place.written file type = .ok (place.kept type.layers) ∧
      (type.hasNestedArray = true → place.kept type.layers ≠ type.layers)) ∧
    ∀ message span, (generate file banner).2 = .error (.unsupported (.nestedArray message) span) →
      ∃ name count element outer, file.Writes (.declared name count) (.array (.array element span) outer) ∧
        message = (TypeExpr.array (.array element span) outer).text := by
  constructor
  · rintro htext place type hwrites
    have hfailure : (place.fragment type).failure? file = none :=
      Fragment.failure?_of_rendered (Except.failure?_eq_none_iff.mpr htext) hwrites.rendered
    refine ⟨?_, place.written_eq hfailure, place.kept_ne_of_hasNestedArray⟩
    rintro name count rfl
    have hobstacle := (exists_text_iff file banner).mp htext _ hwrites.rendered
    cases type with
    | array element outer =>
      cases element with
      | array => cases hobstacle
      | _ => rfl
    | _ => rfl
  · intro message span hgenerate
    obtain ⟨f, hf, hobstacle⟩ := exists_obstacle_of_generate hgenerate
    obtain ⟨element, outer, count, rfl, htext⟩ := exists_declarator_of_obstacle? hobstacle
    obtain ⟨name, hwrites⟩ := hf.exists_writes
    exact ⟨name, count, element, outer, hwrites, htext⟩

/-- An array of arrays of integers. -/
def grid : TypeExpr := .array (.array (.primitive .i32 .nowhere) .nowhere) .nowhere

/-- A pointer to an array of arrays, and a function that casts it and gives back an array of arrays. -/
def disguised : SourceFile :=
  let here := Span.nowhere
  let value : Expr := .cast (.ident ⟨"p", here⟩) grid here
  ⟨[⟨⟨"p", here⟩, .mutable (.pointer grid here) none, here, .untouched⟩,
    ⟨⟨"f", here⟩, .constant none (.function ⟨[], grid, here⟩ (.statement (.returning (some value) here)) here), here,
      .untouched⟩], [0, 1]⟩

/-- A variable that is an array of arrays. -/
def plainGrid : SourceFile := ⟨[⟨⟨"g", .nowhere⟩, .mutable grid none, .nowhere, .untouched⟩], [0]⟩

/-- Arrays of arrays are written behind a pointer, as a result and in a cast. -/
theorem disguised_writes : disguised.Writes (.declared "p" none) (.pointer grid .nowhere) ∧
    disguised.Writes .result grid ∧ disguised.Writes .cast grid := by
  have hpointer := Rendered.item (show 0 ∈ disguised.items by decide) (rfl : disguised.decl? 0 = some _)
  have hfunction := Rendered.item (show 1 ∈ disguised.items by decide) (rfl : disguised.decl? 1 = some _)
  have hscope : Rendered disguised (.scope (.statement (.returning _ _))) :=
    hfunction.part (List.mem_cons_of_mem _ (List.mem_singleton_self _))
  have hstmt : Rendered disguised (.stmt (.returning _ _)) := hscope.part (List.mem_singleton_self _)
  have hcast : Rendered disguised (.expr (.cast _ _ _)) := hstmt.part (List.mem_singleton_self _)
  exact ⟨⟨_, hpointer, List.mem_singleton_self _⟩, ⟨_, hfunction, List.mem_singleton_self _⟩,
    ⟨_, hcast, List.mem_singleton_self _⟩⟩

/-- The file has a text, in which all brackets are gone. -/
theorem disguised_text :
    (generate disguised false).2 = .ok "int * p;\n\nint f() \x7b\n    return (int)p;\n\x7d\n\n" := by decide +kernel

/-- The pointer to an array of arrays is written as a pointer to an integer. A variable that is an array of arrays
itself is refused, and the error names its type. -/
theorem disguised_is_written_plain_is_refused :
    TypePlace.written disguised (.pointer grid .nowhere) (.declared "p" none) = .ok [.pointer] ∧
    (generate plainGrid false).2 = .error (.unsupported (.nestedArray "[][]int") .nowhere) ∧
    ∃ name count element outer, plainGrid.Writes (.declared name count) (.array (.array element .nowhere) outer) ∧
      "[][]int" = (TypeExpr.array (.array element .nowhere) outer).text := by
  have hrefused : (generate plainGrid false).2 = .error (.unsupported (.nestedArray "[][]int") .nowhere) := by
    decide +kernel
  obtain ⟨-, hwritten, -⟩ := (nested_arrays_are_refused_where_declared disguised false).1 ⟨_, disguised_text⟩ _ _
    disguised_writes.1
  exact ⟨hwritten, hrefused, (nested_arrays_are_refused_where_declared plainGrid false).2 _ _ hrefused⟩

/-- Arrays of arrays behind a pointer, as the result of a function and in a cast are in the text as integers. -/
theorem disguised_nested_arrays_have_a_text : grid.hasNestedArray = true ∧
    (disguised.Writes (.declared "p" none) (.pointer grid .nowhere) ∧ disguised.Writes .result grid ∧
      disguised.Writes .cast grid) ∧
    (generate disguised false).2 = .ok "int * p;\n\nint f() \x7b\n    return (int)p;\n\x7d\n\n" :=
  ⟨rfl, disguised_writes, disguised_text⟩

end DeclTree

import DeclTree.Proofs.Emission
import DeclTree.Proofs.Order

/-!
# Definitions and the declarations that need them

A declaration that stores a record in place needs the definition of the record before it. Types are emitted before
variables and functions, so a variable or a function always stands behind the definitions that it needs. Among
themselves types are emitted in the order of the items, which need not be the order in which they are resolved: a record
stands behind the definition of a record that it stores exactly if the items have them in that order.
-/

namespace DeclTree

variable {hash : String → Nat}

/-- One declaration stands somewhere before another one. -/
def Precedes (order : List DeclId) (first second : DeclId) : Prop := [first, second].Sublist order

instance (order : List DeclId) (first second : DeclId) : Decidable (Precedes order first second) :=
  inferInstanceAs (Decidable ([first, second].Sublist order))

/-- The types of what a declaration makes: those of its members, its own, or those of its parameters and its result. -/
def DeclKind.outerTypes : DeclKind → List TypeExpr
  | .constant ascribed (.function signature _ _) =>
    signature.params.map (·.type) ++ [Lowering.resultType ascribed signature]
  | .constant ascribed _ => ascribed.toList
  | .mutable type _ => [type]
  | .record _ members => members.map (·.type)
  | .enumeration _ | .sum _ => []

namespace SourceFile

/-- The items that a declaration stores in place. -/
def storedItems (file : SourceFile) (user : DeclId) : List DeclId :=
  ((file.decl? user).toList.flatMap fun d => d.kind.outerTypes).filterMap fun type =>
    type.stored?.bind fun name => file.visible? [file.items] name.name

/-- A top-level declaration uses a type among the items by value. -/
def Uses (file : SourceFile) (user t : DeclId) : Prop :=
  user ∈ file.items ∧ t ∈ file.storedItems user ∧ file.isTypeAt t = true

instance (file : SourceFile) (user t : DeclId) : Decidable (file.Uses user t) :=
  inferInstanceAs (Decidable (_ ∧ _ ∧ _))

variable {file : SourceFile} {user t : DeclId}

/-- What is stored as an item is an item. -/
theorem mem_items_of_storedItems (h : t ∈ file.storedItems user) : t ∈ file.items := by
  obtain ⟨type, -, hstored⟩ := List.mem_filterMap.mp h
  obtain ⟨name, -, hvisible⟩ := Option.bind_eq_some_iff.mp hstored
  simpa using (mem_of_visible? hvisible).1

/-- A variable stands behind every type that it uses. -/
theorem Uses.precedes_value (h : file.Uses user t) (hvalue : file.isValueAt user = true) :
    Precedes file.resolutionOrder t user := by
  have htype : t ∈ file.items.filter file.isTypeAt := List.mem_filter.mpr ⟨mem_items_of_storedItems h.2.1, h.2.2⟩
  have huser : user ∈ file.items.filter file.isValueAt := List.mem_filter.mpr ⟨h.1, hvalue⟩
  rw [Precedes, resolutionOrder_eq]
  exact (List.singleton_sublist.mpr htype).append (List.singleton_sublist.mpr huser)

/-- A type is no variable. -/
theorem isValueAt_eq_false (h : file.isTypeAt t = true) : file.isValueAt t = false := by
  obtain ⟨d, hdecl, htype⟩ := isTypeAt_iff.mp h
  simp [isValueAt, hdecl, htype]

/-- Types stand in the order of the items. -/
theorem precedes_type_iff (huser : file.isTypeAt user = true) (ht : file.isTypeAt t = true) :
    Precedes file.resolutionOrder t user ↔ Precedes file.items t user := by
  have hfilter : [t, user].filter file.isTypeAt = [t, user] := by simp [huser, ht]
  rw [Precedes, Precedes, resolutionOrder_eq]
  constructor
  · intro h
    -- Neither of the two is among the variables.
    have htypes := h.filter file.isTypeAt
    have hvalues : (file.items.filter file.isValueAt).filter file.isTypeAt = [] := by
      refine List.filter_eq_nil_iff.mpr fun id hid htype => ?_
      simp [isValueAt_eq_false htype] at hid
    rw [List.filter_append, hvalues, List.append_nil, hfilter] at htypes
    exact htypes.trans (List.filter_sublist.trans List.filter_sublist)
  · intro h
    have htypes := h.filter file.isTypeAt
    rw [hfilter] at htypes
    exact htypes.trans (List.sublist_append_left _ _)

end SourceFile

/-- No item is listed twice in a file that is resolved. -/
theorem nodup_items_of_resolveFile {p : Progress} (h : (resolveFile hash p).2 = none) : p.file.items.Nodup := by
  rcases hall : declareAll p.file.items (.root hash) p with ⟨⟨scopes, q⟩, _ | error⟩
  · have hnamed := named_of_declareAll hall
    have hbind := declareAll_items hash fun id hid => by
      obtain ⟨d, hdecl, -⟩ := hnamed id hid
      exact (List.getElem?_eq_some_iff.mp hdecl).1
    rw [hall] at hbind
    refine hbind.1.distinct.imp_of_mem fun {other id} hother hid hdistinct heq => hdistinct ?_
    obtain ⟨d, hdecl, -⟩ := hnamed id hid
    exact ⟨d, d, hdecl, heq ▸ hdecl, rfl⟩
  · rw [resolveFile, hall] at h
    simp at h

/-- The item at a position of the text is what lowering makes of the declaration. -/
def EmitsAt (file : SourceFile) (id : DeclId) (item : C.Item) : Prop := ∃ d, file.decl? id = some d ∧ Emits file d item

/-- What is emitted for declarations of the arena is emitted at their positions. -/
theorem emitsAt_of_emits {file : SourceFile} {ids : List DeclId} (hids : ∀ id ∈ ids, ∃ d, file.decl? id = some d)
    {lowered : List C.Item} (h : List.Forall₂ (Emits file) (ids.filterMap file.decl?) lowered) :
    List.Forall₂ (EmitsAt file) ids lowered := by
  induction ids generalizing lowered with
  | nil =>
    cases h
    exact .nil
  | cons id rest ih =>
    obtain ⟨⟨d, hdecl⟩, hrest⟩ := List.forall_mem_cons.mp hids
    rw [List.filterMap_cons_some hdecl] at h
    cases h with
    | cons hfirst hothers => exact .cons ⟨d, hdecl, hfirst⟩ (ih hrest hothers)

/-- The text of a file is laid out declaration by declaration, types before variables. -/
theorem layout_of_generate {file : SourceFile} {banner : Bool} {text : String}
    (h : (generate file banner).2 = .ok text) :
    ∃ lowered, text = C.unitText banner lowered ∧ List.Forall₂ (EmitsAt file) file.resolutionOrder lowered := by
  obtain ⟨lowered, htext, hemits⟩ := emits_of_generate h
  rw [Lowering.emissionOrder_eq] at hemits
  refine ⟨lowered, htext, emitsAt_of_emits (fun id hid => ?_) hemits⟩
  rw [SourceFile.resolutionOrder_eq, List.mem_append, List.mem_filter, List.mem_filter, SourceFile.isTypeAt_iff,
    SourceFile.isValueAt_iff] at hid
  rcases hid with ⟨-, d, hdecl, -⟩ | ⟨-, d, hdecl, -⟩
  · exact ⟨d, hdecl⟩
  · exact ⟨d, hdecl⟩

/-- Definitions precede the variables and functions that need them. The text that is generated from a file that has been
resolved consists of what each top-level declaration is lowered to, every one once, types before variables. A variable
or a function stands behind the definition of each type among the items that it uses by value. A type stands behind the
definition of a type that it uses by value exactly if the items have the two in that order. -/
theorem definitions_precede_values {file now : SourceFile} {events : List Event} {banner : Bool} {text : String}
    (hresolve : file.resolve hash = (now, events, none)) (hgenerate : (generate now banner).2 = .ok text) :
    (∃ lowered, text = C.unitText banner lowered ∧ List.Forall₂ (EmitsAt now) now.resolutionOrder lowered) ∧
    now.resolutionOrder.Nodup ∧ ∀ user t, now.Uses user t →
      (now.isValueAt user = true → Precedes now.resolutionOrder t user) ∧
      (now.isTypeAt user = true → (Precedes now.resolutionOrder t user ↔ Precedes now.items t user)) := by
  refine ⟨layout_of_generate hgenerate, ?_, fun user t huses => ⟨huses.precedes_value, fun huser =>
    SourceFile.precedes_type_iff huser huses.2.2⟩⟩
  have hfile : (resolveFile hash ⟨file, []⟩).1.file = now := congrArg (·.1) hresolve
  have hnodup : now.items.Nodup := by
    have hitems : (resolveFile hash ⟨file, []⟩).1.file.items = file.items :=
      SourceFile.items_of_cleared_eq ((Call.resolveFile : Call hash).advances ⟨file, []⟩).cleared
    rw [← hfile, hitems]
    exact nodup_items_of_resolveFile (p := ⟨file, []⟩) (congrArg (·.2.2) hresolve)
  rw [SourceFile.resolutionOrder_eq]
  refine (hnodup.filter _).append (hnodup.filter _) fun id htype hvalue => ?_
  simp [SourceFile.isValueAt_eq_false (List.mem_filter.mp htype).2] at hvalue

/-- A record that stores another one, a variable of its type, and a function that takes it; the items stand in a given
order. -/
def storing (items : List DeclId) : SourceFile :=
  let here := Span.nowhere
  let outer := TypeExpr.named ⟨"Outer", here⟩ none
  ⟨[⟨⟨"Outer", here⟩, .record .struct [⟨⟨"inner", here⟩, .named ⟨"Inner", here⟩ none, here⟩], here,
      .untouched⟩,
    ⟨⟨"Inner", here⟩, .record .union [], here, .untouched⟩,
    ⟨⟨"v", here⟩, .mutable (.array outer here) none, here, .untouched⟩,
    ⟨⟨"f", here⟩, .constant none (.function ⟨[⟨⟨"a", here⟩, outer, here⟩], .primitive .void here, here⟩
      (.block [] here) here), here, .untouched⟩], items⟩

/-- The file after it has been resolved. -/
def stored (items : List DeclId) : SourceFile := ((storing items).resolve nameHash).1

/-- Variables in front of the types that they need. -/
theorem storing_precedes : ((storing [2, 3, 1, 0]).resolve nameHash).2.2 = none ∧
    (∃ text, (generate (stored [2, 3, 1, 0]) true).2 = .ok text) ∧
    ((stored [2, 3, 1, 0]).Uses 2 0 ∧ Precedes (stored [2, 3, 1, 0]).resolutionOrder 0 2) ∧
    ((stored [2, 3, 1, 0]).Uses 3 0 ∧ Precedes (stored [2, 3, 1, 0]).resolutionOrder 0 3) ∧
    ((stored [2, 3, 1, 0]).Uses 0 1 ∧ Precedes (stored [2, 3, 1, 0]).resolutionOrder 1 0) := by
  obtain ⟨text, hgenerate⟩ : ∃ text, (generate (stored [2, 3, 1, 0]) true).2 = .ok text := ⟨_, rfl⟩
  have hresolve : (storing [2, 3, 1, 0]).resolve nameHash = (stored [2, 3, 1, 0], _, none) := rfl
  have horder := (definitions_precede_values hresolve hgenerate).2.2
  have hvariable : (stored [2, 3, 1, 0]).Uses 2 0 := by decide +kernel
  have hfunction : (stored [2, 3, 1, 0]).Uses 3 0 := by decide +kernel
  have hmember : (stored [2, 3, 1, 0]).Uses 0 1 := by decide +kernel
  exact ⟨rfl, ⟨text, hgenerate⟩, ⟨hvariable, (horder 2 0 hvariable).1 (by decide +kernel)⟩,
    ⟨hfunction, (horder 3 0 hfunction).1 (by decide +kernel)⟩,
    ⟨hmember, ((horder 0 1 hmember).2 (by decide +kernel)).mpr (by decide +kernel)⟩⟩

/-- A record that the items have in front of one that it stores is defined first. -/
theorem outer_precedes_inner : ((storing [0, 1]).resolve nameHash).2.2 = none ∧
    (generate (stored [0, 1]) false).2 =
      .ok "struct Outer \x7b\n    union Inner inner;\n\x7d;\n\nunion Inner \x7b\n\x7d;\n\n" ∧
    (stored [0, 1]).Uses 0 1 ∧ ¬Precedes (stored [0, 1]).resolutionOrder 1 0 :=
  ⟨rfl, rfl, by decide +kernel, by decide +kernel⟩

end DeclTree

import DeclTree.Proofs.Steps
import Mathlib.Logic.Relation

/-!
# Containment

A record holds another declaration by value when the type of one of its members reaches a named type through arrays only
and the name stands for that declaration. The plan of a record links by value exactly what the record holds.

`Explored` is the invariant of a walk along this relation: what is closed only holds what is closed and reaches no
cycle. Opening a declaration keeps it, and so does closing one after everything that it holds.
-/

namespace DeclTree

open Relation (ReflTransGen TransGen)

namespace TypeExpr

/-- The named type that a type stores in place: through arrays, and through nothing else. -/
def stored? : TypeExpr → Option Ident
  | named name _ => some name
  | array element _ => element.stored?
  | primitive .. | pointer .. | nullable .. | function _ => none

mutual

/-- Every name of a type, at any depth. -/
def names : TypeExpr → List Ident
  | primitive _ _ => []
  | pointer base _ => base.names
  | nullable base _ => base.names
  | array element _ => element.names
  | named name _ => [name]
  | function ⟨params, result, _⟩ => slotNames params ++ result.names

/-- Every name of the types of slots. -/
def slotNames : List (Slot TypeExpr) → List Ident
  | [] => []
  | ⟨_, type, _⟩ :: rest => type.names ++ slotNames rest

end

mutual

/-- The steps of a type link its names, and by value only the one that it stores in place. -/
theorem eq_link_of_mem_steps : ∀ (type : TypeExpr) (reach : Reach) {step : Step}, step ∈ type.steps reach →
    ∃ name ∈ type.names, ∃ r, step = .link name r ∧ (r = .byValue → reach = .byValue ∧ type.stored? = some name)
  | primitive _ _, _, step, h => by simp [steps] at h
  | pointer base _, _, step, h => by
    obtain ⟨name, hname, r, rfl, hr⟩ := eq_link_of_mem_steps base .indirect h
    exact ⟨name, hname, r, rfl, fun hv => absurd (hr hv).1 (by decide)⟩
  | nullable base _, _, step, h => by
    obtain ⟨name, hname, r, rfl, hr⟩ := eq_link_of_mem_steps base .indirect h
    exact ⟨name, hname, r, rfl, fun hv => absurd (hr hv).1 (by decide)⟩
  | array element _, reach, step, h => eq_link_of_mem_steps element reach h
  | named name _, reach, step, h => ⟨name, by simp [names], reach, by simpa [steps] using h, fun hv => ⟨hv, rfl⟩⟩
  | function ⟨params, result, _⟩, _, step, h => by
    rcases List.mem_append.mp h with h | h
    · obtain ⟨name, hname, r, rfl, hr⟩ := eq_link_of_mem_slotSteps params .indirect h
      exact ⟨name, List.mem_append_left _ hname, r, rfl, fun hv => absurd (hr hv).1 (by decide)⟩
    · obtain ⟨name, hname, r, rfl, hr⟩ := eq_link_of_mem_steps result .indirect h
      exact ⟨name, List.mem_append_right _ hname, r, rfl, fun hv => absurd (hr hv).1 (by decide)⟩

/-- The steps of slots link the names of their types, and by value only those that a slot stores in place. -/
theorem eq_link_of_mem_slotSteps : ∀ (slots : List (Slot TypeExpr)) (reach : Reach) {step : Step},
    step ∈ slotSteps slots reach → ∃ name ∈ slotNames slots, ∃ r, step = .link name r ∧
      (r = .byValue → reach = .byValue ∧ ∃ slot ∈ slots, slot.type.stored? = some name)
  | [], _, step, h => by simp [slotSteps] at h
  | ⟨label, type, s⟩ :: rest, reach, step, h => by
    rcases List.mem_append.mp h with h | h
    · obtain ⟨name, hname, r, rfl, hr⟩ := eq_link_of_mem_steps type reach h
      exact ⟨name, List.mem_append_left _ hname, r, rfl,
        fun hv => ⟨(hr hv).1, ⟨label, type, s⟩, List.mem_cons_self, (hr hv).2⟩⟩
    · obtain ⟨name, hname, r, rfl, hr⟩ := eq_link_of_mem_slotSteps rest reach h
      refine ⟨name, List.mem_append_right _ hname, r, rfl, fun hv => ⟨(hr hv).1, ?_⟩⟩
      obtain ⟨slot, hslot, hstored⟩ := (hr hv).2
      exact ⟨slot, List.mem_cons_of_mem _ hslot, hstored⟩

end

/-- What a type stores in place is linked as the type is reached. -/
theorem link_mem_steps_of_stored? {type : TypeExpr} {name : Ident} (reach : Reach) (h : type.stored? = some name) :
    .link name reach ∈ type.steps reach := by
  induction type using stored?.induct with
  | case1 label link =>
    obtain rfl : label = name := by simpa [stored?] using h
    exact List.mem_singleton_self _
  | case2 element _ ih => exact ih h
  | case3 | case4 | case5 | case6 => simp [stored?] at h

/-- What a slot stores in place is linked as the slots are reached. -/
theorem link_mem_slotSteps_of_stored? {slots : List (Slot TypeExpr)} {slot : Slot TypeExpr} {name : Ident}
    (reach : Reach) (hslot : slot ∈ slots) (h : slot.type.stored? = some name) :
    .link name reach ∈ slotSteps slots reach := by
  induction slots with
  | nil => simp at hslot
  | cons first rest ih =>
    rw [slotSteps]
    rcases List.mem_cons.mp hslot with rfl | hslot
    · exact List.mem_append_left _ (link_mem_steps_of_stored? reach h)
    · exact List.mem_append_right _ (ih hslot)

end TypeExpr

/-- No slot is repeated exactly when the names are distinct from each other and from those before. -/
theorem Slot.firstRepeat?_eq_none_iff {τ : Type} (seen : List String) (slots : List (Slot τ)) :
    Slot.firstRepeat? seen slots = none ↔
      (slots.map (·.name.name)).Nodup ∧ ∀ slot ∈ slots, slot.name.name ∉ seen := by
  induction slots generalizing seen with
  | nil => simp [Slot.firstRepeat?]
  | cons slot rest ih =>
    rw [Slot.firstRepeat?]
    split
    · next hseen => simp [hseen]
    · next hseen =>
      rw [ih]
      simp only [List.map_cons, List.nodup_cons, List.mem_map, List.mem_cons, forall_eq_or_imp, not_or]
      grind

/-- A record whose members have distinct names is resolved by linking the types of its members. -/
theorem Declaration.plan?_record {d : Declaration} {kind : RecordKind} {members : List (Slot TypeExpr)}
    (hkind : d.kind = .record kind members) (hnodup : (members.map (·.name.name)).Nodup) :
    d.plan? = some (TypeExpr.slotSteps members .byValue) := by
  have hrepeat : Slot.firstRepeat? [] members = none :=
    (Slot.firstRepeat?_eq_none_iff [] members).mpr ⟨hnodup, fun _ _ => List.not_mem_nil⟩
  simp only [plan?, hkind, memberChecks, hrepeat, List.append_nil]

namespace SourceFile

/-- A record holds a declaration by value: a member stores a type in place whose name stands for the declaration.
What names stand for is given by `lookup`. -/
def Holds (file : SourceFile) (lookup : String → Option DeclId) (t u : DeclId) : Prop :=
  ∃ d kind members, file.decl? t = some d ∧ d.kind = .record kind members ∧
    ∃ slot ∈ members, ∃ name, slot.type.stored? = some name ∧ lookup name.name = some u

/-- A record with a name and with distinct names of members, in which every name of a type stands for a type. -/
def IsRegular (file : SourceFile) (lookup : String → Option DeclId) (t : DeclId) : Prop :=
  ∃ d kind members, file.decl? t = some d ∧ d.kind = .record kind members ∧ d.name.name ≠ "" ∧
    (members.map (·.name.name)).Nodup ∧ ∀ name ∈ TypeExpr.slotNames members,
      ∃ u e, lookup name.name = some u ∧ file.decl? u = some e ∧ e.isVariable = false

end SourceFile

/-- How far a walk from `root` has come: it has opened only what can be reached, and what it has closed holds only what
is closed and leads to no cycle. -/
structure Explored (holds : DeclId → DeclId → Prop) (root : DeclId) (file : SourceFile) : Prop where
  reached : ∀ {t m}, file.mark? t = some m → m ≠ .untouched → ReflTransGen holds root t
  closed : ∀ {t u}, file.mark? t = some .closed → holds t u → file.mark? u = some .closed
  acyclic : ∀ {t u}, file.mark? t = some .closed → ReflTransGen holds t u → ¬TransGen holds u u

namespace Explored

variable {holds : DeclId → DeclId → Prop} {root : DeclId} {file after : SourceFile}

/-- Only marks matter. -/
theorem congr (h : Explored holds root file) (hmarks : ∀ t, after.mark? t = file.mark? t) :
    Explored holds root after where
  reached hm hne := h.reached (hmarks _ ▸ hm) hne
  closed hm hu := hmarks _ ▸ h.closed (hmarks _ ▸ hm) hu
  acyclic hm hu := h.acyclic (hmarks _ ▸ hm) hu

/-- An untouched declaration that can be reached may be opened. -/
theorem openDecl (h : Explored holds root file) {id : DeclId} (huntouched : file.mark? id = some .untouched)
    (hid : ReflTransGen holds root id) : Explored holds root (file.setMark id .opened) := by
  have hself := SourceFile.mark?_setMark_self huntouched .opened
  have hclosed {t : DeclId} (ht : (file.setMark id .opened).mark? t = some .closed) : file.mark? t = some .closed := by
    by_cases heq : id = t
    · simp [← heq, hself] at ht
    · rwa [SourceFile.mark?_setMark_of_ne _ heq] at ht
  refine ⟨fun {t m} hm hne => ?_, fun {t u} ht hu => ?_, fun {t u} ht hu => h.acyclic (hclosed ht) hu⟩
  · by_cases heq : id = t
    · exact heq ▸ hid
    · rw [SourceFile.mark?_setMark_of_ne _ heq] at hm
      exact h.reached hm hne
  · have hu' := h.closed (hclosed ht) hu
    have heq : id ≠ u := by
      rintro rfl
      simp [huntouched] at hu'
    rwa [SourceFile.mark?_setMark_of_ne _ heq]

/-- An open declaration may be closed once everything that it holds is closed. A cycle through it would come back to it
from something that it holds, and so be reached from what is closed already. -/
theorem closeDecl (h : Explored holds root file) {id : DeclId} (hopened : file.mark? id = some .opened)
    (hheld : ∀ u, holds id u → file.mark? u = some .closed) : Explored holds root (file.setMark id .closed) := by
  have hself := SourceFile.mark?_setMark_self hopened .closed
  have hkeep {t : DeclId} (ht : file.mark? t = some .closed) : (file.setMark id .closed).mark? t = some .closed := by
    by_cases heq : id = t
    · exact heq ▸ hself
    · rwa [SourceFile.mark?_setMark_of_ne _ heq]
  have hcases {t : DeclId} (ht : (file.setMark id .closed).mark? t = some .closed) :
      t = id ∨ file.mark? t = some .closed := by
    by_cases heq : id = t
    · exact .inl heq.symm
    · exact .inr (by rwa [SourceFile.mark?_setMark_of_ne _ heq] at ht)
  have hself_acyclic : ¬TransGen holds id id := by
    intro hcycle
    obtain ⟨u, hu, hback⟩ := (Relation.TransGen.head'_iff).mp hcycle
    exact h.acyclic (hheld u hu) hback hcycle
  refine ⟨fun {t m} hm hne => ?_, fun {t u} ht hu => ?_, fun {t u} ht hu => ?_⟩
  · by_cases heq : id = t
    · exact heq ▸ h.reached hopened (by decide)
    · rw [SourceFile.mark?_setMark_of_ne _ heq] at hm
      exact h.reached hm hne
  · rcases hcases ht with rfl | ht
    · exact hkeep (hheld u hu)
    · exact hkeep (h.closed ht hu)
  · rcases hcases ht with rfl | ht
    · rcases Relation.ReflTransGen.cases_head hu with rfl | ⟨v, hv, hvu⟩
      · exact hself_acyclic
      · exact h.acyclic (hheld v hv) hvu
    · exact h.acyclic ht hu

end Explored

end DeclTree

import DeclTree.Proofs.Containment
import DeclTree.Proofs.Scoping

/-!
# Defects of a file

What is wrong with a file that cannot be resolved, said of the tree alone: each kind of error with the defect that it
reports and the place where the defect stands. Names stand for what lexical scoping makes visible, and only
declarations that are reached from the items count.
-/

namespace DeclTree

open Relation (TransGen)

namespace SourceFile

/-- A record that is reached holds a declaration by value; its names stand for what is visible where it is declared. -/
def Contains (file : SourceFile) (t u : DeclId) : Prop :=
  ∃ env, Reached file env t ∧ file.Holds (file.visible? env) t u

/-- A node of a declaration that is reached, with the environment that is in force there. -/
def HasNode (file : SourceFile) (inner : Env) (node : LexicalNode) : Prop :=
  ∃ env owner d, Reached file env owner ∧ file.decl? owner = some d ∧ (inner, node) ∈ d.kind.nodes env

/-- Two declarations have the same name. -/
def SameName (file : SourceFile) (id other : DeclId) : Prop :=
  ∃ d e, file.decl? id = some d ∧ file.decl? other = some e ∧ e.name.name = d.name.name

end SourceFile

/-- A slot repeats the name of a slot before it. -/
def Slot.IsRepeated {τ : Type} (slots : List (Slot τ)) (slot : Slot τ) : Prop :=
  ∃ before after other, slots = before ++ slot :: after ∧ other ∈ before ∧ other.name.name = slot.name.name

/-- The defect that an error reports. -/
inductive Defect (file : SourceFile) : Error → Prop where
  /-- A declaration that is reached has no name. -/
  | nameless {env : Env} {id : DeclId} {d : Declaration} (hreached : Reached file env id)
    (hdecl : file.decl? id = some d) (hname : d.name.name = "") : Defect file (.missingIdentifier d.span)
  /-- An item has the name of an item before it. -/
  | repeatedItem {before after : List DeclId} {id other : DeclId} {d : Declaration}
    (hitems : file.items = before ++ id :: after) (hother : other ∈ before) (hdecl : file.decl? id = some d)
    (hname : file.SameName id other) : Defect file (.duplicateDeclaration d.name.name d.span)
  /-- A local declaration has the name of one before it in its scope. -/
  | repeatedLocal {before : List DeclId} {outer : Env} {id other : DeclId} {d : Declaration} {span : Span}
    (hnode : file.HasNode ((before ++ [id]) :: outer) (.declaration id span)) (hother : other ∈ before)
    (hdecl : file.decl? id = some d) (hname : file.SameName id other) :
    Defect file (.duplicateDeclaration d.name.name d.span)
  /-- A parameter of a function literal has the name of one before it. -/
  | repeatedParameter {inner : Env} {signature : Signature TypeExpr} {body : Scope} {slot : Slot TypeExpr}
    (hnode : file.HasNode inner (.function signature body)) (hrepeated : Slot.IsRepeated signature.params slot) :
    Defect file (.duplicateDeclaration slot.name.name slot.span)
  /-- A declaration statement directly in the body of a function literal has the name of a parameter. -/
  | shadowedParameter {inner : Env} {signature : Signature TypeExpr} {body : Scope} {slot : Slot TypeExpr} {id : DeclId}
    {span : Span} {d : Declaration} (hnode : file.HasNode inner (.function signature body))
    (hslot : slot ∈ signature.params) (hlocal : .statement (.declaration id span) ∈ body.outermost)
    (hdecl : file.decl? id = some d) (hname : slot.name.name = d.name.name) :
    Defect file (.duplicateDeclaration d.name.name span)
  /-- A name is used as a type where nothing of the name is visible. -/
  | unknownType {inner : Env} {name : Ident} {reach : Reach} {link : Option DeclId}
    (hnode : file.HasNode inner (.named name reach link)) (hvisible : file.visible? inner name.name = none) :
    Defect file (.unknownType name.name name.span)
  /-- A name is used as a type where it stands for a variable. -/
  | notAType {inner : Env} {name : Ident} {reach : Reach} {link : Option DeclId} {target : DeclId} {d : Declaration}
    (hnode : file.HasNode inner (.named name reach link)) (hvisible : file.visible? inner name.name = some target)
    (hdecl : file.decl? target = some d) (hvariable : d.isVariable = true) :
    Defect file (.notAType name.name name.span)
  /-- An enumeration or a sum is reached. -/
  | unsupportedKind {env : Env} {id : DeclId} {d : Declaration} (hreached : Reached file env id)
    (hdecl : file.decl? id = some d)
    (hkind : (∃ members, d.kind = .enumeration members) ∨ ∃ members, d.kind = .sum members) :
    Defect file (.unsupportedKind d.kind.keyword d.name.name d.span)
  /-- A member of a record has the name of one before it. -/
  | repeatedMember {env : Env} {id : DeclId} {d : Declaration} {kind : RecordKind} {members : List (Slot TypeExpr)}
    {slot : Slot TypeExpr} (hreached : Reached file env id) (hdecl : file.decl? id = some d)
    (hkind : d.kind = .record kind members) (hrepeated : Slot.IsRepeated members slot) :
    Defect file (.duplicateMember d.name.name slot.name.name slot.span)
  /-- A record contains itself, through any number of other records. -/
  | cycle {env : Env} {id : DeclId} {d : Declaration} (hreached : Reached file env id) (hdecl : file.decl? id = some d)
    (hcycle : TransGen file.Contains id id) : Defect file (.circularType d.name.name d.span)
  /-- A for-each loop or a match is reached. -/
  | refused {inner : Env} {construct : Construct} {span : Span} (hnode : file.HasNode inner (.refused construct span)) :
    Defect file (.unsupported construct span)

/-- The slot that is found to be repeated repeats the name of a slot before it. -/
theorem Slot.isRepeated_of_firstRepeat? {τ : Type} {slots : List (Slot τ)} {slot : Slot τ}
    (h : Slot.firstRepeat? [] slots = some slot) : Slot.IsRepeated slots slot := by
  -- The slots that have been seen stand in front of those that are left.
  suffices hrun : ∀ rest before, slots = before ++ rest →
      ∀ seen, (∀ name ∈ seen, ∃ other ∈ before, other.name.name = name) →
      Slot.firstRepeat? seen rest = some slot → Slot.IsRepeated slots slot from
    hrun slots [] rfl [] (by simp) h
  intro rest
  induction rest with
  | nil => simp [Slot.firstRepeat?]
  | cons first rest ih =>
    intro before hslots seen hseen hfound
    rw [Slot.firstRepeat?] at hfound
    split at hfound
    · next hmem =>
      obtain rfl := Option.some_inj.mp hfound
      obtain ⟨other, hother, hname⟩ := hseen _ hmem
      exact ⟨before, rest, other, hslots, hother, hname⟩
    · refine ih (before ++ [first]) (by simpa using hslots) _ (fun name hname => ?_) hfound
      rcases List.mem_cons.mp hname with rfl | hname
      · exact ⟨first, by simp, rfl⟩
      · obtain ⟨other, hother, heq⟩ := hseen name hname
        exact ⟨other, List.mem_append_left _ hother, heq⟩

end DeclTree

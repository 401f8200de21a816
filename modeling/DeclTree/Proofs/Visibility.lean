import DeclTree.Proofs.Defects
import DeclTree.Proofs.Nodes
import DeclTree.Proofs.Tables
import Mathlib.Data.List.Forall2
import Mathlib.Data.List.Nodup

/-!
# Tables and environments

Tables represent an environment when each of them answers for the names of its scope; a chain of such tables finds what
lexical scoping makes visible. When every position of the arena is named at most once, a declaration that is reached has
one place where it is declared, hence one environment, and does not declare itself through others.
-/

namespace DeclTree

open Relation (TransGen ReflTransGen)

variable {hash : String → Nat}

section Tables

variable {file : SourceFile} {scopes changed : Scopes hash} {env : Env}

/-- Each table of a chain binds the names of its scope, to the first declaration of the name. -/
def Represents (file : SourceFile) (scopes : Scopes hash) (env : Env) : Prop :=
  List.Forall₂ (fun table scope => ∀ name, table.find? name = scope.find? (file.isNamed name))
    (scopes.top :: scopes.enclosing) env

namespace Represents

/-- A chain of tables stands for one scope at least. -/
theorem ne_nil (h : Represents file scopes env) : env ≠ [] := by
  rintro rfl
  cases h

/-- The chain finds what is visible. -/
theorem find_eq (h : Represents file scopes env) (name : String) :
    scopes.find? name = file.visible? env name := by
  rw [Scopes.find?, SourceFile.visible?]
  unfold Represents at h
  generalize scopes.top :: scopes.enclosing = tables at h ⊢
  induction h with
  | nil => rfl
  | cons hfirst _ ih => rw [List.findSome?_cons, List.findSome?_cons, hfirst name, ih]

/-- A chain of one empty table stands for one scope without names. -/
theorem root (file : SourceFile) : Represents file (.root hash) [[]] :=
  .cons (fun name => SymbolTable.find?_empty name) .nil

/-- Entering a scope adds one without names. -/
theorem push (h : Represents file scopes env) : Represents file scopes.push ([] :: env) :=
  .cons (fun name => SymbolTable.find?_empty name) h

/-- Leaving a scope that is not the outermost takes it away. -/
theorem pop {scope : List DeclId} (h : Represents file scopes (scope :: env)) (hne : env ≠ []) :
    Represents file (scopes.pop?.getD scopes) env := by
  rcases scopes with ⟨top, _ | ⟨table, rest⟩⟩
  · cases h with
    | cons _ hrest =>
      cases hrest
      exact absurd rfl hne
  · cases h with
    | cons _ hrest => exact hrest

/-- Binding the name of a declaration represents the environment in which it is declared. -/
theorem insert (h : Represents file scopes env) {id : DeclId} {d : Declaration} (hdecl : file.decl? id = some d)
    (hinsert : scopes.insert? d.name.name id = some changed) :
    Represents file changed (env.declare [id]) := by
  obtain ⟨table, htable, rfl⟩ := Scopes.eq_of_insert? hinsert
  obtain ⟨hfree, hfind⟩ := SymbolTable.find?_of_insert? htable
  cases h with
  | @cons _ scope _ outer hfirst hrest =>
    refine .cons (fun name => ?_) hrest
    have hself : file.isNamed name id = decide (d.name.name = name) := by
      rw [SourceFile.isNamed, hdecl]
      rfl
    rw [hfind name, List.find?_append, ← hfirst name]
    by_cases hname : name = d.name.name
    · subst hname
      rw [if_pos rfl, hfree, List.find?_cons_of_pos (by simp [hself])]
      rfl
    · rw [if_neg hname, List.find?_cons_of_neg (by simpa [hself] using Ne.symm hname)]
      simp

/-- A name that cannot be bound is that of a declaration of the innermost scope. -/
theorem exists_of_insert_none {scope : List DeclId} (h : Represents file scopes (scope :: env)) {id : DeclId}
    {d : Declaration} (hdecl : file.decl? id = some d)
    (hinsert : scopes.insert? d.name.name id = none) :
    ∃ other ∈ scope, file.SameName id other := by
  obtain ⟨other, hother⟩ := Scopes.insert?_eq_none_iff.mp hinsert
  cases h with
  | cons hfirst _ =>
    rw [hfirst] at hother
    obtain ⟨e, he, hname⟩ := SourceFile.isNamed_iff.mp (List.find?_some hother)
    exact ⟨other, List.mem_of_find?_eq_some hother, d, e, hdecl, he, hname⟩

/-- A name that can be bound is that of no declaration of the innermost scope. -/
theorem not_named {scope : List DeclId} (h : Represents file scopes (scope :: env)) {name : String} {id other : DeclId}
    (hinsert : scopes.insert? name id = some changed) (hother : other ∈ scope) :
    ¬file.isNamed name other = true := by
  obtain ⟨table, htable, rfl⟩ := Scopes.eq_of_insert? hinsert
  cases h with
  | cons hfirst _ =>
    have hfree := (SymbolTable.find?_of_insert? htable).1
    rw [hfirst] at hfree
    exact List.find?_eq_none.mp hfree other hother

end Represents

/-- What is visible is declared in one of the scopes and has the name. -/
theorem SourceFile.mem_of_visible? {name : String} {id : DeclId} (h : file.visible? env name = some id) :
    id ∈ env.flatten ∧ ∃ d, file.decl? id = some d := by
  obtain ⟨scope, hscope, hfind⟩ := List.exists_of_findSome?_eq_some h
  obtain ⟨d, hd, -⟩ := isNamed_iff.mp (List.find?_some hfind)
  exact ⟨List.mem_flatten.mpr ⟨scope, hscope, List.mem_of_find?_eq_some hfind⟩, d, hd⟩

end Tables

namespace SourceFile

variable {file : SourceFile}

/-- A declaration names another one in a declaration statement. -/
def Declares (file : SourceFile) (t u : DeclId) : Prop := ∃ d, file.decl? t = some d ∧ u ∈ d.kind.ids

/-- What a declaration declares is a position that the file names. -/
theorem Declares.mem_ids {t u : DeclId} (h : file.Declares t u) : u ∈ file.ids := by
  obtain ⟨d, hd, hu⟩ := h
  exact List.mem_append_right _ (List.mem_flatMap.mpr ⟨d, List.mem_of_getElem? hd, hu⟩)

section Unique

variable (hunique : file.ids.Nodup)

include hunique

/-- An item is not declared anywhere else. -/
theorem not_declares_item {t u : DeclId} (hu : u ∈ file.items) : ¬file.Declares t u := by
  rintro ⟨d, hd, hmem⟩
  have hdisjoint := (List.nodup_append'.mp hunique).2.2
  exact hdisjoint hu (List.mem_flatMap.mpr ⟨d, List.mem_of_getElem? hd, hmem⟩)

/-- A declaration is declared in one other declaration. -/
theorem Declares.owner_unique {t t' u : DeclId} (h : file.Declares t u) (h' : file.Declares t' u) : t = t' := by
  obtain ⟨d, hd, hmem⟩ := h
  obtain ⟨d', hd', hmem'⟩ := h'
  have hpairwise := (List.nodup_flatMap.mp (List.nodup_append'.mp hunique).2.1).2
  have hlt {i j : DeclId} {a b : Declaration} (ha : file.decl? i = some a) (hb : file.decl? j = some b)
      (hua : u ∈ a.kind.ids) (hub : u ∈ b.kind.ids) : ¬i < j := by
    intro hij
    obtain ⟨hi, rfl⟩ := List.getElem?_eq_some_iff.mp ha
    obtain ⟨hj, rfl⟩ := List.getElem?_eq_some_iff.mp hb
    exact List.pairwise_iff_getElem.mp hpairwise i j hi hj hij hua hub
  exact Nat.le_antisymm (Nat.le_of_not_lt (hlt hd' hd hmem' hmem)) (Nat.le_of_not_lt (hlt hd hd' hmem hmem'))

/-- A declaration names another one once. -/
theorem nodup_kind_ids {t : DeclId} {d : Declaration} (hd : file.decl? t = some d) : d.kind.ids.Nodup :=
  (List.nodup_flatMap.mp (List.nodup_append'.mp hunique).2.1).1 d (List.mem_of_getElem? hd)

end Unique

end SourceFile

/-- A declaration node names a position of its owner. -/
theorem mem_ids_of_mem_nodes {env inner : Env} {kind : DeclKind} {id : DeclId} {span : Span}
    (h : (inner, .declaration id span) ∈ kind.nodes env) : id ∈ kind.ids :=
  (kind.nodeIds_nodes env).subset (List.mem_filterMap.mpr ⟨_, h, rfl⟩)

/-- Where a position is named once, there is one environment. -/
theorem inner_unique {nodes : List (Env × LexicalNode)} (hnodup : (nodeIds nodes).Nodup) {inner inner' : Env}
    {id : DeclId} {span span' : Span} (h : (inner, .declaration id span) ∈ nodes)
    (h' : (inner', .declaration id span') ∈ nodes) : inner = inner' := by
  have hmem {place : Env} {s : Span} {rest : List (Env × LexicalNode)} (hm : (place, .declaration id s) ∈ rest) :
      id ∈ nodeIds rest := List.mem_filterMap.mpr ⟨_, hm, rfl⟩
  induction nodes with
  | nil => simp at h
  | cons node rest ih =>
    have hrest : (nodeIds rest).Nodup := by
      rw [show node :: rest = [node] ++ rest from rfl, nodeIds_append] at hnodup
      exact (List.nodup_append'.mp hnodup).2.1
    rcases List.mem_cons.mp h with rfl | hin
    · rcases List.mem_cons.mp h' with heq | hin'
      · exact (Prod.mk.inj heq).1.symm
      · exact absurd (hmem hin') (List.nodup_cons.mp hnodup).1
    · rcases List.mem_cons.mp h' with rfl | hin'
      · exact absurd (hmem hin) (List.nodup_cons.mp hnodup).1
      · exact ih hrest hin hin'

namespace Reached

variable {file : SourceFile} {env env' : Env} {id : DeclId}

/-- A declaration that is reached has one environment. -/
theorem env_unique (hunique : file.ids.Nodup) (h : Reached file env id) (h' : Reached file env' id) : env = env' := by
  induction h generalizing env' with
  | item hitem =>
    cases h' with
    | item _ => rfl
    | nested _ hdecl hnode =>
      exact absurd ⟨_, hdecl, mem_ids_of_mem_nodes hnode⟩ (SourceFile.not_declares_item hunique hitem)
  | nested howner hdecl hnode ih =>
    cases h' with
    | item hitem => exact absurd ⟨_, hdecl, mem_ids_of_mem_nodes hnode⟩ (SourceFile.not_declares_item hunique hitem)
    | nested howner' hdecl' hnode' =>
      obtain rfl := SourceFile.Declares.owner_unique hunique ⟨_, hdecl, mem_ids_of_mem_nodes hnode⟩
        ⟨_, hdecl', mem_ids_of_mem_nodes hnode'⟩
      obtain rfl := Option.some_inj.mp (hdecl.symm.trans hdecl')
      obtain rfl := ih howner'
      exact inner_unique ((SourceFile.nodup_kind_ids hunique hdecl).sublist (DeclKind.nodeIds_nodes _ _)) hnode hnode'

/-- A declaration that is reached does not declare itself through others. -/
theorem not_declares_itself (hunique : file.ids.Nodup) (h : Reached file env id) : ¬TransGen file.Declares id id := by
  induction h with
  | item hitem =>
    intro hcycle
    obtain ⟨t, -, hlast⟩ := TransGen.tail'_iff.mp hcycle
    exact SourceFile.not_declares_item hunique hitem hlast
  | @nested env inner owner id d span howner hdecl hnode ih =>
    intro hcycle
    have hdeclares : file.Declares owner id := ⟨d, hdecl, mem_ids_of_mem_nodes hnode⟩
    obtain ⟨t, hback, hlast⟩ := TransGen.tail'_iff.mp hcycle
    obtain rfl := SourceFile.Declares.owner_unique hunique hlast hdeclares
    exact ih (TransGen.head' hdeclares hback)

end Reached

end DeclTree

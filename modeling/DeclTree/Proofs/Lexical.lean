import DeclTree.Proofs.Linking

/-!
# Links and errors of a resolved file

The two statements about a whole file whose declarations are each named at most once. If the file is resolved, every
named type that is reached from the items is linked to the record that lexical scoping gives its name, although types
are resolved with the tables of whatever mentions them first. If it is not, the file has the defect that is reported.
-/

namespace DeclTree

variable {hash : String → Nat}

/-- An outcome is a state and a result. -/
theorem Outcome.exists_eq {σ : Type} {outcome : Outcome σ} {result : Option Error} (h : outcome.2 = result) :
    ∃ state, outcome = (state, result) := ⟨outcome.1, by rw [← h]⟩

section File

variable {p : Progress} (hrange : ∀ id ∈ p.file.ids, id < p.file.declarations.length)
  (huntouched : ∀ d ∈ p.file.declarations, d.mark = .untouched) (hunique : p.file.ids.Nodup)

include hrange huntouched hunique

/-- Resolving a file links what it closes as lexical scoping says, or its error is a defect. -/
theorem resolveFile_links (hash : String → Nat) :
    (resolveFile hash p).Meets (fun p' => Linked p.file p'.file) fun _ error => Defect p.file error := by
  have hitems (id : DeclId) (hid : id ∈ p.file.items) : id < p.file.declarations.length :=
    hrange id (List.mem_append_left _ hid)
  refine (resolveFile_meets (fun done scopes => Represents p.file scopes [done])
    (fun scopes now => Represents p.file scopes [p.file.items] ∧ Linked p.file now)
    hitems huntouched (.root _) ?_ ?_ ?_).imp ?_ fun _ _ h => h
  · intro done id rest scopes d hsplit hdecl hbound
    refine ⟨fun hname => ?_, fun hinsert => ?_, fun changed hinsert => hbound.insert hdecl hinsert⟩
    · exact .nameless (.item (by simp [hsplit])) hdecl hname
    · obtain ⟨other, hother, hname⟩ := hbound.exists_of_insert_none hdecl hinsert
      exact .repeatedItem hsplit hother hdecl hname
  · intro scopes hbound
    have hnone (id : DeclId) (d : Declaration) (hdecl : p.file.decl? id = some d) : d.mark ≠ .closed := by
      simp [huntouched d (List.mem_of_getElem? hdecl)]
    exact ⟨hbound, rfl, fun id d hdecl hmark => absurd hmark (hnone id d hdecl),
      fun id d hdecl hmark => absurd hmark (hnone id d hdecl)⟩
  · rintro scopes done id rest q hsplit hbetween ⟨hbound, hlinked⟩
    have hitem : id ∈ p.file.items := SourceFile.mem_items_of_resolutionOrder (hsplit ▸ by simp)
    have hready : Ready p.file q.file [p.file.items] id := by
      obtain ⟨d, hdecl⟩ := SourceFile.exists_decl? (hitems id hitem)
      cases hvariable : d.isVariable with
      | false => exact .inl ⟨rfl, d, hdecl, hvariable⟩
      | true =>
        -- The types among the items come before the variables.
        refine .inr fun t ht htype => .inl ?_
        obtain ⟨e, he, htype⟩ := htype
        have hdone := SourceFile.types_before_values hsplit hdecl hvariable (by simpa using ht) he htype
        exact ⟨.closed, hbetween.closed t hdone, by decide⟩
    have hvisit := resolve_meets (visit_links hunique hrange) scopes id q
      ⟨[p.file.items], hlinked, hitems id hitem, hbound, fun t ht => absurd ht (hbetween.opened t),
        fun _ => .item hitem, fun _ => hready⟩
    exact hvisit.imp (fun _ h => ⟨hbound, h⟩) fun _ _ h => h
  · rintro p' ⟨-, scopes, -, hlinked⟩
    exact hlinked

end File

/-- Everything that is reached from the items of a resolved file is closed. -/
theorem Reached.closed {file now : SourceFile} (hresolved : Resolved file now) {env : Env} {id : DeclId}
    (h : Reached file env id) : now.mark? id = some .closed := by
  induction h with
  | item hitem => exact hresolved.closed _ hitem
  | nested howner hdecl hnode ih =>
    obtain ⟨e, he, hmark⟩ := SourceFile.mark?_eq_some.mp ih
    obtain ⟨⟨plan, hplan, hcarried⟩, -⟩ := hresolved.settled _ e he hmark
    rw [Declaration.plan?_of_cleared_eq (SourceFile.cleared_eq_of_decl? hresolved.cleared hdecl he)] at hplan
    exact (hcarried _ (Declaration.mem_plan_of_node hplan hnode (List.mem_singleton_self _))).2 _ rfl

/-- Resolution links along lexical scopes. Resolving a file whose positions are in range and named at most once, and in
which nothing has been opened, changes links and marks only. If it succeeds, then in every declaration that is reached
from the items each named type is linked to the record that its name stands for where it is written; no construct that
is refused is reached, and no enumeration or sum. -/
theorem links_follow_lexical_scoping {p p' : Progress} (hrange : ∀ id ∈ p.file.ids, id < p.file.declarations.length)
    (huntouched : ∀ d ∈ p.file.declarations, d.mark = .untouched) (hunique : p.file.ids.Nodup)
    (hresolve : resolveFile hash p = (p', none)) :
    p'.file.cleared = p.file.cleared ∧
    ∀ env id, Reached p.file env id → ∃ d, p'.file.decl? id = some d ∧
      (∀ inner name reach link, (inner, .named name reach link) ∈ d.kind.nodes env →
        ∃ target e kind members, link = some target ∧ p.file.visible? inner name.name = some target ∧
          p.file.decl? target = some e ∧ e.kind = .record kind members) ∧
      (∀ inner construct span, (inner, .refused construct span) ∉ d.kind.nodes env) ∧
      (∀ members, d.kind ≠ .enumeration members) ∧ ∀ members, d.kind ≠ .sum members := by
  have hlinked := resolveFile_links hrange huntouched hunique hash
  have hresolved := resolveFile_settles hash (fun id hid => hrange id (List.mem_append_left _ hid)) huntouched
  rw [hresolve] at hlinked hresolved
  refine ⟨hlinked.cleared, fun env id hreached => ?_⟩
  obtain ⟨d, hdecl, hmark⟩ := SourceFile.mark?_eq_some.mp (hreached.closed hresolved)
  obtain ⟨⟨plan, hplan, hcarried⟩, htargets⟩ := hresolved.settled id d hdecl hmark
  obtain ⟨home, hhome, hfits⟩ := hlinked.fits id d hdecl hmark
  obtain rfl := hhome.env_unique hunique hreached
  refine ⟨d, hdecl, fun inner name reach link hnode => ?_, fun inner construct span hnode => ?_, ?_, ?_⟩
  · obtain ⟨target, rfl, hvisible⟩ := hfits inner name reach link hnode
    have hlink : some target ∈ d.links := by
      rw [Declaration.links, ← DeclKind.nodeLinks_nodes home]
      exact List.mem_filterMap.mpr ⟨_, hnode, rfl⟩
    obtain ⟨_, ⟨rfl⟩, htarget⟩ := htargets _ hlink
    obtain ⟨e, kind, members, he, hkind⟩ := hresolved.record_of_isTarget htarget
    exact ⟨target, e, kind, members, rfl, hvisible, he, hkind⟩
  · exact (hcarried _ (Declaration.mem_plan_of_node hplan hnode (List.mem_singleton_self _))).1 _ rfl
  · intro members hkind
    simp [Declaration.plan?, hkind] at hplan
  · intro members hkind
    simp [Declaration.plan?, hkind] at hplan

/-- A function whose body declares a record with the name of an item, and then a variable of that type. -/
def shadowing : SourceFile :=
  let here := Span.nowhere
  let named := TypeExpr.named ⟨"T", here⟩ none
  ⟨[⟨⟨"T", here⟩, .record .struct [], here, .untouched⟩,
    ⟨⟨"f", here⟩, .constant none (.function ⟨[⟨⟨"a", here⟩, .pointer named here, here⟩], named, here⟩
      (.block [.statement (.declaration 2 here), .statement (.declaration 3 here)] here) here), here, .untouched⟩,
    ⟨⟨"T", here⟩, .record .union [⟨⟨"next", here⟩, .pointer named here, here⟩], here, .untouched⟩,
    ⟨⟨"x", here⟩, .mutable named none, here, .untouched⟩], [0, 1]⟩

/-- The name that is shadowed is linked to the record of the body. -/
theorem shadowing_links : ∃ p', resolveFile nameHash ⟨shadowing, []⟩ = (p', none) ∧
    shadowing.visible? [[2, 3], [], [0, 1]] "T" = some 2 ∧
    ∃ d, p'.file.decl? 3 = some d ∧
      ∀ inner name reach link, (inner, .named name reach link) ∈ d.kind.nodes [[2, 3], [], [0, 1]] →
        ∃ target, link = some target ∧ shadowing.visible? inner name.name = some target := by
  obtain ⟨p', hresolve⟩ := Outcome.exists_eq (show (resolveFile nameHash ⟨shadowing, []⟩).2 = none by decide +kernel)
  have hreached : Reached shadowing [[2, 3], [], [0, 1]] 3 := by
    have hitem : Reached shadowing [[0, 1]] 1 := .item (by decide)
    refine .nested hitem rfl (show (_, LexicalNode.declaration 3 .nowhere) ∈ _ from ?_)
    simp [DeclKind.nodes, Expr.nodes, Signature.nodes, Scope.nodes, Scope.listNodes, Stmt.nodes, Scope.declares,
      Stmt.declares, Env.declare]
  obtain ⟨-, hlinks⟩ := links_follow_lexical_scoping (p := ⟨shadowing, []⟩) (by decide) (by simp [shadowing])
    (by decide) hresolve
  obtain ⟨d, hdecl, hnodes, -⟩ := hlinks _ _ hreached
  refine ⟨p', hresolve, by decide +kernel, d, hdecl, fun inner name reach link hnode => ?_⟩
  obtain ⟨target, -, -, -, hlink, hvisible, -⟩ := hnodes inner name reach link hnode
  exact ⟨target, hlink, hvisible⟩

/-- There are no false alarms. If resolving a file whose positions are in range and named at most once, and in which
nothing has been opened, ends in an error, then the file has the defect that the error reports, where it reports it. -/
theorem errors_are_defects {p p' : Progress} {error : Error}
    (hrange : ∀ id ∈ p.file.ids, id < p.file.declarations.length)
    (huntouched : ∀ d ∈ p.file.declarations, d.mark = .untouched) (hunique : p.file.ids.Nodup)
    (hresolve : resolveFile hash p = (p', some error)) : Defect p.file error := by
  have hdefect := resolveFile_links hrange huntouched hunique hash
  rw [hresolve] at hdefect
  exact hdefect

/-- A function whose body declares a record in an inner block and names it after the block. -/
def escaping : SourceFile :=
  let here := Span.nowhere
  ⟨[⟨⟨"f", here⟩, .constant none (.function ⟨[], .primitive .void here, here⟩
      (.block [.block [.statement (.declaration 1 here)] here, .statement (.declaration 2 here)] here) here), here,
      .untouched⟩,
    ⟨⟨"S", here⟩, .record .struct [], here, .untouched⟩,
    ⟨⟨"y", here⟩, .mutable (.named ⟨"S", here⟩ none) none, here, .untouched⟩], [0]⟩

/-- The name is reported where it is written, and nothing of the name is visible there. -/
theorem escaping_defect : ∃ p', resolveFile nameHash ⟨escaping, []⟩ = (p', some (.unknownType "S" .nowhere)) ∧
    Defect escaping (.unknownType "S" .nowhere) := by
  obtain ⟨p', hresolve⟩ := Outcome.exists_eq
    (show (resolveFile nameHash ⟨escaping, []⟩).2 = some (.unknownType "S" .nowhere) by decide +kernel)
  exact ⟨p', hresolve, errors_are_defects (p := ⟨escaping, []⟩) (by decide) (by simp [escaping]) (by decide) hresolve⟩

end DeclTree

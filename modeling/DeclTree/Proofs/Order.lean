import DeclTree.Proofs.Agreement
import DeclTree.Proofs.Completeness
import DeclTree.Proofs.Shifting
import DeclTree.Proofs.Sufficiency
import Mathlib.Data.List.Pairwise

/-!
# The order of the items

Whether a file is resolved, and with which links, does not depend on the order of its items: the defects of a file and
what its names stand for do not, once the names of the items are distinct, and a resolved file is determined by them.
Only which error is reported first depends on the order, and not even that if the types come in the same order among
themselves, and so do the variables.
-/

namespace DeclTree

open Relation (TransGen)

variable {hash : String → Nat}

/-- No two items have the same name. -/
theorem SourceFile.Bindable.eq_of_isNamed {file : SourceFile} (h : file.Bindable) {id other : DeclId} {name : String}
    (hid : id ∈ file.items) (hother : other ∈ file.items) (hname : file.isNamed name id = true)
    (hname' : file.isNamed name other = true) : id = other := by
  obtain ⟨d, hd, rfl⟩ := isNamed_iff.mp hname
  obtain ⟨e, he, hsame⟩ := isNamed_iff.mp hname'
  have hsymm : Std.Symm fun other id => ¬file.SameName id other := ⟨fun _ _ hne hsame => hne hsame.symm⟩
  by_contra hne
  exact h.distinct.forall hother hid (Ne.symm hne) ⟨d, e, hd, he, hsame⟩

/-- Files with the same arena and the same items, in any order. -/
structure Rearranged (first second : SourceFile) : Prop where
  arena : second.declarations = first.declarations
  items : second.items.Perm first.items

namespace Rearranged

variable {first second : SourceFile} (h : Rearranged first second)

include h

/-- Rearranging goes both ways. -/
theorem symm : Rearranged second first := ⟨h.arena.symm, h.items.symm⟩

/-- Rearranging the items keeps the declaration at each position. -/
theorem decl?_eq (id : DeclId) : second.decl? id = first.decl? id := by
  rw [SourceFile.decl?, SourceFile.decl?, h.arena]

/-- Rearranging the items keeps all names. -/
theorem isNamed_eq (name : String) : second.isNamed name = first.isNamed name := by
  funext id
  rw [SourceFile.isNamed, SourceFile.isNamed, h.decl?_eq]

/-- Rearranging the items rearranges the positions that a file names. -/
theorem ids_perm : second.ids.Perm first.ids := by
  rw [SourceFile.ids, SourceFile.ids, h.arena]
  exact h.items.append_right _

/-- Rearranging the items keeps the positions that a file names in its arena. -/
theorem range (hrange : ∀ id ∈ first.ids, id < first.declarations.length) :
    ∀ id ∈ second.ids, id < second.declarations.length := by
  intro id hid
  rw [h.arena]
  exact hrange id (h.ids_perm.mem_iff.mp hid)

/-- Rearranging the items keeps declarations of the same name so. -/
theorem sameName {id other : DeclId} (hsame : first.SameName id other) : second.SameName id other := by
  obtain ⟨d, e, hd, he, hname⟩ := hsame
  exact ⟨d, e, (h.decl?_eq id).trans hd, (h.decl?_eq other).trans he, hname⟩

/-- Rearranging the items keeps them fit to be bound. -/
theorem bindable (hbindable : first.Bindable) : second.Bindable where
  named id hid d hdecl := hbindable.named id (h.items.mem_iff.mp hid) d ((h.decl?_eq id).symm.trans hdecl)
  distinct := by
    refine (h.items.pairwise_iff fun hne hsame => hne hsame.symm).mpr (hbindable.distinct.imp fun hne hsame => ?_)
    exact hne (h.symm.sameName hsame)

/-- Items with distinct names are found in any order. -/
theorem find_eq (hbindable : first.Bindable) (name : String) :
    second.items.find? (second.isNamed name) = first.items.find? (first.isNamed name) := by
  rw [h.isNamed_eq]
  cases hfirst : first.items.find? (first.isNamed name) with
  | none =>
    rw [List.find?_eq_none] at hfirst ⊢
    exact fun id hid => hfirst id (h.items.mem_iff.mp hid)
  | some id =>
    have hid := List.mem_of_find?_eq_some hfirst
    cases hsecond : second.items.find? (first.isNamed name) with
    | none => exact absurd (List.find?_some hfirst) (List.find?_eq_none.mp hsecond id (h.items.mem_iff.mpr hid))
    | some other =>
      have hother := h.items.mem_iff.mp (List.mem_of_find?_eq_some hsecond)
      rw [hbindable.eq_of_isNamed hother hid (List.find?_some hsecond) (List.find?_some hfirst)]

/-- Names stand for the same declarations, in any environment of the file. -/
theorem visible_eq (hbindable : first.Bindable) (own : Env) (name : String) :
    second.visible? (own ++ [second.items]) name = first.visible? (own ++ [first.items]) name := by
  have hfind := h.find_eq hbindable name
  rw [SourceFile.visible?, SourceFile.visible?, List.findSome?_append, List.findSome?_append]
  rw [h.isNamed_eq] at hfind ⊢
  rw [List.findSome?_cons, List.findSome?_cons, hfind]

/-- A table that answers for the items answers for them in any order. -/
theorem represents (hbindable : first.Bindable) {scopes : Scopes hash}
    (hbound : Represents second scopes [second.items]) : Represents first scopes [first.items] := by
  cases hbound with
  | cons hanswers hrest =>
    refine .cons (fun name => (hanswers name).trans (h.find_eq hbindable name)) (hrest.imp fun _ _ hscope name => ?_)
    rw [hscope name, h.isNamed_eq]

/-- The same declarations are reached; only the outermost scope of their environments differs. -/
theorem reached {env : Env} {id : DeclId} (hreached : Reached first env id) :
    ∃ own, env = own ++ [first.items] ∧ Reached second (own ++ [second.items]) id := by
  induction hreached with
  | item hitem => exact ⟨[], rfl, .item (h.items.mem_iff.mpr hitem)⟩
  | nested _ hdecl hnode ih =>
    obtain ⟨own, rfl, howner⟩ := ih
    obtain ⟨inside, rfl, hmem⟩ := DeclKind.mem_nodes_iff.mp hnode
    have hnode' := DeclKind.mem_nodes_iff.mpr ⟨inside, (List.append_assoc inside own [second.items]), hmem⟩
    exact ⟨inside ++ own, by simp, .nested howner ((h.decl?_eq _).trans hdecl) hnode'⟩

/-- The same nodes are found, declaration statements not in the outermost scope. -/
theorem hasNode {inner : Env} {node : LexicalNode} (hnode : first.HasNode inner node) :
    ∃ own, inner = own ++ [first.items] ∧ second.HasNode (own ++ [second.items]) node ∧
      ∀ id span, node = .declaration id span → own ≠ [] := by
  obtain ⟨env, owner, d, hreached, hdecl, hmem⟩ := hnode
  obtain ⟨own, rfl, howner⟩ := h.reached hreached
  obtain ⟨inside, rfl, hinside⟩ := DeclKind.mem_nodes_iff.mp hmem
  refine ⟨inside ++ own, by simp, ⟨_, owner, d, howner, (h.decl?_eq _).trans hdecl, ?_⟩, ?_⟩
  · exact DeclKind.mem_nodes_iff.mpr ⟨inside, by simp, hinside⟩
  · rintro id span rfl hnil
    exact Declaration.ne_nil_of_declaration hinside (List.append_eq_nil_iff.mp hnil).1

/-- Rearranging the items keeps which type contains which, if the items can be bound. -/
theorem contains (hbindable : first.Bindable) {t u : DeclId} (hcontains : first.Contains t u) :
    second.Contains t u := by
  obtain ⟨env, hreached, d, kind, members, hdecl, hkind, slot, hslot, name, hstored, hvisible⟩ := hcontains
  obtain ⟨own, rfl, hreached'⟩ := h.reached hreached
  exact ⟨_, hreached', d, kind, members, (h.decl?_eq t).trans hdecl, hkind, slot, hslot, name, hstored,
    (h.visible_eq hbindable own _).trans hvisible⟩

/-- Defects do not depend on the order of items whose names are distinct. -/
theorem defect (hbindable : first.Bindable) {error : Error} (hdefect : Defect first error) : Defect second error := by
  cases hdefect with
  | nameless hreached hdecl hname =>
    obtain ⟨own, -, hreached'⟩ := h.reached hreached
    exact .nameless hreached' ((h.decl?_eq _).trans hdecl) hname
  | repeatedItem hsplit hother hdecl hname =>
    have hdistinct := hbindable.distinct
    rw [hsplit] at hdistinct
    exact absurd hname ((List.pairwise_append.mp hdistinct).2.2 _ hother _ List.mem_cons_self)
  | @repeatedLocal before outer id other d span hnode hother hdecl hname =>
    obtain ⟨own, hinner, hnode', hne⟩ := h.hasNode hnode
    -- The scope of the declaration is not that of the items.
    cases own with
    | nil => exact absurd rfl (hne id span rfl)
    | cons scope own =>
      obtain ⟨rfl, -⟩ := List.cons.inj hinner
      exact .repeatedLocal hnode' hother ((h.decl?_eq _).trans hdecl) (h.sameName hname)
  | repeatedParameter hnode hrepeated =>
    obtain ⟨own, -, hnode', -⟩ := h.hasNode hnode
    exact .repeatedParameter hnode' hrepeated
  | shadowedParameter hnode hslot hlocal hdecl hname =>
    obtain ⟨own, -, hnode', -⟩ := h.hasNode hnode
    exact .shadowedParameter hnode' hslot hlocal ((h.decl?_eq _).trans hdecl) hname
  | unknownType hnode hvisible =>
    obtain ⟨own, rfl, hnode', -⟩ := h.hasNode hnode
    exact .unknownType hnode' ((h.visible_eq hbindable own _).trans hvisible)
  | notAType hnode hvisible hdecl hvariable =>
    obtain ⟨own, rfl, hnode', -⟩ := h.hasNode hnode
    exact .notAType hnode' ((h.visible_eq hbindable own _).trans hvisible) ((h.decl?_eq _).trans hdecl) hvariable
  | unsupportedKind hreached hdecl hkind =>
    obtain ⟨own, -, hreached'⟩ := h.reached hreached
    exact .unsupportedKind hreached' ((h.decl?_eq _).trans hdecl) hkind
  | repeatedMember hreached hdecl hkind hrepeated =>
    obtain ⟨own, -, hreached'⟩ := h.reached hreached
    exact .repeatedMember hreached' ((h.decl?_eq _).trans hdecl) hkind hrepeated
  | cycle hreached hdecl hcycle =>
    obtain ⟨own, -, hreached'⟩ := h.reached hreached
    exact .cycle hreached' ((h.decl?_eq _).trans hdecl) (TransGen.mono (fun _ _ => h.contains hbindable) _ _ hcycle)
  | refused hnode =>
    obtain ⟨own, -, hnode', -⟩ := h.hasNode hnode
    exact .refused hnode'

/-- A file is resolved in any order of its items, or in none. -/
theorem resolve_none (hrange : ∀ id ∈ first.ids, id < first.declarations.length)
    (huntouched : ∀ d ∈ first.declarations, d.mark = .untouched) (hunique : first.ids.Nodup)
    {events events' : List Event} (hnone : (resolveFile hash ⟨first, events⟩).2 = none) :
    (resolveFile hash ⟨second, events'⟩).2 = none := by
  have huntouched' : ∀ d ∈ second.declarations, d.mark = .untouched := by rwa [h.arena]
  have hends := resolveFile_finishes hash (p := ⟨first, events⟩) hrange huntouched hunique
  obtain ⟨p, hrun⟩ := Outcome.exists_eq hnone
  rw [hrun] at hends
  replace hends : Finished first p.file := hends
  rw [resolveFile_eq_none_iff hash (p := ⟨second, events'⟩) (h.range hrange) huntouched'
    (h.ids_perm.nodup_iff.mpr hunique)]
  intro error hdefect
  exact hends.not_defect hunique error (h.symm.defect (h.bindable hends.bindable) hdefect)

end Rearranged

namespace Finished

variable {file now : SourceFile} (h : Finished file now)

include h

/-- What is closed is what is reached. -/
theorem closed_iff {id : DeclId} : now.mark? id = some .closed ↔ ∃ env, Reached file env id := by
  constructor
  · intro hclosed
    obtain ⟨d, hdecl, hmark⟩ := SourceFile.mark?_eq_some.mp hclosed
    obtain ⟨env, hreached, -⟩ := h.linked.fits id d hdecl hmark
    exact ⟨env, hreached⟩
  · rintro ⟨env, hreached⟩
    exact hreached.closed h.resolved

/-- A declaration is determined by its mark and its links. -/
theorem decl_eq {id : DeclId} {original d : Declaration} (horiginal : file.decl? id = some original)
    (hdecl : now.decl? id = some d) :
    ∃ targets, d = { original with kind := original.kind.fill targets, mark := d.mark } ∧
      (d.mark = .untouched → targets = []) ∧ (d.mark = .closed → d.links = targets.map some) := by
  obtain ⟨past, ledger, hintegrity, rfl⟩ := h.integrity
  obtain ⟨targets, hstanding⟩ := hintegrity.standing id original d horiginal hdecl
  have hcleared := SourceFile.cleared_eq_of_decl? h.resolved.cleared horiginal hdecl
  refine ⟨targets, ?_, hstanding.untouched, fun hmark => (hstanding.links_of_filled (.inl hmark)).2⟩
  rw [← hstanding.kind, ← Declaration.name_of_cleared_eq hcleared, ← Declaration.span_of_cleared_eq hcleared]

/-- The links of a declaration that is reached are what its names stand for. -/
theorem links_eq (hunique : file.ids.Nodup) {env : Env} {id : DeclId} {original d : Declaration}
    (hreached : Reached file env id) (horiginal : file.decl? id = some original) (hdecl : now.decl? id = some d) :
    d.links = (nodeSites (original.kind.nodes [])).map fun site =>
      file.visible? (site.env ++ env) site.name.name := by
  obtain ⟨e, plan, he, -, hplan, heplan, -, -, hfits⟩ := hreached.carried hunique h horiginal
  obtain rfl := Option.some_inj.mp (he.symm.trans hdecl)
  have hanswer : ∀ inner name reach link, (inner, .named name reach link) ∈ e.kind.nodes env →
      link = file.visible? inner name.name := by
    intro inner name reach link hnode
    obtain ⟨target, rfl, hvisible⟩ := hfits inner name reach link hnode
    exact hvisible.symm
  calc e.links = nodeLinks (e.kind.nodes env) := (DeclKind.nodeLinks_nodes env e.kind).symm
    _ = (nodeSites (e.kind.nodes env)).map fun site => file.visible? site.env site.name.name :=
      nodeLinks_eq_map hanswer
    _ = (nodeSites (original.kind.nodes env)).map fun site => file.visible? site.env site.name.name := by
      rw [← Declaration.linkSites_plan env heplan, Declaration.linkSites_plan env hplan]
    _ = _ := by rw [DeclKind.nodes_eq_map env, nodeSites_within, List.map_map]; rfl

end Finished

namespace Rearranged

variable {first second : SourceFile} (h : Rearranged first second)

include h

/-- Resolution leaves the same marks in any order of the items. -/
theorem mark_eq {now later : SourceFile} (hfirst : Finished first now) (hsecond : Finished second later) {id : DeclId}
    {d e : Declaration} (hd : now.decl? id = some d) (he : later.decl? id = some e) : e.mark = d.mark := by
  have hclosed : later.mark? id = some .closed ↔ now.mark? id = some .closed := by
    rw [hfirst.closed_iff, hsecond.closed_iff]
    constructor
    · rintro ⟨env, hreached⟩
      obtain ⟨own, -, hreached'⟩ := h.symm.reached hreached
      exact ⟨_, hreached'⟩
    · rintro ⟨env, hreached⟩
      obtain ⟨own, -, hreached'⟩ := h.reached hreached
      exact ⟨_, hreached'⟩
  have hopened := hfirst.resolved.opened id
  have hopened' := hsecond.resolved.opened id
  simp only [SourceFile.mark?, hd, he, Option.map_some, Option.some_inj, ne_eq] at hclosed hopened hopened'
  cases hdmark : d.mark <;> cases hemark : e.mark <;> simp_all

/-- Resolution leaves the same arena in any order of the items. -/
theorem declarations_eq {now later : SourceFile} (hunique : first.ids.Nodup) (hfirst : Finished first now)
    (hsecond : Finished second later) : later.declarations = now.declarations := by
  apply List.ext_getElem?
  intro id
  change later.decl? id = now.decl? id
  cases horiginal : first.decl? id with
  | none =>
    rw [SourceFile.decl?_eq_none_of_cleared_eq hfirst.resolved.cleared horiginal,
      SourceFile.decl?_eq_none_of_cleared_eq hsecond.resolved.cleared ((h.decl?_eq id).trans horiginal)]
  | some original =>
    have horiginal' := (h.decl?_eq id).trans horiginal
    obtain ⟨d, hd, -⟩ := SourceFile.decl?_of_cleared_eq hfirst.resolved.cleared horiginal
    obtain ⟨e, he, -⟩ := SourceFile.decl?_of_cleared_eq hsecond.resolved.cleared horiginal'
    obtain ⟨targets, hdeq, huntouched, hlinks⟩ := hfirst.decl_eq horiginal hd
    obtain ⟨targets', heeq, huntouched', hlinks'⟩ := hsecond.decl_eq horiginal' he
    have hmarks := h.mark_eq hfirst hsecond hd he
    have htargets : targets' = targets := by
      cases hmark : d.mark with
      | opened => exact absurd (SourceFile.mark?_eq_some.mpr ⟨d, hd, hmark⟩) (hfirst.resolved.opened id)
      | untouched => rw [huntouched hmark, huntouched' (hmarks.trans hmark)]
      | closed =>
        obtain ⟨env, hreached⟩ := hfirst.closed_iff.mp (SourceFile.mark?_eq_some.mpr ⟨d, hd, hmark⟩)
        obtain ⟨own, rfl, hreached'⟩ := h.reached hreached
        apply List.map_injective_iff.mpr (Option.some_injective _)
        rw [← hlinks hmark, ← hlinks' (hmarks.trans hmark), hfirst.links_eq hunique hreached horiginal hd,
          hsecond.links_eq (h.ids_perm.nodup_iff.mpr hunique) hreached' horiginal' he]
        simp only [← List.append_assoc, h.visible_eq hfirst.bindable]
    have heq : e = d := by
      calc e = { original with kind := original.kind.fill targets', mark := e.mark } := heeq
        _ = { original with kind := original.kind.fill targets, mark := d.mark } := by rw [hmarks, htargets]
        _ = d := hdeq.symm
    rw [hd, he, heq]

/-- If the types come in the same order among themselves, and so do the variables, then resolution ends in the same
way, unless the items cannot be bound. -/
theorem resolveFile_agrees (hash : String → Nat) (hrange : ∀ id ∈ first.items, id < first.declarations.length)
    (horder : second.resolutionOrder = first.resolutionOrder) :
    (resolveFile hash ⟨first, []⟩).Agree Progress.Agree (resolveFile hash ⟨second, []⟩) ∨
    ∃ error error', error.IsBinding ∧ error'.IsBinding ∧
      (declareAll first.items (.root hash) ⟨first, []⟩).2 = some error ∧
      (resolveFile hash ⟨first, []⟩).2 = some error ∧
      (declareAll second.items (.root hash) ⟨second, []⟩).2 = some error' ∧
      (resolveFile hash ⟨second, []⟩).2 = some error' := by
  have hrange' : ∀ id ∈ second.items, id < second.declarations.length := by
    intro id hid
    rw [h.arena]
    exact hrange id (h.items.mem_iff.mp hid)
  rcases resolveFile_cases hash (p := ⟨first, []⟩) hrange with
    ⟨hbindable, scopes, p, hbound, hfile, hrun⟩ | ⟨hunbound, error, herror, hbind, hrun⟩
  · rcases resolveFile_cases hash (p := ⟨second, []⟩) hrange' with
      ⟨-, scopes', q, hbound', hfile', hrun'⟩ | ⟨hunbound', -⟩
    · have hprogress : p.Agree q := by
        rw [Progress.Agree, hfile, hfile']
        exact h.arena
      rw [hrun, hrun']
      dsimp only
      rw [horder]
      exact .inl (resolveAll_respects (hbound.agree (h.represents hbindable hbound')) _ hprogress)
    · exact absurd (h.bindable hbindable) hunbound'
  · rcases resolveFile_cases hash (p := ⟨second, []⟩) hrange' with ⟨hbindable', -⟩ | ⟨-, error', herror', hbind', hrun'⟩
    · exact absurd (h.symm.bindable hbindable') hunbound
    · exact .inr ⟨error, error', herror, herror', hbind, hrun, hbind', hrun'⟩

end Rearranged

/-- What is emitted is what is resolved, in the same order. -/
theorem Lowering.emissionOrder_eq (file : SourceFile) :
    Lowering.emissionOrder file = file.resolutionOrder.filterMap file.decl? := by
  have hentries (entries : List (DeclId × Declaration)) (h : ∀ entry ∈ entries, entry ∈ file.topLevel) :
      (entries.map Prod.fst).filterMap file.decl? = entries.map Prod.snd := by
    rw [List.filterMap_map]
    refine List.filterMap_eq_map_iff_forall_eq_some.mpr fun entry hentry => ?_
    obtain ⟨id, -, hpair⟩ := List.mem_filterMap.mp (h entry hentry)
    obtain ⟨d, hd, rfl⟩ := Option.map_eq_some_iff.mp hpair
    exact hd
  rw [SourceFile.resolutionOrder, List.partition_eq_filter_filter]
  dsimp only
  rw [hentries _ fun entry hentry => ?_, List.map_append, emissionOrder]
  · rw [List.filter_map, List.filter_map]
    rfl
  · rcases List.mem_append.mp hentry with hentry | hentry
    · exact (List.mem_filter.mp hentry).1
    · exact (List.mem_filter.mp hentry).1

/-- What resolving a file gives is read off the run of the resolver. -/
theorem SourceFile.resolve_eq {file : SourceFile} {p : Progress} {result : Option Error}
    (h : resolveFile hash ⟨file, []⟩ = (p, result)) : file.resolve hash = (p.file, p.events.reverse, result) := by
  rw [SourceFile.resolve, h]

/-- Files that are resolved in the same order and end in the same way are compiled alike. -/
theorem compile_of_agree {first second : SourceFile} (horder : second.resolutionOrder = first.resolutionOrder)
    (hagree : (resolveFile hash ⟨first, []⟩).Agree Progress.Agree (resolveFile hash ⟨second, []⟩)) (banner : Bool) :
    (compile hash second ⟨true, banner⟩).result = (compile hash first ⟨true, banner⟩).result := by
  have hcleared := ((Call.resolveFile : Call hash).advances ⟨first, []⟩).cleared
  have hcleared' := ((Call.resolveFile : Call hash).advances ⟨second, []⟩).cleared
  change (resolveFile hash ⟨first, []⟩).1.file.cleared = first.cleared at hcleared
  change (resolveFile hash ⟨second, []⟩).1.file.cleared = second.cleared at hcleared'
  rcases hrun : resolveFile hash ⟨first, []⟩ with ⟨p, result⟩
  rcases hrun' : resolveFile hash ⟨second, []⟩ with ⟨q, result'⟩
  rw [hrun, hrun'] at hagree
  rw [hrun] at hcleared
  rw [hrun'] at hcleared'
  obtain ⟨rfl, hpq⟩ : result' = result ∧ p.Agree q := hagree
  cases result' with
  | some error =>
    rw [compile_of_resolve_error (SourceFile.resolve_eq hrun), compile_of_resolve_error (SourceFile.resolve_eq hrun')]
  | none =>
    have hemission : Lowering.emissionOrder q.file = Lowering.emissionOrder p.file := by
      rw [Lowering.emissionOrder_eq, Lowering.emissionOrder_eq, SourceFile.resolutionOrder_of_cleared_eq hcleared,
        SourceFile.resolutionOrder_of_cleared_eq hcleared', horder, funext hpq.decl_eq]
    rw [compile_of_resolve (SourceFile.resolve_eq hrun), compile_of_resolve (SourceFile.resolve_eq hrun'),
      generate_of_arena hpq hemission]

/-- The order of the items is immaterial. Let the arena of two files be the same, untouched, with positions that are in
range and named at most once, and let their items be the same up to order. One of them is resolved exactly if the other
one is, and then their declarations end with the same marks and links. If besides the types among the items come in the
same order, and so do the variables, compiling them gives the same text or the same error, unless both fail because
their items cannot be bound. -/
theorem item_order_is_immaterial {first second : SourceFile} (harena : second.declarations = first.declarations)
    (hitems : second.items.Perm first.items) (hrange : ∀ id ∈ first.ids, id < first.declarations.length)
    (huntouched : ∀ d ∈ first.declarations, d.mark = .untouched) (hunique : first.ids.Nodup) :
    ((second.resolve hash).2.2 = none ↔ (first.resolve hash).2.2 = none) ∧
    ((first.resolve hash).2.2 = none → (second.resolve hash).1.declarations = (first.resolve hash).1.declarations) ∧
    (second.items.filter second.isTypeAt = first.items.filter first.isTypeAt →
      second.items.filter second.isValueAt = first.items.filter first.isValueAt → ∀ banner,
      (compile hash second ⟨true, banner⟩).result = (compile hash first ⟨true, banner⟩).result ∨
      ∃ error error', error.IsBinding ∧ error'.IsBinding ∧
        (declareAll first.items (.root hash) ⟨first, []⟩).2 = some error ∧
        (compile hash first ⟨true, banner⟩).result = .error error ∧
        (declareAll second.items (.root hash) ⟨second, []⟩).2 = some error' ∧
        (compile hash second ⟨true, banner⟩).result = .error error') := by
  have h : Rearranged first second := ⟨harena, hitems⟩
  have hrange' := h.range hrange
  have huntouched' : ∀ d ∈ second.declarations, d.mark = .untouched := by rwa [harena]
  have hunique' := h.ids_perm.nodup_iff.mpr hunique
  refine ⟨⟨?_, ?_⟩, fun hnone => ?_, fun htypes hvalues banner => ?_⟩
  · exact h.symm.resolve_none hrange' huntouched' hunique'
  · exact h.resolve_none hrange huntouched hunique
  · have hfirst := resolveFile_finishes hash (p := ⟨first, []⟩) hrange huntouched hunique
    have hsecond := resolveFile_finishes hash (p := ⟨second, []⟩) hrange' huntouched' hunique'
    obtain ⟨p, hrun⟩ := Outcome.exists_eq (show (resolveFile hash ⟨first, []⟩).2 = none from hnone)
    obtain ⟨q, hrun'⟩ := Outcome.exists_eq (h.resolve_none hrange huntouched hunique hnone)
    rw [hrun] at hfirst
    rw [hrun'] at hsecond
    rw [SourceFile.resolve, SourceFile.resolve, hrun, hrun']
    exact h.declarations_eq hunique hfirst hsecond
  · have horder : second.resolutionOrder = first.resolutionOrder := by
      rw [SourceFile.resolutionOrder_eq, SourceFile.resolutionOrder_eq, htypes, hvalues]
    rcases h.resolveFile_agrees hash (fun id hid => hrange id (List.mem_append_left _ hid)) horder with
      hagree | ⟨error, error', herror, herror', hbind, hrun, hbind', hrun'⟩
    · exact .inl (compile_of_agree horder hagree banner)
    · obtain ⟨p, hrun⟩ := Outcome.exists_eq hrun
      obtain ⟨q, hrun'⟩ := Outcome.exists_eq hrun'
      exact .inr ⟨error, error', herror, herror', hbind, compile_of_resolve_error (SourceFile.resolve_eq hrun) banner,
        hbind', compile_of_resolve_error (SourceFile.resolve_eq hrun') banner⟩

/-- A record that holds another one, a variable of its type, and a function with a local variable of its type; the items
stand in a given order. -/
def mixed (items : List DeclId) : SourceFile :=
  let here := Span.nowhere
  let outer := TypeExpr.named ⟨"Outer", here⟩ none
  ⟨[⟨⟨"Inner", here⟩, .record .struct [], here, .untouched⟩,
    ⟨⟨"Outer", here⟩, .record .union [⟨⟨"inner", here⟩, .named ⟨"Inner", here⟩ none, here⟩,
      ⟨⟨"next", here⟩, .pointer outer here, here⟩], here, .untouched⟩,
    ⟨⟨"v", here⟩, .mutable outer none, here, .untouched⟩,
    ⟨⟨"f", here⟩, .constant none (.function ⟨[⟨⟨"a", here⟩, .pointer outer here, here⟩], .primitive .void here, here⟩
      (.block [.statement (.declaration 4 here)] here) here), here, .untouched⟩,
    ⟨⟨"x", here⟩, .mutable outer none, here, .untouched⟩], items⟩

/-- Variables before, between and behind the types. -/
theorem mixed_compiled_alike :
    ((mixed [2, 0, 3, 1]).resolve nameHash).2.2 = none ∧
    ((mixed [0, 1, 2, 3]).resolve nameHash).1.declarations = ((mixed [2, 0, 3, 1]).resolve nameHash).1.declarations ∧
    (compile nameHash (mixed [2, 0, 3, 1]) ⟨true, true⟩).result.isOk = true ∧
    (compile nameHash (mixed [0, 1, 2, 3]) ⟨true, true⟩).result =
      (compile nameHash (mixed [2, 0, 3, 1]) ⟨true, true⟩).result := by
  have hnone : ((mixed [2, 0, 3, 1]).resolve nameHash).2.2 = none := by decide +kernel
  have harena : (mixed [0, 1, 2, 3]).declarations = (mixed [2, 0, 3, 1]).declarations := rfl
  obtain ⟨-, hdeclarations, hcompile⟩ := item_order_is_immaterial harena (by decide) (by decide) (by simp [mixed])
    (by decide)
  refine ⟨hnone, hdeclarations hnone, by decide +kernel, ?_⟩
  rcases hcompile (by decide) (by decide) true with hsame | ⟨error, -, -, -, hbind, -⟩
  · exact hsame
  · have hbound : (declareAll (mixed [2, 0, 3, 1]).items (.root nameHash) ⟨mixed [2, 0, 3, 1], []⟩).2 = none := by
      decide +kernel
    simp [hbound] at hbind

end DeclTree

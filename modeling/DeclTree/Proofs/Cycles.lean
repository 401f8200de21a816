import DeclTree.Proofs.Containment

/-!
# Finding cycles

Resolving a record is a depth-first walk along what records hold by value. It succeeds exactly when no cycle can be
reached, and then it has closed exactly what can be reached.

While the walk visits a declaration, everything that is open leads to it. Meeting an open declaration therefore closes a
cycle; and what is closed leads to no cycle (`Explored`), so that a walk that comes back from all members has met none.
-/

namespace DeclTree

open Relation (ReflTransGen TransGen)

variable {hash : String → Nat}

section Walk

variable {file : SourceFile} {lookup : String → Option DeclId} {root : DeclId}

/-- The state in which a walk from `root` visits a declaration: everything that is open leads to the declaration. -/
structure Walking (file : SourceFile) (lookup : String → Option DeclId) (root id : DeclId) (now : SourceFile) :
    Prop where
  cleared : now.cleared = file.cleared
  reached : ReflTransGen (file.Holds lookup) root id
  stack : ∀ {t}, now.mark? t = some .opened → TransGen (file.Holds lookup) t id
  explored : Explored (file.Holds lookup) root now

/-- The state in which a walk from `root` stops, and its error: the error names a declaration on a cycle that can be
reached, and the walk has left the declaration open. -/
structure Stuck (file : SourceFile) (lookup : String → Option DeclId) (root : DeclId) (now : SourceFile)
    (error : Error) : Prop where
  explored : Explored (file.Holds lookup) root now
  cycle : ∃ t d, ReflTransGen (file.Holds lookup) root t ∧ TransGen (file.Holds lookup) t t ∧
    file.decl? t = some d ∧ error = .circularType d.name.name d.span ∧ now.mark? t = some .opened

/-- What a regular record holds is found under the names that are linked by value, and its plan links nothing that is
not a type. -/
theorem SourceFile.IsRegular.plan {id : DeclId} (h : file.IsRegular lookup id) :
    ∃ d plan, file.decl? id = some d ∧ d.name.name ≠ "" ∧ d.plan? = some plan ∧
      (∀ step ∈ plan, ∃ name r u e, step = .link name r ∧ lookup name.name = some u ∧ file.decl? u = some e ∧
        e.isVariable = false ∧ (r = .byValue → file.Holds lookup id u)) ∧
      ∀ u, file.Holds lookup id u → ∃ name, .link name .byValue ∈ plan ∧ lookup name.name = some u := by
  obtain ⟨d, kind, members, hdecl, hkind, hname, hnodup, hnames⟩ := h
  refine ⟨d, _, hdecl, hname, Declaration.plan?_record hkind hnodup, ?_, ?_⟩
  · intro step hstep
    obtain ⟨name, hmem, r, rfl, hr⟩ := TypeExpr.eq_link_of_mem_slotSteps members .byValue hstep
    obtain ⟨u, e, hu, he, hvariable⟩ := hnames name hmem
    refine ⟨name, r, u, e, rfl, hu, he, hvariable, fun hv => ?_⟩
    obtain ⟨-, slot, hslot, hstored⟩ := hr hv
    exact ⟨d, kind, members, hdecl, hkind, slot, hslot, name, hstored, hu⟩
  · rintro u ⟨d', kind', members', hdecl', hkind', slot, hslot, name, hstored, hu⟩
    obtain rfl : d = d' := Option.some_inj.mp (hdecl.symm.trans hdecl')
    obtain ⟨-, rfl⟩ : kind = kind' ∧ members = members' := by simpa using hkind.symm.trans hkind'
    exact ⟨name, TypeExpr.link_mem_slotSteps_of_stored? .byValue hslot hstored, hu⟩

/-- Linking a name that stands for a type keeps the invariant, and closes the type if it is linked by value. -/
theorem runStep_walk {visit : Visit hash} (hvisit : visit.Lawful) {frame : Frame hash} (id : DeclId) {u : DeclId}
    {name : Ident} {r : Reach} {e : Declaration} (hu : frame.scopes.lookup name.name = some u)
    (he : frame.progress.file.decl? u = some e)
    (hvariable : e.isVariable = false) (hexplored : Explored (file.Holds lookup) root frame.progress.file)
    (hinner : r = .byValue → ∀ event, (visit frame.scopes u (frame.progress.note event)).Meets
      (fun p => Explored (file.Holds lookup) root p.file) (fun p => Stuck file lookup root p.file)) :
    (runStep visit id (.link name r) frame).Meets
      (fun next => next.scopes = frame.scopes ∧ Explored (file.Holds lookup) root next.progress.file ∧
        (∀ t, frame.progress.file.mark? t = some .closed → next.progress.file.mark? t = some .closed) ∧
        (r = .byValue → next.progress.file.mark? u = some .closed))
      (fun next => Stuck file lookup root next.progress.file) := by
  have hends := runStep_ends visit id (.link name r) frame
  generalize runStep visit id (.link name r) frame = outcome at hends ⊢
  cases hends with
  | unknown hfind => simp [hu] at hfind
  | dangling hfind hdecl =>
    rw [hu, Option.some_inj] at hfind
    simp [← hfind, he] at hdecl
  | notType hfind hdecl hisVariable =>
    rw [hu, Option.some_inj] at hfind
    rw [← hfind, he, Option.some_inj] at hdecl
    simp [← hdecl, hvariable] at hisVariable
  | visitFailed hfind hdecl _ hrun =>
    rw [hu, Option.some_inj] at hfind
    have hvisited := hinner rfl (.linked name.name u .byValue)
    rw [hfind, hrun] at hvisited
    exact hvisited
  | stored hfind hdecl _ hrun =>
    rw [hu, Option.some_inj] at hfind
    have hvisited := hinner rfl (.linked name.name u .byValue)
    rw [hfind, hrun] at hvisited
    have hadvances := hvisit.advances hrun
    refine ⟨rfl, hvisited.congr fun t => SourceFile.mark?_setLink _ _ _ _ t, fun t ht => ?_, fun _ => ?_⟩
    · exact (SourceFile.mark?_setLink _ _ _ _ t).trans (hadvances.mark?_eq ht (by decide))
    · exact (SourceFile.mark?_setLink _ _ _ _ u).trans (hfind ▸ hvisit.closes hrun)
  | referred hfind hdecl _ =>
    refine ⟨rfl, hexplored.congr fun t => SourceFile.mark?_setLink _ _ _ _ t, fun t ht => ?_, by simp⟩
    exact (SourceFile.mark?_setLink _ _ _ _ t).trans ht

/-- Linking the members of a regular record closes everything that the record holds, or runs into a cycle. -/
theorem runSteps_walk {visit : Visit hash} (hvisit : visit.Lawful) {scopes : Scopes hash} {id : DeclId} {p : Progress}
    {d : Declaration} {plan : List Step} (hdecl : p.file.decl? id = some d) (hmark : d.mark = .untouched)
    (hplan : d.plan? = some plan) (hregular : file.IsRegular scopes.lookup id)
    (hwalk : Walking file scopes.lookup root id p.file)
    (hinner : ∀ target p', p'.file.fresh ⊂ p.file.fresh → Walking file scopes.lookup root target p'.file →
      (visit scopes target p').Meets (fun p'' => Explored (file.Holds scopes.lookup) root p''.file)
        (fun p'' => Stuck file scopes.lookup root p''.file)) :
    (runSteps visit id plan ⟨scopes, 0, p.start id d⟩).Meets
      (fun last => last.progress.file.mark? id = some .opened ∧
        Explored (file.Holds scopes.lookup) root last.progress.file ∧
        ∀ u, file.Holds scopes.lookup id u → last.progress.file.mark? u = some .closed)
      (fun last => Stuck file scopes.lookup root last.progress.file) := by
  obtain ⟨d₀, plan₀, hdecl₀, -, hplan₀, hlinks, hheld⟩ := hregular.plan
  obtain rfl : plan = plan₀ := by
    have hcleared := SourceFile.cleared_eq_of_decl? hwalk.cleared hdecl₀ hdecl
    rw [Declaration.plan?_of_cleared_eq hcleared, hplan₀] at hplan
    exact (Option.some_inj.mp hplan).symm
  have hopen := Progress.mark?_start scopes hdecl
  have huntouched : p.file.mark? id = some .untouched := SourceFile.mark?_eq_some.mpr ⟨d, hdecl, hmark⟩
  refine (runPlan_meets hvisit hopen (fun done frame => frame.scopes = scopes ∧
      Explored (file.Holds scopes.lookup) root frame.progress.file ∧
      ∀ name u, .link name .byValue ∈ done → scopes.lookup name.name = some u →
        frame.progress.file.mark? u = some .closed)
    ⟨rfl, hwalk.explored.openDecl huntouched hwalk.reached, by simp⟩ ?_).imp ?_ fun _ _ h => h
  · rintro done step rest frame hsplit hframe hsettled ⟨hscopes, hexplored, hdone⟩
    obtain ⟨name, r, u, e₀, rfl, hu, he₀, hvariable₀, hholds⟩ := hlinks step (by simp [hsplit])
    have hcleared : frame.progress.file.cleared = file.cleared :=
      (hframe.file_of_untouched hdecl hmark).cleared.trans hwalk.cleared
    obtain ⟨e, he, hee⟩ := SourceFile.decl?_of_cleared_eq hcleared he₀
    have hvariable : e.isVariable = false := (Declaration.isVariable_of_cleared_eq hee).trans hvariable₀
    -- Whatever is open in the frame leads to the record, and the record holds what it links by value.
    have hstack {t : DeclId} (hv : r = .byValue) (ht : frame.progress.file.mark? t = some .opened) :
        TransGen (file.Holds scopes.lookup) t u := by
      by_cases heq : id = t
      · exact heq ▸ .single (hholds hv)
      · have hbefore := hsettled t ht
        rw [show (Frame.mk scopes 0 (p.start id d)).progress.file = p.file.setMark id .opened from rfl,
          SourceFile.mark?_setMark_of_ne _ heq] at hbefore
        exact (hwalk.stack hbefore).tail (hholds hv)
    have hstep := runStep_walk hvisit id (hscopes ▸ hu) he hvariable hexplored fun hv event => hscopes ▸
      hinner u (frame.progress.note event) (hframe.fresh_ssubset hdecl hmark)
        ⟨hcleared, hwalk.reached.tail (hholds hv), hstack hv, hexplored⟩
    refine hstep.imp ?_ fun _ _ h => h
    rintro next ⟨hscopes', hexplored', hkept, hclosed⟩
    refine ⟨hscopes'.trans hscopes, hexplored', fun name' u' hname' hu' => ?_⟩
    rcases List.mem_append.mp hname' with hname' | hname'
    · exact hkept u' (hdone name' u' hname' hu')
    · obtain ⟨rfl, rfl⟩ : name' = name ∧ .byValue = r := by simpa using hname'
      rw [hu, Option.some_inj] at hu'
      exact hu' ▸ hclosed rfl
  · rintro last ⟨hlast, -, hexplored, hdone⟩
    refine ⟨hlast.opened, hexplored, fun u hu => ?_⟩
    obtain ⟨name, hname, hlookup⟩ := hheld u hu
    exact hdone name u hname hlookup

/-- A walk among regular records keeps its invariant, or is stuck on a cycle. -/
theorem visit_walk {scopes : Scopes hash}
    (hregular : ∀ t, ReflTransGen (file.Holds scopes.lookup) root t → file.IsRegular scopes.lookup t) :
    VisitStep (fun scopes' id p => scopes' = scopes ∧ Walking file scopes.lookup root id p.file)
      (fun _ _ _ p' => Explored (file.Holds scopes.lookup) root p'.file)
      (fun _ _ _ p' => Stuck file scopes.lookup root p'.file) := by
  rintro visit _ id p outcome hvisit ⟨rfl, hwalk⟩ hinner hends
  have hid := hregular id hwalk.reached
  obtain ⟨d₀, plan₀, hdecl₀, hname₀, hplan₀, -⟩ := hid.plan
  have hrun (d : Declaration) (plan : List Step) (hdecl : p.file.decl? id = some d) (hmark : d.mark = .untouched)
      (hplan : d.plan? = some plan) := runSteps_walk hvisit hdecl hmark hplan hid hwalk
    fun target p' hfresh htarget => hinner _ target p' hfresh ⟨rfl, htarget⟩
  cases hends with
  | absent hdecl =>
    obtain ⟨d, hd, -⟩ := SourceFile.decl?_of_cleared_eq hwalk.cleared hdecl₀
    simp [hdecl] at hd
  | closed hdecl hmark => exact hwalk.explored
  | @opened d hdecl hmark =>
    have hcleared := SourceFile.cleared_eq_of_decl? hwalk.cleared hdecl₀ hdecl
    have hopen : p.file.mark? id = some .opened := SourceFile.mark?_eq_some.mpr ⟨d, hdecl, hmark⟩
    refine ⟨hwalk.explored, id, d₀, hwalk.reached, hwalk.stack hopen, hdecl₀, ?_, hopen⟩
    rw [Declaration.name_of_cleared_eq hcleared, Declaration.span_of_cleared_eq hcleared]
  | nameless hdecl hmark hname =>
    have hcleared := SourceFile.cleared_eq_of_decl? hwalk.cleared hdecl₀ hdecl
    rw [Declaration.name_of_cleared_eq hcleared] at hname
    exact absurd hname hname₀
  | planless hdecl hmark hname hplan =>
    have hcleared := SourceFile.cleared_eq_of_decl? hwalk.cleared hdecl₀ hdecl
    simp [Declaration.plan?_of_cleared_eq hcleared, hplan₀] at hplan
  | @finished d plan _ last hdecl hmark hname hplan hdeeper hsteps =>
    obtain rfl := Option.some_inj.mp hdeeper
    have hlast := hrun d plan hdecl hmark hplan
    rw [hsteps] at hlast
    exact hlast.2.1.closeDecl hlast.1 hlast.2.2
  | @stopped d plan _ last error hdecl hmark hname hplan hdeeper hsteps =>
    obtain rfl := Option.some_inj.mp hdeeper
    have hlast := hrun d plan hdecl hmark hplan
    rw [hsteps] at hlast
    exact hlast
  | exhausted hdecl hmark hname hplan hdeeper => simp at hdeeper

end Walk

/-- Resolving a record in an untouched file finds cycles exactly. Of all that can be reached from the record by value it
is assumed that it is a record with a name, distinct names of members, and types for the names in it. Then resolution
succeeds if and only if no cycle can be reached. If it succeeds, exactly what can be reached is closed and everything
else is untouched. If it fails, the error names a declaration on a cycle that can be reached, which is left open, and
what cannot be reached is untouched. -/
theorem resolve_succeeds_iff_no_cycle {scopes : Scopes hash} {root : DeclId} {p : Progress}
    (huntouched : ∀ d ∈ p.file.declarations, d.mark = .untouched)
    (hregular : ∀ t, ReflTransGen (p.file.Holds scopes.lookup) root t → p.file.IsRegular scopes.lookup t) :
    ((resolve scopes root p).2 = none ↔
      ¬∃ t, ReflTransGen (p.file.Holds scopes.lookup) root t ∧ TransGen (p.file.Holds scopes.lookup) t t) ∧
    ((resolve scopes root p).2 = none → ∀ t < p.file.declarations.length,
      (ReflTransGen (p.file.Holds scopes.lookup) root t → (resolve scopes root p).1.file.mark? t = some .closed) ∧
      (¬ReflTransGen (p.file.Holds scopes.lookup) root t →
        (resolve scopes root p).1.file.mark? t = some .untouched)) ∧
    ((resolve scopes root p).2 ≠ none →
      (∃ t d, ReflTransGen (p.file.Holds scopes.lookup) root t ∧ TransGen (p.file.Holds scopes.lookup) t t ∧
        p.file.decl? t = some d ∧ (resolve scopes root p).2 = some (.circularType d.name.name d.span) ∧
        (resolve scopes root p).1.file.mark? t = some .opened) ∧
      ∀ t < p.file.declarations.length, ¬ReflTransGen (p.file.Holds scopes.lookup) root t →
        (resolve scopes root p).1.file.mark? t = some .untouched) := by
  have hmark {t : DeclId} {m : Mark} (hm : p.file.mark? t = some m) : m = .untouched :=
    SourceFile.mark?_of_untouched huntouched hm
  have hstart : Walking p.file scopes.lookup root root p.file :=
    ⟨rfl, .refl, fun h => absurd (hmark h) (by decide), fun h hne => absurd (hmark h) hne,
      fun h => absurd (hmark h) (by decide), fun h => absurd (hmark h) (by decide)⟩
  have hwalk := resolve_meets (visit_walk hregular) scopes root p ⟨rfl, hstart⟩
  have hlawful := resolve_lawful scopes root p
  -- A walk opens nothing that cannot be reached, whether it succeeds or fails.
  have hspared {p' : Progress} (hexplored : Explored (p.file.Holds scopes.lookup) root p'.file)
      (hadvances : Advances none p.file p'.file) (t : DeclId) (ht : t < p.file.declarations.length)
      (hreach : ¬ReflTransGen (p.file.Holds scopes.lookup) root t) : p'.file.mark? t = some .untouched := by
    rw [← SourceFile.length_of_cleared_eq hadvances.cleared] at ht
    obtain ⟨d, hd⟩ := SourceFile.exists_decl? ht
    have hm : p'.file.mark? t = some d.mark := SourceFile.mark?_eq_some.mpr ⟨d, hd, rfl⟩
    by_cases hne : d.mark = .untouched
    · rwa [hne] at hm
    · exact absurd (hexplored.reached hm hne) hreach
  rcases hresolve : resolve scopes root p with ⟨p', _ | error⟩
  · rw [hresolve] at hwalk hlawful
    obtain ⟨hadvances, hroot, -⟩ := hlawful
    have hclosed (t : DeclId) (ht : ReflTransGen (p.file.Holds scopes.lookup) root t) :
        p'.file.mark? t = some .closed := by
      induction ht with
      | refl => exact hroot
      | tail _ hholds ih => exact hwalk.closed ih hholds
    refine ⟨iff_of_true rfl ?_, fun _ t ht => ⟨hclosed t, hspared hwalk hadvances t ht⟩, fun h => absurd rfl h⟩
    rintro ⟨t, hreach, hcycle⟩
    exact hwalk.acyclic hroot hreach hcycle
  · rw [hresolve] at hwalk hlawful
    obtain ⟨t, d, hreach, hcycle, hdecl, rfl, hopen⟩ := hwalk.cycle
    refine ⟨iff_of_false (by simp) fun h => h ⟨t, hreach, hcycle⟩, by simp, fun _ => ⟨?_, ?_⟩⟩
    · exact ⟨t, d, hreach, hcycle, hdecl, rfl, hopen⟩
    · exact hspared hwalk.explored hlawful

/-- Two records that hold each other, one of them through an array. -/
def ring : SourceFile :=
  let here := Span.nowhere
  ⟨[⟨⟨"A", here⟩, .record .struct [⟨⟨"b", here⟩, .array (.named ⟨"B", here⟩ none) here, here⟩], here, .untouched⟩,
    ⟨⟨"B", here⟩, .record .union [⟨⟨"p", here⟩, .pointer (.named ⟨"B", here⟩ none) here, here⟩,
      ⟨⟨"a", here⟩, .named ⟨"A", here⟩ none, here⟩], here, .untouched⟩], [0, 1]⟩

/-- Tables in which one of the records is bound in an inner scope. -/
def ringScopes : Scopes nameHash :=
  ((((Scopes.root _).insert? "A" 0).getD (.root _)).push.insert? "B" 1).getD (.root _)

/-- Both names are bound in the table. -/
theorem ringScopes_lookup : ringScopes.lookup "A" = some 0 ∧ ringScopes.lookup "B" = some 1 := by decide +kernel

/-- Each of the two records holds the other. -/
theorem ring_holds : ring.Holds ringScopes.lookup 0 1 ∧ ring.Holds ringScopes.lookup 1 0 :=
  ⟨⟨_, _, _, rfl, rfl, _, List.mem_singleton_self _, ⟨"B", .nowhere⟩, rfl, ringScopes_lookup.2⟩,
    ⟨_, _, _, rfl, rfl, _, List.mem_cons_of_mem _ (List.mem_singleton_self _), ⟨"A", .nowhere⟩, rfl,
      ringScopes_lookup.1⟩⟩

/-- Everything in the ring is regular, and it holds nothing else. -/
theorem ring_regular {t : DeclId} (h : ReflTransGen (ring.Holds ringScopes.lookup) 0 t) :
    t < 2 ∧ ring.IsRegular ringScopes.lookup t := by
  obtain ⟨hA, hB⟩ := ringScopes_lookup
  have hregular : ring.IsRegular ringScopes.lookup 0 ∧ ring.IsRegular ringScopes.lookup 1 := by
    refine ⟨⟨_, _, _, rfl, rfl, by decide, by decide, ?_⟩, ⟨_, _, _, rfl, rfl, by decide, by decide, ?_⟩⟩
    · simp [TypeExpr.slotNames, TypeExpr.names, hB, ring, SourceFile.decl?, Declaration.isVariable, DeclKind.isVariable]
    · simp [TypeExpr.slotNames, TypeExpr.names, hA, hB, ring, SourceFile.decl?, Declaration.isVariable,
        DeclKind.isVariable]
  induction h with
  | refl => exact ⟨by decide, hregular.1⟩
  | @tail t u _ hholds ih =>
    obtain ⟨d, kind, members, hdecl, hkind, slot, hslot, name, hstored, hu⟩ := hholds
    rcases Nat.le_one_iff_eq_zero_or_eq_one.mp (Nat.le_of_lt_succ ih.1) with rfl | rfl
    · obtain rfl := Option.some_inj.mp hdecl
      obtain ⟨-, rfl⟩ := DeclKind.record.inj hkind
      obtain rfl := List.mem_singleton.mp hslot
      obtain rfl := Option.some_inj.mp hstored
      obtain rfl := Option.some_inj.mp (hB.symm.trans hu)
      exact ⟨by decide, hregular.2⟩
    · obtain rfl := Option.some_inj.mp hdecl
      obtain ⟨-, rfl⟩ := DeclKind.record.inj hkind
      rcases List.mem_pair.mp hslot with rfl | rfl
      · simp [TypeExpr.stored?] at hstored
      · obtain rfl := Option.some_inj.mp hstored
        obtain rfl := Option.some_inj.mp (hA.symm.trans hu)
        exact ⟨by decide, hregular.1⟩

/-- The ring is found. -/
theorem resolve_ring_fails :
    (∀ d ∈ ring.declarations, d.mark = .untouched) ∧
      (∀ t, ReflTransGen (ring.Holds ringScopes.lookup) 0 t → ring.IsRegular ringScopes.lookup t) ∧
      (resolve ringScopes 0 ⟨ring, []⟩).2 ≠ none := by
  have huntouched : ∀ d ∈ ring.declarations, d.mark = .untouched := by simp [ring]
  have hregular (t : DeclId) (h : ReflTransGen (ring.Holds ringScopes.lookup) 0 t) := (ring_regular h).2
  refine ⟨huntouched, hregular, fun hnone => ?_⟩
  refine (resolve_succeeds_iff_no_cycle (p := ⟨ring, []⟩) huntouched hregular).1.mp hnone ⟨0, .refl, ?_⟩
  exact .tail (.single ring_holds.1) ring_holds.2

end DeclTree

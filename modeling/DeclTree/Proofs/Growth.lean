import DeclTree.Proofs.Clearing
import DeclTree.Resolution.Run
import Mathlib.Data.Finset.Card

/-!
# What a run does to a file

A run opens declarations that are untouched and closes what it opened; a declaration that was open or closed before is
not looked into again. `Advances` says this of two stages of a file, except that the owner of a plan that is being
carried out has its links filled. The untouched declarations of a file are a finite set that only shrinks, which bounds
how deep runs nest.
-/

namespace DeclTree

namespace Declaration

variable {d e : Declaration}

/-- Declarations that differ in links and marks only have the same plan. -/
theorem plan?_of_cleared_eq (h : e.cleared = d.cleared) : e.plan? = d.plan? := by
  rw [← plan?_cleared e, h, plan?_cleared]

/-- Whether a declaration is a variable does not depend on links and marks. -/
theorem isVariable_of_cleared_eq (h : e.cleared = d.cleared) : e.isVariable = d.isVariable := by
  rw [← isVariable_cleared e, h, isVariable_cleared]

/-- The keyword of a declaration does not depend on links and marks. -/
theorem keyword_of_cleared_eq (h : e.cleared = d.cleared) : e.kind.keyword = d.kind.keyword := by
  rw [← keyword_cleared e, h, keyword_cleared]

/-- The name of a declaration does not depend on links and marks. -/
theorem name_of_cleared_eq (h : e.cleared = d.cleared) : e.name = d.name := by
  have hname := congrArg Declaration.name h
  exact hname

/-- The span of a declaration does not depend on links and marks. -/
theorem span_of_cleared_eq (h : e.cleared = d.cleared) : e.span = d.span := by
  have hspan := congrArg Declaration.span h
  exact hspan

end Declaration

namespace SourceFile

/-- The mark of a declaration. -/
def mark? (file : SourceFile) (id : DeclId) : Option Mark := (file.decl? id).map (·.mark)

/-- The declarations that no run has opened. -/
def fresh (file : SourceFile) : Finset DeclId :=
  (Finset.range file.declarations.length).filter fun id => file.mark? id = some .untouched

/-- A change of one declaration shows there and nowhere else. -/
theorem decl?_update (file : SourceFile) (id : DeclId) (change : Declaration → Declaration) (t : DeclId) :
    (file.update id change).decl? t = (file.decl? t).map fun d => if id = t then change d else d := by
  simp only [decl?, update, List.getElem?_modify]
  rfl

/-- A declaration that is updated is the changed one. -/
theorem decl?_update_self {file : SourceFile} {id : DeclId} {d : Declaration} (hd : file.decl? id = some d)
    (change : Declaration → Declaration) : (file.update id change).decl? id = some (change d) := by
  rw [decl?_update, hd, Option.map_some, if_pos rfl]

/-- Updating one declaration leaves the others as they are. -/
theorem decl?_update_of_ne (file : SourceFile) {id t : DeclId} (h : id ≠ t) (change : Declaration → Declaration) :
    (file.update id change).decl? t = file.decl? t := by
  simp only [decl?_update, if_neg h, Option.map_id']

/-- A change that clearing removes leaves the cleared file as it was. -/
theorem cleared_update (file : SourceFile) (id : DeclId) {change : Declaration → Declaration}
    (h : ∀ d, (change d).cleared = d.cleared) : (file.update id change).cleared = file.cleared := by
  simp only [cleared, update, SourceFile.mk.injEq, and_true]
  apply List.ext_getElem?
  intro t
  simp only [List.getElem?_map, List.getElem?_modify]
  cases file.declarations[t]? with
  | none => rfl
  | some d =>
    by_cases hid : id = t
    · simp [hid, h]
    · simp [hid]

/-- Setting a mark changes nothing but the mark. -/
theorem cleared_setMark (file : SourceFile) (id : DeclId) (mark : Mark) :
    (file.setMark id mark).cleared = file.cleared := cleared_update file id fun _ => rfl

/-- Filling a link changes nothing but the link. -/
theorem cleared_setLink (file : SourceFile) (owner : DeclId) (k : Nat) (target : DeclId) :
    (file.setLink owner k target).cleared = file.cleared :=
  cleared_update file owner fun d => by simp only [Declaration.cleared, DeclKind.cleared_setLink]

/-- A declaration of the cleared file is the cleared declaration of the file. -/
theorem decl?_cleared (file : SourceFile) (id : DeclId) :
    file.cleared.decl? id = (file.decl? id).map Declaration.cleared := by
  simp only [decl?, cleared, List.getElem?_map]

/-- Two stages of one file have the same declarations up to links and marks. -/
theorem decl?_of_cleared_eq {before after : SourceFile} (h : after.cleared = before.cleared) {id : DeclId}
    {d : Declaration} (hd : before.decl? id = some d) : ∃ e, after.decl? id = some e ∧ e.cleared = d.cleared := by
  have hcleared : (after.decl? id).map Declaration.cleared = some d.cleared := by
    rw [← decl?_cleared, h, decl?_cleared, hd, Option.map_some]
  exact Option.map_eq_some_iff.mp hcleared

/-- A position outside the arena stays outside when only links and marks change. -/
theorem decl?_eq_none_of_cleared_eq {before after : SourceFile} (h : after.cleared = before.cleared) {id : DeclId}
    (hd : before.decl? id = none) : after.decl? id = none := by
  have hcleared : (after.decl? id).map Declaration.cleared = none := by
    rw [← decl?_cleared, h, decl?_cleared, hd, Option.map_none]
  exact Option.map_eq_none_iff.mp hcleared

/-- What stands at a position differs in links and marks at most, if the files do. -/
theorem cleared_eq_of_decl? {before after : SourceFile} (h : after.cleared = before.cleared) {id : DeclId}
    {d e : Declaration} (hd : before.decl? id = some d) (he : after.decl? id = some e) : e.cleared = d.cleared := by
  obtain ⟨e', he', hcleared⟩ := decl?_of_cleared_eq h hd
  rw [he, Option.some_inj] at he'
  rw [he', hcleared]

/-- Two stages of one file have the same plans. -/
theorem plan_of_cleared_eq {before after : SourceFile} (h : after.cleared = before.cleared) {id : DeclId}
    {d : Declaration} (hd : before.decl? id = some d) {plan : List Step} (hplan : d.plan? = some plan) :
    ∃ e, after.decl? id = some e ∧ e.plan? = some plan := by
  obtain ⟨e, he, hcleared⟩ := decl?_of_cleared_eq h hd
  exact ⟨e, he, (Declaration.plan?_of_cleared_eq hcleared).trans hplan⟩

/-- The size of the arena does not depend on links and marks. -/
theorem length_of_cleared_eq {before after : SourceFile} (h : after.cleared = before.cleared) :
    after.declarations.length = before.declarations.length := by
  simpa only [cleared, List.length_map] using congrArg (fun file => file.declarations.length) h

/-- The items do not depend on links and marks. -/
theorem items_of_cleared_eq {before after : SourceFile} (h : after.cleared = before.cleared) :
    after.items = before.items := by
  have hitems := congrArg SourceFile.items h
  exact hitems

/-- The mark at a position is that of the declaration there. -/
theorem mark?_eq_some {file : SourceFile} {id : DeclId} {m : Mark} :
    file.mark? id = some m ↔ ∃ d, file.decl? id = some d ∧ d.mark = m := Option.map_eq_some_iff

/-- The declaration at a position has the mark of the position. -/
theorem mark_of_mark? {file : SourceFile} {id : DeclId} {d : Declaration} {m : Mark} (hd : file.decl? id = some d)
    (hm : file.mark? id = some m) : d.mark = m := by
  rwa [mark?, hd, Option.map_some, Option.some_inj] at hm

/-- Every mark of an untouched file says so. -/
theorem mark?_of_untouched {file : SourceFile} (h : ∀ d ∈ file.declarations, d.mark = .untouched) {id : DeclId}
    {m : Mark} (hm : file.mark? id = some m) : m = .untouched := by
  obtain ⟨d, hd, rfl⟩ := mark?_eq_some.mp hm
  exact h d (List.mem_of_getElem? hd)

/-- There is a declaration at every position of the arena. -/
theorem exists_decl? {file : SourceFile} {id : DeclId} (h : id < file.declarations.length) :
    ∃ d, file.decl? id = some d := ⟨_, List.getElem?_eq_getElem h⟩

/-- A mark that is set is there. -/
theorem mark?_setMark_self {file : SourceFile} {id : DeclId} {m : Mark} (h : file.mark? id = some m) (mark : Mark) :
    (file.setMark id mark).mark? id = some mark := by
  obtain ⟨d, hd, -⟩ := mark?_eq_some.mp h
  exact mark?_eq_some.mpr ⟨_, decl?_update_self hd _, rfl⟩

/-- Setting one mark leaves the others as they are. -/
theorem mark?_setMark_of_ne (file : SourceFile) {id t : DeclId} (h : id ≠ t) (mark : Mark) :
    (file.setMark id mark).mark? t = file.mark? t := by
  rw [mark?, setMark, decl?_update_of_ne file h, mark?]

/-- What is closed after a change that closes nothing was so before. -/
theorem decl?_of_update {file : SourceFile} {id : DeclId} {change : Declaration → Declaration}
    (hchange : ∀ d, file.decl? id = some d → (change d).mark ≠ .closed) {t : DeclId} {e : Declaration}
    (he : (file.update id change).decl? t = some e) (hmark : e.mark = .closed) : file.decl? t = some e := by
  by_cases heq : id = t
  · subst heq
    rw [decl?_update, Option.map_eq_some_iff] at he
    obtain ⟨d, hd, rfl⟩ := he
    rw [if_pos rfl] at hmark
    exact absurd hmark (hchange d hd)
  · rwa [decl?_update_of_ne _ heq] at he

/-- After a declaration has been marked, a declaration is that one or is as it was. -/
theorem decl?_of_setMark {file : SourceFile} {id : DeclId} {d : Declaration} (hd : file.decl? id = some d) (mark : Mark)
    {t : DeclId} {e : Declaration} (he : (file.setMark id mark).decl? t = some e) :
    (t = id ∧ e = { d with mark := mark }) ∨ file.decl? t = some e := by
  by_cases heq : id = t
  · subst heq
    rw [setMark, decl?_update_self hd, Option.some_inj] at he
    exact .inl ⟨rfl, he.symm⟩
  · rw [setMark, decl?_update_of_ne _ heq] at he
    exact .inr he

/-- Filling a link changes no mark. -/
theorem mark?_setLink (file : SourceFile) (owner : DeclId) (k : Nat) (target t : DeclId) :
    (file.setLink owner k target).mark? t = file.mark? t := by
  simp only [mark?, setLink, decl?_update, Option.map_map]
  congr 1
  funext d
  simp only [Function.comp_apply]
  split <;> rfl

/-- There are no more untouched declarations than declarations. -/
theorem card_fresh_le (file : SourceFile) : file.fresh.card ≤ file.declarations.length :=
  (Finset.card_filter_le _ _).trans (Finset.card_range _).le

/-- A position is fresh if its declaration is untouched. -/
theorem mem_fresh {file : SourceFile} {id : DeclId} : id ∈ file.fresh ↔ file.mark? id = some .untouched := by
  simp only [fresh, Finset.mem_filter, Finset.mem_range, and_iff_right_iff_imp]
  intro h
  obtain ⟨d, hd, -⟩ := mark?_eq_some.mp h
  exact (List.getElem?_eq_some_iff.mp hd).1

end SourceFile

/-- What a run may have done between two stages of a file. The owner of a plan that is being carried out is exempt,
because its links are being filled. -/
structure Advances (owner : Option DeclId) (before after : SourceFile) : Prop where
  /-- Nothing but links and marks has changed. -/
  cleared : after.cleared = before.cleared
  /-- What was open or closed is as it was. -/
  kept : ∀ {id d}, owner ≠ some id → before.decl? id = some d → d.mark ≠ .untouched → after.decl? id = some d
  /-- What is untouched is as it was. -/
  spared : ∀ {id d}, owner ≠ some id → after.decl? id = some d → d.mark = .untouched → before.decl? id = some d

namespace Advances

variable {owner : Option DeclId} {before middle after : SourceFile}

/-- A file that stays as it is has advanced. -/
theorem refl (owner : Option DeclId) (file : SourceFile) : Advances owner file file :=
  ⟨rfl, fun _ hd _ => hd, fun _ hd _ => hd⟩

/-- Advances in a row are one advance. -/
theorem trans (first : Advances owner before middle) (second : Advances owner middle after) :
    Advances owner before after where
  cleared := second.cleared.trans first.cleared
  kept hid hd hmark := second.kept hid (first.kept hid hd hmark) hmark
  spared hid hd hmark := first.spared hid (second.spared hid hd hmark) hmark

/-- A run without an owner is one with any owner. -/
theorem weaken (h : Advances none before after) (owner : Option DeclId) : Advances owner before after where
  cleared := h.cleared
  kept _ hd hmark := h.kept (by simp) hd hmark
  spared _ hd hmark := h.spared (by simp) hd hmark

/-- A change of the owner that clearing removes. -/
theorem update (file : SourceFile) (id : DeclId) {change : Declaration → Declaration}
    (h : ∀ d, (change d).cleared = d.cleared) : Advances (some id) file (file.update id change) where
  cleared := SourceFile.cleared_update file id h
  kept hid hd _ := (SourceFile.decl?_update_of_ne file (by simpa using hid) change).trans hd
  spared hid hd _ := (SourceFile.decl?_update_of_ne file (by simpa using hid) change).symm.trans hd

/-- Setting the mark of the owner is an advance. -/
theorem setMark (file : SourceFile) (id : DeclId) (mark : Mark) : Advances (some id) file (file.setMark id mark) :=
  update file id fun _ => rfl

/-- Filling a link of the owner is an advance. -/
theorem setLink (file : SourceFile) (id : DeclId) (k : Nat) (target : DeclId) :
    Advances (some id) file (file.setLink id k target) :=
  update file id fun d => by simp only [Declaration.cleared, DeclKind.cleared_setLink]

/-- An owner that was untouched and is not any more is no exemption. -/
theorem absolve {id : DeclId} (h : Advances (some id) before after) (hbefore : before.mark? id = some .untouched)
    (hafter : after.mark? id ≠ some .untouched) : Advances none before after where
  cleared := h.cleared
  kept {t d} _ hd hmark := by
    refine h.kept ?_ hd hmark
    rintro ⟨rfl⟩
    rw [SourceFile.mark?, hd, Option.map_some, Option.some_inj] at hbefore
    exact hmark hbefore
  spared {t d} _ hd hmark := by
    refine h.spared ?_ hd hmark
    rintro ⟨rfl⟩
    exact hafter (SourceFile.mark?_eq_some.mpr ⟨d, hd, hmark⟩)

/-- A mark that is not the first one stays. -/
theorem mark?_eq (h : Advances none before after) {id : DeclId} {m : Mark} (hm : before.mark? id = some m)
    (hne : m ≠ .untouched) : after.mark? id = some m := by
  obtain ⟨d, hd, rfl⟩ := SourceFile.mark?_eq_some.mp hm
  exact SourceFile.mark?_eq_some.mpr ⟨d, h.kept (by simp) hd hne, rfl⟩

/-- The untouched declarations only get fewer. -/
theorem fresh_subset (h : Advances none before after) : after.fresh ⊆ before.fresh := by
  intro id hid
  rw [SourceFile.mem_fresh] at hid ⊢
  obtain ⟨d, hd, hmark⟩ := SourceFile.mark?_eq_some.mp hid
  exact SourceFile.mark?_eq_some.mpr ⟨d, h.spared (by simp) hd hmark, hmark⟩

end Advances

end DeclTree

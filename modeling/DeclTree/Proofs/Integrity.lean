import DeclTree.Proofs.Calls
import DeclTree.Proofs.Defects
import Mathlib.Data.List.Forall2

/-!
# What is closed is complete

What holds at every moment of a history of calls on a file in which nothing had been opened, whatever the calls and
their outcomes: the links of each declaration that have been filled are its first ones, each leads to a type of the name
that stands there, and a closed declaration has all of them. What it stores in place was closed before it, so that the
order of closing ranks the declarations and nothing contains itself.

`Integrity` is the invariant; it is kept by every move, and the moves of a call start with nothing open.
-/

namespace DeclTree

variable {hash : String → Nat}

/-- Fill the first links of what is declared. -/
def DeclKind.fill (kind : DeclKind) (targets : List DeclId) : DeclKind :=
  targets.zipIdx.foldl (fun kind entry => kind.setLink entry.1 entry.2) kind

/-- The links are filled one after the other. -/
theorem DeclKind.fill_concat (kind : DeclKind) (targets : List DeclId) (target : DeclId) :
    kind.fill (targets ++ [target]) = (kind.fill targets).setLink target targets.length := by
  simp [fill, List.zipIdx_append]

/-- Filling the first links leaves the other ones as they are. -/
theorem DeclKind.links_fill (kind : DeclKind) (targets : List DeclId) (h : targets.length ≤ kind.links.length) :
    (kind.fill targets).links = targets.map some ++ kind.links.drop targets.length := by
  induction targets using List.reverseRecOn with
  | nil => rfl
  | append_singleton targets target ih =>
    rw [List.length_append, List.length_singleton] at h
    rw [fill_concat, links_setLink, ih (by omega), List.set_append_right _ _ (by simp), List.length_map, Nat.sub_self,
      List.drop_eq_getElem_cons (by omega), List.set_cons_zero]
    simp

/-- What a name that is linked may lead to: a type that is known by the name, and that is closed if it is stored in
place. -/
def Answers (Q : String → DeclId → Prop) (now : SourceFile) (named : Ident × Reach) (target : DeclId) : Prop :=
  Q named.1.name target ∧ ∃ e, now.decl? target = some e ∧ e.isVariable = false ∧
    (named.2 = .byValue → e.mark = .closed)

/-- What has become of a declaration of a file: its first links have been filled with the given targets. -/
structure Standing (Q : String → DeclId → Prop) (past : List Act) (ledger : Ledger) (id : DeclId)
    (original d : Declaration) (targets : List DeclId) : Prop where
  kind : d.kind = original.kind.fill targets
  answers : List.Forall₂ (Answers Q ledger.file) (original.names.take targets.length) targets
  entered : ∀ k target, .links id k target ∈ past ↔ targets[k]? = some target
  untouched : d.mark = .untouched → targets = []
  closed : d.mark = .closed → targets.length = original.links.length
  current : ∀ k, (id, k) ∈ ledger.openings → targets.length = k

/-- The order in which declarations have been closed. -/
def closings (past : List Act) : List DeclId := past.filterMap Act.closed?

/-- A further act closes what it closes, behind what has been closed before. -/
theorem closings_concat (past : List Act) (act : Act) :
    closings (past ++ [act]) = closings past ++ act.closed?.toList := by
  rw [closings, List.filterMap_append]
  cases act <;> rfl

/-- What holds at every moment of a history. -/
structure Integrity (Q : String → DeclId → Prop) (file : SourceFile) (past : List Act) (ledger : Ledger) : Prop where
  sound : ledger.Sound
  cleared : ledger.file.cleared = file.cleared
  standing : ∀ id original d, file.decl? id = some original → ledger.file.decl? id = some d →
    ∃ targets, Standing Q past ledger id original d targets
  named : ∀ id d, ledger.file.decl? id = some d → d.mark ≠ .untouched → d.name.name ≠ ""
  carried : ∀ id d, ledger.file.decl? id = some d → d.mark = .closed →
    ∃ plan, d.plan? = some plan ∧ Carried ledger.file plan
  order : ∀ id, id ∈ closings past ↔ ledger.file.mark? id = some .closed
  ranked : ∀ id d (k : Nat) name target, ledger.file.decl? id = some d → d.mark = .closed →
    d.names[k]? = some (name, .byValue) → d.links[k]? = some (some target) →
    (closings past).idxOf target < (closings past).idxOf id

section Keeping

variable {Q : String → DeclId → Prop} {file : SourceFile} {past : List Act} {first second : Ledger} {act : Act}

/-- What a name may lead to it may lead to as long as what is closed stays closed. -/
theorem Answers.mono {before after : SourceFile} {named : Ident × Reach} {target : DeclId}
    (h : Answers Q before named target) (hcleared : after.cleared = before.cleared)
    (hclosed : ∀ id, before.mark? id = some .closed → after.mark? id = some .closed) :
    Answers Q after named target := by
  obtain ⟨hknown, e, he, htype, hmark⟩ := h
  obtain ⟨e', he', heq⟩ := SourceFile.decl?_of_cleared_eq hcleared he
  refine ⟨hknown, e', he', (Declaration.isVariable_of_cleared_eq heq).trans htype, fun hvalue => ?_⟩
  exact SourceFile.mark_of_mark? he' (hclosed target (SourceFile.mark?_eq_some.mpr ⟨e, he, hmark hvalue⟩))

/-- A move closes one declaration at most, and opens none that is closed. -/
theorem Move.closed_iff (h : Move Q first act second) (id : DeclId) :
    second.file.mark? id = some .closed ↔ first.file.mark? id = some .closed ∨ act = .closes id := by
  rcases h.mark? id with heq | ⟨rfl, hbefore, hafter⟩ | ⟨rfl, hbefore, hafter⟩
  · rw [heq, iff_self_or]
    rintro rfl
    cases h with
    | closes hdecl hmark hplan hcarried hfilled =>
      have hopened := SourceFile.mark?_eq_some.mpr ⟨_, hdecl, hmark⟩
      rw [SourceFile.mark?_setMark_self hopened] at heq
      exact heq.symm
  · simp [hbefore, hafter]
  · simp [hafter]

/-- A declaration that is closed after a move was closed before, or the move has closed it. -/
theorem Move.decl?_closed (h : Move Q first act second) {id : DeclId} {d : Declaration}
    (hdecl : second.file.decl? id = some d) (hmark : d.mark = .closed) :
    first.file.decl? id = some d ∨ act = .closes id ∧ ∃ e plan, first.file.decl? id = some e ∧ e.mark = .opened ∧
      d = { e with mark := .closed } ∧ (id, e.links.length) ∈ first.openings ∧ e.plan? = some plan ∧
      Carried first.file plan := by
  cases h with
  | opens hbefore huntouched hname hplan =>
    rcases SourceFile.decl?_of_setMark hbefore .opened hdecl with ⟨-, rfl⟩ | hd
    · simp at hmark
    · exact .inl hd
  | links hbefore hopened hname htarget htype hknown hclosed =>
    refine .inl (SourceFile.decl?_of_update (fun e he => ?_) hdecl hmark)
    simp [Option.some_inj.mp (he.symm.trans hbefore), hopened]
  | @closes now openings t k e plan hbefore hopened hplan hcarried hfilled =>
    rcases SourceFile.decl?_of_setMark hbefore .closed hdecl with ⟨rfl, rfl⟩ | hd
    · exact .inr ⟨rfl, e, plan, hbefore, hopened, rfl, hfilled ▸ List.mem_cons_self, hplan, hcarried⟩
    · exact .inl hd
  | fails error => exact .inl hdecl

/-- A declaration that a move does not change stands as before. -/
theorem Standing.move {id : DeclId} {original d : Declaration} {targets : List DeclId}
    (h : Standing Q past first id original d targets) (hmove : Move Q first act second)
    (hopenings : ∀ k, (id, k) ∈ second.openings → (id, k) ∈ first.openings)
    (hact : ∀ k target, act ≠ .links id k target) : Standing Q (past ++ [act]) second id original d targets where
  kind := h.kind
  answers := h.answers.imp fun _ _ hanswer =>
    hanswer.mono hmove.cleared fun t ht => (hmove.closed_iff t).mpr (.inl ht)
  entered k target := by
    rw [← h.entered, List.mem_append, List.mem_singleton, or_iff_left (Ne.symm (hact k target))]
  untouched := h.untouched
  closed := h.closed
  current k hk := h.current k (hopenings k hk)

section Standing

variable {ledger : Ledger} {id : DeclId} {original d : Declaration} {targets : List DeclId}

/-- A link that has been filled answers its name. -/
theorem Standing.answer (h : Standing Q past ledger id original d targets) {k : Nat} {target : DeclId}
    (hk : targets[k]? = some target) :
    ∃ named, original.names[k]? = some named ∧ Answers Q ledger.file named target := by
  obtain ⟨hlt, rfl⟩ := List.getElem?_eq_some_iff.mp hk
  obtain ⟨hlength, hget⟩ := List.forall₂_iff_get.mp h.answers
  have hk : k < (original.names.take targets.length).length := by omega
  have hanswer := hget k hk hlt
  rw [List.length_take] at hlength
  refine ⟨original.names[k], List.getElem?_eq_getElem (by omega), ?_⟩
  simpa using hanswer

/-- No more links have been filled than the declaration has. -/
theorem Standing.length_le (h : Standing Q past ledger id original d targets) :
    targets.length ≤ original.links.length := by
  have hlength := h.answers.length_eq
  have hroom := original.length_names_le
  rw [List.length_take] at hlength
  omega

/-- The links that have been filled come first, and the others are as they were. -/
theorem Standing.links_eq (h : Standing Q past ledger id original d targets) :
    d.links = targets.map some ++ original.links.drop targets.length := by
  rw [Declaration.links, h.kind]
  exact DeclKind.links_fill _ _ h.length_le

/-- A closed declaration, and one that is about to be closed, has all its links filled. -/
theorem Standing.links_of_filled (h : Standing Q past ledger id original d targets)
    (hfilled : d.mark = .closed ∨ (id, d.links.length) ∈ ledger.openings) :
    targets.length = original.links.length ∧ d.links = targets.map some := by
  have hroom := h.length_le
  have hlength := congrArg List.length h.links_eq
  rw [List.length_append, List.length_map, List.length_drop] at hlength
  have hall : targets.length = original.links.length := by
    rcases hfilled with hclosed | hcurrent
    · exact h.closed hclosed
    · have hcount := h.current _ hcurrent
      omega
  refine ⟨hall, ?_⟩
  rw [h.links_eq, List.drop_eq_nil_of_le hall.ge, List.append_nil]

/-- Opening a declaration fills nothing. -/
theorem Standing.opens (h : Standing Q past ledger id original d targets) (huntouched : d.mark = .untouched)
    (hsound : ledger.Sound) (hdecl : ledger.file.decl? id = some d) (file : SourceFile) (error : Option Error) :
    Standing Q (past ++ [.opens id]) ⟨file, (id, 0) :: ledger.openings, error⟩ id original { d with mark := .opened }
      [] := by
  obtain rfl := h.untouched huntouched
  refine ⟨h.kind, .nil, fun k target => ?_, fun _ => rfl, by simp, fun k hk => ?_⟩
  · rw [← h.entered k target]
    simp
  · rcases List.mem_cons.mp hk with heq | hk
    · exact (Prod.mk.inj heq).2.symm
    · have hopened := hsound.opened _ hk
      simp [SourceFile.mark?, hdecl, huntouched] at hopened

/-- Filling the next link of an open declaration. -/
theorem Standing.fills (h : Standing Q past ledger id original d targets) (hopened : d.mark = .opened)
    {target : DeclId} {file : SourceFile} {error : Option Error} {openings : List (DeclId × Nat)}
    (hcurrent : ledger.openings = (id, targets.length) :: openings) (hsound : ledger.Sound) {named : Ident × Reach}
    (hname : original.names[targets.length]? = some named) (hanswer : Answers Q file named target)
    (hmono : ∀ named target, Answers Q ledger.file named target → Answers Q file named target) :
    Standing Q (past ++ [.links id targets.length target]) ⟨file, (id, targets.length + 1) :: openings, error⟩ id
      original { d with kind := d.kind.setLink target targets.length } (targets ++ [target]) := by
  refine ⟨?_, ?_, fun k u => ?_, by simp [hopened], by simp [hopened], fun k hk => ?_⟩
  · rw [DeclKind.fill_concat, ← h.kind]
  · rw [List.length_append, List.length_singleton, List.take_add_one, hname, Option.toList_some]
    exact List.rel_append (h.answers.imp hmono) (.cons hanswer .nil)
  · rw [List.mem_append, h.entered, List.mem_singleton, Act.links.injEq]
    rcases Nat.lt_trichotomy k targets.length with hlt | rfl | hlt
    · rw [List.getElem?_append_left hlt]
      simp [hlt.ne]
    · simp [eq_comm]
    · simp [List.getElem?_eq_none_iff.mpr hlt.le, List.getElem?_append_right hlt.le, hlt.ne',
        show k - targets.length ≠ 0 by omega]
  · rw [List.length_append, List.length_singleton]
    rcases List.mem_cons.mp hk with heq | hk
    · exact (Prod.mk.inj heq).2.symm
    · have hdistinct := hsound.distinct
      rw [hcurrent] at hdistinct
      exact absurd (List.mem_map_of_mem hk) (List.nodup_cons.mp hdistinct).1

end Standing

/-- What has been closed after a further act was closed before, or the act closes it. -/
theorem mem_closings_concat {id : DeclId} : id ∈ closings (past ++ [act]) ↔ id ∈ closings past ∨ act = .closes id := by
  rw [closings_concat, List.mem_append]
  apply or_congr_right
  cases act <;> simp [Act.closed?, eq_comm]

/-- What was closed keeps its place in the order. -/
theorem idxOf_closings_concat {id : DeclId} (h : id ∈ closings past) :
    (closings (past ++ [act])).idxOf id = (closings past).idxOf id := by
  rw [closings_concat, List.idxOf_append_of_mem h]

namespace Integrity

variable (h : Integrity Q file past first) (hmove : Move Q first act second)

include h

/-- What a closed declaration stores in place is closed. -/
theorem closed_of_byValue {id target : DeclId} {d : Declaration} {name : Ident} {k : Nat}
    (hdecl : first.file.decl? id = some d) (hfilled : d.mark = .closed ∨ (id, d.links.length) ∈ first.openings)
    (hname : d.names[k]? = some (name, .byValue)) (hlink : d.links[k]? = some (some target)) :
    first.file.mark? target = some .closed := by
  obtain ⟨original, horiginal, hcleared⟩ := SourceFile.decl?_of_cleared_eq h.cleared.symm hdecl
  obtain ⟨targets, hstanding⟩ := h.standing id original d horiginal hdecl
  rw [(hstanding.links_of_filled hfilled).2, List.getElem?_map, Option.map_eq_some_iff] at hlink
  obtain ⟨t, ht, htarget⟩ := hlink
  obtain rfl := Option.some_inj.mp htarget
  obtain ⟨named, hnamed, -, e, he, -, hclosed⟩ := hstanding.answer ht
  rw [Declaration.names_of_cleared_eq hcleared, hname, Option.some_inj] at hnamed
  exact SourceFile.mark?_eq_some.mpr ⟨e, he, hclosed (hnamed ▸ rfl)⟩

include hmove

/-- After a move, what is not untouched has a name. -/
theorem move_named {id : DeclId} {d : Declaration} (hdecl : second.file.decl? id = some d)
    (hmark : d.mark ≠ .untouched) : d.name.name ≠ "" := by
  cases hmove with
  | opens hbefore huntouched hname hplan =>
    rcases SourceFile.decl?_of_setMark hbefore .opened hdecl with ⟨-, rfl⟩ | hd
    · exact hname
    · exact h.named id d hd hmark
  | @links now openings owner k target e t name reach hbefore hopened hname htarget htype hknown hclosed =>
    by_cases heq : owner = id
    · subst heq
      rw [SourceFile.setLink, SourceFile.decl?_update_self hbefore, Option.some_inj] at hdecl
      rw [← hdecl]
      exact h.named owner e hbefore (by simp [hopened])
    · rw [SourceFile.setLink, SourceFile.decl?_update_of_ne _ heq] at hdecl
      exact h.named id d hdecl hmark
  | @closes now openings t k e plan hbefore hopened hplan hcarried hfilled =>
    rcases SourceFile.decl?_of_setMark hbefore .closed hdecl with ⟨-, rfl⟩ | hd
    · exact h.named t e hbefore (by simp [hopened])
    · exact h.named id d hd hmark
  | fails error => exact h.named id d hdecl hmark

/-- After a move, the plan of what is closed has been carried out. -/
theorem move_carried {id : DeclId} {d : Declaration} (hdecl : second.file.decl? id = some d)
    (hmark : d.mark = .closed) : ∃ plan, d.plan? = some plan ∧ Carried second.file plan := by
  have hmono (t : DeclId) (ht : first.file.mark? t = some .closed) : second.file.mark? t = some .closed :=
    (hmove.closed_iff t).mpr (.inl ht)
  rcases hmove.decl?_closed hdecl hmark with hd | ⟨-, e, plan, -, -, rfl, -, hplan, hcarried⟩
  · obtain ⟨plan, hplan, hcarried⟩ := h.carried id d hd hmark
    exact ⟨plan, hplan, hcarried.mono hmono⟩
  · exact ⟨plan, hplan, hcarried.mono hmono⟩

/-- What is stored in place was closed earlier. -/
theorem move_ranked {id target : DeclId} {d : Declaration} {k : Nat} {name : Ident}
    (hdecl : second.file.decl? id = some d) (hmark : d.mark = .closed) (hname : d.names[k]? = some (name, .byValue))
    (hlink : d.links[k]? = some (some target)) :
    (closings (past ++ [act])).idxOf target < (closings (past ++ [act])).idxOf id := by
  rcases hmove.decl?_closed hdecl hmark with hd | ⟨rfl, e, plan, he, hopened, rfl, hfilled, -⟩
  · have htarget := h.closed_of_byValue hd (.inl hmark) hname hlink
    have hid : first.file.mark? id = some .closed := SourceFile.mark?_eq_some.mpr ⟨d, hd, hmark⟩
    rw [idxOf_closings_concat ((h.order target).mpr htarget), idxOf_closings_concat ((h.order id).mpr hid)]
    exact h.ranked id d k name target hd hmark hname hlink
  · have htarget := h.closed_of_byValue he (.inr hfilled) hname hlink
    have hid : id ∉ closings past := by
      rw [h.order, SourceFile.mark?, he]
      simp [hopened]
    have hlast : (closings (past ++ [.closes id])).idxOf id = (closings past).length := by
      rw [closings_concat, List.idxOf_append_of_notMem hid]
      simp [Act.closed?]
    rw [hlast, idxOf_closings_concat ((h.order target).mpr htarget)]
    exact List.idxOf_lt_length_of_mem ((h.order target).mpr htarget)

/-- After a move, what has become of each declaration is known. -/
theorem move_standing {id : DeclId} {original d : Declaration} (horiginal : file.decl? id = some original)
    (hdecl : second.file.decl? id = some d) : ∃ targets, Standing Q (past ++ [act]) second id original d targets := by
  have hkeep := hmove
  cases hmove with
  | @opens now openings t e plan hbefore huntouched hname hplan =>
    by_cases heq : t = id
    · subst heq
      obtain ⟨targets, hstanding⟩ := h.standing t original e horiginal hbefore
      rw [SourceFile.setMark, SourceFile.decl?_update_self hbefore, Option.some_inj] at hdecl
      exact ⟨[], hdecl ▸ hstanding.opens huntouched h.sound hbefore _ _⟩
    · rw [SourceFile.setMark, SourceFile.decl?_update_of_ne _ heq] at hdecl
      obtain ⟨targets, hstanding⟩ := h.standing id original d horiginal hdecl
      refine ⟨targets, hstanding.move hkeep (fun k hk => ?_) (by simp)⟩
      exact (List.mem_cons.mp hk).resolve_left fun hfirst => heq (Prod.mk.inj hfirst).1.symm
  | @links now openings owner k target e t name reach hbefore hopened hname htarget htype hknown hclosed =>
    by_cases heq : owner = id
    · subst heq
      obtain ⟨targets, hstanding⟩ := h.standing owner original e horiginal hbefore
      obtain rfl := hstanding.current k List.mem_cons_self
      rw [SourceFile.setLink, SourceFile.decl?_update_self hbefore, Option.some_inj] at hdecl
      rw [Declaration.names_of_cleared_eq (SourceFile.cleared_eq_of_decl? h.cleared horiginal hbefore)] at hname
      have hmono (named : Ident × Reach) (u : DeclId) (hanswer : Answers Q now named u) :=
        hanswer.mono hkeep.cleared fun v hv => (hkeep.closed_iff v).mpr (.inl hv)
      exact ⟨targets ++ [target], hdecl ▸ hstanding.fills hopened rfl h.sound hname
        (hmono _ _ ⟨hknown, t, htarget, htype, hclosed⟩) hmono⟩
    · rw [SourceFile.setLink, SourceFile.decl?_update_of_ne _ heq] at hdecl
      obtain ⟨targets, hstanding⟩ := h.standing id original d horiginal hdecl
      refine ⟨targets, hstanding.move hkeep (fun j hj => List.mem_cons_of_mem _ ?_) (by simp [heq])⟩
      exact (List.mem_cons.mp hj).resolve_left fun hfirst => heq (Prod.mk.inj hfirst).1.symm
  | @closes now openings t k e plan hbefore hopened hplan hcarried hfilled =>
    by_cases heq : t = id
    · subst heq
      obtain ⟨targets, hstanding⟩ := h.standing t original e horiginal hbefore
      rw [SourceFile.setMark, SourceFile.decl?_update_self hbefore, Option.some_inj] at hdecl
      subst hdecl
      have hmoved := hstanding.move hkeep (fun j hj => List.mem_cons_of_mem _ hj) (by simp)
      obtain ⟨hall, -⟩ := hstanding.links_of_filled (.inr (hfilled ▸ List.mem_cons_self))
      exact ⟨targets, hmoved.kind, hmoved.answers, hmoved.entered, by simp, fun _ => hall, hmoved.current⟩
    · rw [SourceFile.setMark, SourceFile.decl?_update_of_ne _ heq] at hdecl
      obtain ⟨targets, hstanding⟩ := h.standing id original d horiginal hdecl
      exact ⟨targets, hstanding.move hkeep (fun j hj => List.mem_cons_of_mem _ hj) (by simp)⟩
  | fails error =>
    obtain ⟨targets, hstanding⟩ := h.standing id original d horiginal hdecl
    exact ⟨targets, hstanding.move hkeep (fun _ hk => hk) (by simp)⟩

/-- A move keeps the invariant. -/
theorem move : Integrity Q file (past ++ [act]) second where
  sound := hmove.sound h.sound
  cleared := hmove.cleared.trans h.cleared
  standing _ _ _ horiginal hdecl := h.move_standing hmove horiginal hdecl
  named _ _ hdecl hmark := h.move_named hmove hdecl hmark
  carried _ _ hdecl hmark := h.move_carried hmove hdecl hmark
  order id := by rw [mem_closings_concat, hmove.closed_iff, h.order]
  ranked _ _ _ _ _ hdecl hmark hname hlink := h.move_ranked hmove hdecl hmark hname hlink

omit hmove

/-- A new call starts with nothing open. -/
theorem restart : Integrity Q file past ⟨first.file, [], none⟩ where
  sound := .start _ _
  cleared := h.cleared
  standing id original d horiginal hdecl := by
    obtain ⟨targets, hstanding⟩ := h.standing id original d horiginal hdecl
    exact ⟨targets, hstanding.kind, hstanding.answers, hstanding.entered, hstanding.untouched, hstanding.closed,
      by simp⟩
  named := h.named
  carried := h.carried
  order := h.order
  ranked := h.ranked

end Integrity

/-- Before the first call nothing is open, closed or filled. -/
theorem Integrity.start (Q : String → DeclId → Prop) {file : SourceFile}
    (huntouched : ∀ d ∈ file.declarations, d.mark = .untouched) : Integrity Q file [] ⟨file, [], none⟩ := by
  have hmark {id : DeclId} {d : Declaration} (hdecl : file.decl? id = some d) : d.mark = .untouched :=
    huntouched d (List.mem_of_getElem? hdecl)
  refine ⟨.start _ _, rfl, ?_, ?_, ?_, ?_, ?_⟩
  · intro id original d horiginal hdecl
    obtain rfl := Option.some_inj.mp (horiginal.symm.trans hdecl)
    exact ⟨[], rfl, .nil, by simp, fun _ => rfl, by simp [hmark hdecl], by simp⟩
  · intro id d hdecl hne
    exact absurd (hmark hdecl) hne
  · intro id d hdecl hclosed
    simp [hmark hdecl] at hclosed
  · intro id
    refine iff_of_false (by simp [closings]) fun hclosed => ?_
    simpa using SourceFile.mark?_of_untouched huntouched hclosed
  · intro id d k name target hdecl hclosed
    simp [hmark hdecl] at hclosed

end Keeping

/-- A declaration that is complete in a file. -/
structure Complete (now : SourceFile) (d : Declaration) : Prop where
  named : d.name.name ≠ ""
  /-- It is a variable, or a record whose members have distinct names. -/
  kind : d.isVariable = true ∨ ∃ kind members, d.kind = .record kind members ∧ (members.map (·.name.name)).Nodup
  /-- Each of its named types is linked to a type of the name, and to a closed record if it is stored in place. -/
  linked : ∀ env inner name reach link, (inner, .named name reach link) ∈ d.kind.nodes env →
    ∃ target e, link = some target ∧ now.decl? target = some e ∧ e.isVariable = false ∧ e.name.name = name.name ∧
      (reach = .byValue → e.mark = .closed ∧ ∃ kind members, e.kind = .record kind members)
  /-- What it declares is closed. -/
  declared : ∀ env inner id span, (inner, .declaration id span) ∈ d.kind.nodes env → now.mark? id = some .closed
  /-- Nothing in it is refused, so that it has no named types besides those nodes. -/
  accepted : ∀ env inner construct span, (inner, .refused construct span) ∉ d.kind.nodes env

/-- A record whose plan has been carried out has members with distinct names. -/
theorem Carried.nodup_members {now : SourceFile} {d : Declaration} {plan : List Step} (h : Carried now plan)
    (hplan : d.plan? = some plan) {kind : RecordKind} {members : List (Slot TypeExpr)}
    (hkind : d.kind = .record kind members) : (members.map (·.name.name)).Nodup := by
  refine ((Slot.firstRepeat?_eq_none_iff [] members).mp ?_).1
  cases hrepeat : Slot.firstRepeat? [] members with
  | none => rfl
  | some slot =>
    simp only [Declaration.plan?, hkind, Option.some_inj, memberChecks, hrepeat] at hplan
    exact absurd rfl ((h (.reject _) (hplan ▸ List.mem_append_right _ List.mem_cons_self)).1 _)

namespace Integrity

variable {file : SourceFile} {past : List Act} {ledger : Ledger}

/-- A link that has been filled leads to a type of its name. -/
theorem linked (h : Integrity (fun name id => file.isNamed name id = true) file past ledger) {id : DeclId}
    {original d : Declaration} (horiginal : file.decl? id = some original) (hdecl : ledger.file.decl? id = some d)
    {k : Nat} {target : DeclId} (hentered : .links id k target ∈ past) :
    ∃ name reach e, d.names[k]? = some (name, reach) ∧ d.links[k]? = some (some target) ∧
      ledger.file.decl? target = some e ∧ e.isVariable = false ∧ e.name.name = name.name ∧
      (reach = .byValue → e.mark = .closed) := by
  obtain ⟨targets, hstanding⟩ := h.standing id original d horiginal hdecl
  have hk := (hstanding.entered k target).mp hentered
  obtain ⟨⟨name, reach⟩, hname, hnamed, e, he, htype, hclosed⟩ := hstanding.answer hk
  obtain ⟨e₀, he₀, heq⟩ := SourceFile.isNamed_iff.mp hnamed
  have hcleared := SourceFile.cleared_eq_of_decl? h.cleared he₀ he
  refine ⟨name, reach, e, ?_, ?_, he, htype, ?_, hclosed⟩
  · rw [Declaration.names_of_cleared_eq (SourceFile.cleared_eq_of_decl? h.cleared horiginal hdecl)]
    exact hname
  · rw [hstanding.links_eq, List.getElem?_append_left, List.getElem?_map, hk, Option.map_some]
    rw [List.length_map]
    exact (List.getElem?_eq_some_iff.mp hk).1
  · rw [Declaration.name_of_cleared_eq hcleared]
    exact heq

/-- Every link of a closed declaration has been filled. -/
theorem exists_entered {Q : String → DeclId → Prop} (h : Integrity Q file past ledger) {id : DeclId}
    {original d : Declaration} (horiginal : file.decl? id = some original) (hdecl : ledger.file.decl? id = some d)
    (hmark : d.mark = .closed) {k : Nat} {link : Option DeclId} (hlink : d.links[k]? = some link) :
    ∃ target, link = some target ∧ .links id k target ∈ past := by
  obtain ⟨targets, hstanding⟩ := h.standing id original d horiginal hdecl
  rw [(hstanding.links_of_filled (.inl hmark)).2, List.getElem?_map, Option.map_eq_some_iff] at hlink
  obtain ⟨target, htarget, rfl⟩ := hlink
  exact ⟨target, rfl, (hstanding.entered k target).mpr htarget⟩

/-- What is closed is complete. -/
theorem complete (h : Integrity (fun name id => file.isNamed name id = true) file past ledger) {id : DeclId}
    {d : Declaration} (hdecl : ledger.file.decl? id = some d) (hmark : d.mark = .closed) : Complete ledger.file d := by
  obtain ⟨original, horiginal, -⟩ := SourceFile.decl?_of_cleared_eq h.cleared.symm hdecl
  obtain ⟨plan, hplan, hcarried⟩ := h.carried id d hdecl hmark
  have hsome : d.plan?.isSome := by rw [hplan]; rfl
  refine ⟨h.named id d hdecl (by simp [hmark]), ?_, ?_, ?_, ?_⟩
  · cases hvariable : d.isVariable with
    | true => exact .inl rfl
    | false =>
      obtain ⟨kind, members, hkind⟩ := Declaration.record_of_plan hsome hvariable
      exact .inr ⟨kind, members, hkind, hcarried.nodup_members hplan hkind⟩
  · intro env inner name reach link hnode
    obtain ⟨k, hname, hlink⟩ := Declaration.exists_name_of_node hplan hnode
    obtain ⟨target, rfl, hentered⟩ := h.exists_entered horiginal hdecl hmark hlink
    obtain ⟨other, r, e, hother, -, he, htype, heq, hclosed⟩ := h.linked horiginal hdecl hentered
    obtain ⟨rfl, rfl⟩ := Prod.mk.inj (Option.some_inj.mp (hname.symm.trans hother))
    refine ⟨target, e, rfl, he, htype, heq, fun hvalue => ⟨hclosed hvalue, ?_⟩⟩
    obtain ⟨targetPlan, htargetPlan, -⟩ := h.carried target e he (hclosed hvalue)
    exact Declaration.record_of_plan (by rw [htargetPlan]; rfl) htype
  · intro env inner t span hnode
    exact (hcarried _ (Declaration.mem_plan_of_node hplan hnode (List.mem_singleton_self _))).2 _ rfl
  · intro env inner construct span hnode
    exact (hcarried _ (Declaration.mem_plan_of_node hplan hnode (List.mem_singleton_self _))).1 _ rfl

end Integrity

/-- What holds at every moment of calls on a file in which nothing had been opened, with tables that are built from the
declarations of the file, between two calls or in the middle of one and whether calls have failed or not. What is closed
is complete; what it stores in place ranks below it; a link that has been filled is as it was filled, and leads to a
type of its name; and all other links are as in the file. -/
theorem closed_declarations_are_complete {p : Progress} {calls : List (Call hash)} {past : List Act} {now : SourceFile}
    (huntouched : ∀ d ∈ p.file.declarations, d.mark = .untouched) (hbuilt : ∀ call ∈ calls, call.Built p.file)
    (hpast : past <+: (journal p calls).flatten) (hnow : now = p.file.replay past) :
    (runCalls p calls).file = p.file.replay (journal p calls).flatten ∧
    (∀ id d, now.decl? id = some d → d.mark = .closed → Complete now d) ∧
    (∃ rank : DeclId → Nat, ∀ id d env inner name target, now.decl? id = some d → d.mark = .closed →
      (inner, .named name .byValue (some target)) ∈ d.kind.nodes env → rank target < rank id) ∧
    ∀ id original d, p.file.decl? id = some original → now.decl? id = some d →
      (∀ k target, .links id k target ∈ past → ∃ name reach e, d.names[k]? = some (name, reach) ∧
        d.links[k]? = some (some target) ∧ now.decl? target = some e ∧ e.isVariable = false ∧
        e.name.name = name.name) ∧
      ∀ k : Nat, (∀ target, .links id k target ∉ past) → d.links[k]? = original.links[k]? := by
  have hruns := runs_journal (fun call hcall => (hbuilt call hcall).binds) p.file.namedBy_isNamed
  obtain ⟨ledger, hledger, hfile⟩ := hruns.moment (fun hmove h => h.move hmove) Integrity.restart
    (Integrity.start _ huntouched) hpast
  rw [List.nil_append] at hledger
  obtain rfl : ledger.file = now := hfile.trans hnow.symm
  refine ⟨hruns.replay_eq.symm, fun id d hdecl hmark => hledger.complete hdecl hmark,
    ⟨(closings past).idxOf, ?_⟩, fun id original d horiginal hdecl => ⟨fun k target hentered => ?_, ?_⟩⟩
  · intro id d env inner name target hdecl hmark hnode
    obtain ⟨plan, hplan, -⟩ := hledger.carried id d hdecl hmark
    obtain ⟨k, hname, hlink⟩ := Declaration.exists_name_of_node hplan hnode
    exact hledger.ranked id d k name target hdecl hmark hname hlink
  · obtain ⟨name, reach, e, hname, hlink, he, htype, heq, -⟩ := hledger.linked horiginal hdecl hentered
    exact ⟨name, reach, e, hname, hlink, he, htype, heq⟩
  · intro k hnone
    obtain ⟨targets, hstanding⟩ := hledger.standing id original d horiginal hdecl
    have hk : targets.length ≤ k := by
      by_contra hlt
      exact hnone _ ((hstanding.entered k _).mpr (List.getElem?_eq_getElem (not_le.mp hlt)))
    rw [hstanding.links_eq, List.getElem?_append_right (by rwa [List.length_map]), List.getElem?_drop, List.length_map,
      Nat.add_sub_cancel' hk]

/-- A record that holds another one and points to itself, and a variable whose type is not declared. -/
def interrupted : SourceFile :=
  let here := Span.nowhere
  ⟨[⟨⟨"Inner", here⟩, .record .struct [], here, .untouched⟩,
    ⟨⟨"Outer", here⟩, .record .struct [⟨⟨"inner", here⟩, .named ⟨"Inner", here⟩ none, here⟩,
      ⟨⟨"next", here⟩, .pointer (.named ⟨"Outer", here⟩ none) here, here⟩], here, .untouched⟩,
    ⟨⟨"v", here⟩, .mutable (.named ⟨"Missing", here⟩ none) none, here, .untouched⟩], [0, 1, 2]⟩

/-- Two calls that fail, of which the second one closes both records before it meets the variable, which the first one
has left open. -/
theorem interrupted_complete :
    let calls := [.resolve (Scopes.root nameHash).push 2, .resolveFile]
    (runCalls ⟨interrupted, []⟩ calls).file.mark? 2 = some .opened ∧
    ∃ d, (runCalls ⟨interrupted, []⟩ calls).file.decl? 1 = some d ∧ d.mark = .closed ∧
      Complete (runCalls ⟨interrupted, []⟩ calls).file d := by
  intro calls
  have hbuilt : ∀ call ∈ calls, call.Built interrupted := by
    refine List.forall_mem_cons.mpr ⟨.push .root, List.forall_mem_cons.mpr ⟨trivial, by simp⟩⟩
  obtain ⟨hend, hcomplete, -⟩ := closed_declarations_are_complete (p := ⟨interrupted, []⟩) (by simp [interrupted])
    hbuilt (List.prefix_refl _) rfl
  have hclosed : (runCalls ⟨interrupted, []⟩ calls).file.mark? 1 = some .closed := by decide +kernel
  obtain ⟨d, hdecl, hmark⟩ := SourceFile.mark?_eq_some.mp hclosed
  refine ⟨by decide +kernel, d, hdecl, hmark, ?_⟩
  rw [hend] at hdecl ⊢
  exact hcomplete 1 d hdecl hmark

end DeclTree

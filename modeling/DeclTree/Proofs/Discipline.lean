import DeclTree.Proofs.Calls

/-!
# The discipline of calls

Over any number of calls, failing ones included, a declaration is opened at most once and closed at most once, and a
link is filled at most once. Inside a call openings and closings are nested, a call that succeeds closes what it has
opened, and what a call that fails leaves open is what was open when the error arose, and stays open.

At most once is one argument for all three: an act uses something up that is never restored (`Once`).
-/

namespace DeclTree

variable {hash : String → Nat}

/-- What is open after an act, innermost first; none if the act is about a declaration that is not the innermost. -/
def Act.nest? (openings : List DeclId) : Act → Option (List DeclId)
  | opens id => some (id :: openings)
  | closes id => if openings.head? = some id then some openings.tail else none
  | links owner _ _ => if openings.head? = some owner then some openings else none
  | fails _ => some openings

/-- Acts use something up, each key once: what is spent stays spent, and an act with a key spends what was not spent
before. What is spent in a call is spent for all later calls. -/
structure Once (Q : String → DeclId → Prop) {κ : Type} (key : Act → Option κ) (Spent : κ → Ledger → Prop) : Prop where
  keeps : ∀ {k first act second}, Move Q first act second → Spent k first → Spent k second
  spends : ∀ {k first act second}, Move Q first act second → first.Sound → key act = some k →
    ¬Spent k first ∧ Spent k second
  rests : ∀ {k file left error}, Spent k ⟨file, left, error⟩ → Spent k ⟨file, [], none⟩

namespace Once

variable {Q : String → DeclId → Prop} {κ : Type} {key : Act → Option κ} {Spent : κ → Ledger → Prop}

/-- In a call no key is used twice, nor one that was spent before. -/
theorem moves (h : Once Q key Spent) {first last : Ledger} {acts : List Act} (hmoves : Moves Q first acts last)
    (hsound : first.Sound) :
    (acts.filterMap key).Nodup ∧ (∀ k, Spent k first → k ∉ acts.filterMap key ∧ Spent k last) ∧
      ∀ k ∈ acts.filterMap key, Spent k last := by
  induction hmoves with
  | nil ledger => simp
  | @cons first second last act acts hmove hmoves ih =>
    obtain ⟨hnodup, hspent, hused⟩ := ih (hmove.sound hsound)
    cases hkey : key act with
    | none =>
      rw [List.filterMap_cons_none hkey]
      exact ⟨hnodup, fun k hk => hspent k (h.keeps hmove hk), hused⟩
    | some j =>
      obtain ⟨hfresh, hspends⟩ := h.spends hmove hsound hkey
      obtain ⟨hlater, hlast⟩ := hspent j hspends
      rw [List.filterMap_cons_some hkey]
      refine ⟨List.nodup_cons.mpr ⟨hlater, hnodup⟩, fun k hk => ?_, List.forall_mem_cons.mpr ⟨hlast, hused⟩⟩
      obtain ⟨hnot, hkept⟩ := hspent k (h.keeps hmove hk)
      have hne : k ≠ j := fun heq => hfresh (heq ▸ hk)
      exact ⟨by simp [hne, hnot], hkept⟩

/-- In a history of calls no key is used twice, nor one that was spent before. -/
theorem runs (h : Once Q key Spent) {file last : SourceFile} {parts : List (List Act)}
    (hruns : Runs Q file parts last) :
    (parts.flatten.filterMap key).Nodup ∧ ∀ k, Spent k ⟨file, [], none⟩ → k ∉ parts.flatten.filterMap key := by
  induction hruns with
  | nil file => simp
  | @cons file next last left error acts rest hmoves hruns ih =>
    obtain ⟨hnodup, hspent, hused⟩ := h.moves hmoves (.start _ _)
    obtain ⟨hrest, hlater⟩ := ih
    rw [List.flatten_cons, List.filterMap_append]
    refine ⟨List.nodup_append'.mpr ⟨hnodup, hrest, ?_⟩, fun k hk => ?_⟩
    · intro k hk
      exact hlater k (h.rests (hused k hk))
    · obtain ⟨hnot, hkept⟩ := hspent k hk
      rw [List.mem_append, not_or]
      exact ⟨hnot, hlater k (h.rests hkept)⟩

end Once

section Once

variable (Q : String → DeclId → Prop)

/-- Opening uses up that a declaration is untouched. -/
theorem opened_once :
    Once Q Act.opened? fun id ledger => ledger.file.mark? id = some .opened ∨ ledger.file.mark? id = some .closed where
  keeps {id first act second} hmove hspent := by
    rcases hmove.mark? id with heq | ⟨-, hbefore, -⟩ | ⟨-, -, hafter⟩
    · rwa [heq]
    · simp [hbefore] at hspent
    · exact .inr hafter
  spends {id first act second} hmove _ hkey := by
    cases hmove with
    | opens hdecl hmark hname hplan =>
      obtain rfl := Option.some_inj.mp hkey
      have huntouched := SourceFile.mark?_eq_some.mpr ⟨_, hdecl, hmark⟩
      exact ⟨by simp [huntouched], .inl (SourceFile.mark?_setMark_self huntouched _)⟩
    | _ => simp [Act.opened?] at hkey
  rests hspent := hspent

/-- Closing uses up that a declaration is not closed. -/
theorem closed_once : Once Q Act.closed? fun id ledger => ledger.file.mark? id = some .closed where
  keeps {id first act second} hmove hspent := by
    rcases hmove.mark? id with heq | ⟨-, hbefore, -⟩ | ⟨-, hbefore, -⟩
    · rwa [heq]
    · simp [hbefore] at hspent
    · simp [hbefore] at hspent
  spends {id first act second} hmove _ hkey := by
    cases hmove with
    | closes hdecl hmark hplan hcarried hfilled =>
      obtain rfl := Option.some_inj.mp hkey
      have hopened := SourceFile.mark?_eq_some.mpr ⟨_, hdecl, hmark⟩
      exact ⟨by simp [hopened], SourceFile.mark?_setMark_self hopened _⟩
    | _ => simp [Act.closed?] at hkey
  rests hspent := hspent

/-- Filling a link uses up the number of the link: the owner has been touched, and if it is being filled, the links up
to that number are filled. -/
theorem filled_once :
    Once Q Act.filled? fun cell ledger =>
      (ledger.file.mark? cell.1 = some .opened ∨ ledger.file.mark? cell.1 = some .closed) ∧
        ∀ k, (cell.1, k) ∈ ledger.openings → cell.2 < k where
  keeps {cell first act second} hmove := by
    rintro ⟨htouched, hpast⟩
    refine ⟨(opened_once Q).keeps hmove htouched, fun k hk => ?_⟩
    cases hmove with
    | opens hdecl hmark hname hplan =>
      rcases List.mem_cons.mp hk with heq | hk
      · obtain ⟨hid, -⟩ := Prod.mk.inj heq
        rw [hid, SourceFile.mark?, hdecl] at htouched
        simp [hmark] at htouched
      · exact hpast k hk
    | links hdecl hmark hname htarget htype hknown hclosed =>
      rcases List.mem_cons.mp hk with heq | hk
      · obtain ⟨hid, rfl⟩ := Prod.mk.inj heq
        have hbefore := hpast _ (by rw [hid]; exact List.mem_cons_self)
        omega
      · exact hpast k (List.mem_cons_of_mem _ hk)
    | closes hdecl hmark hplan hcarried hfilled => exact hpast k (List.mem_cons_of_mem _ hk)
    | fails error => exact hpast k hk
  spends {cell first act second} hmove hsound hkey := by
    cases hmove with
    | @links file openings owner k target d e name reach hdecl hmark hname htarget htype hknown hclosed =>
      obtain rfl := Option.some_inj.mp hkey
      refine ⟨fun hspent => ?_, .inl ?_, fun j hj => ?_⟩
      · exact Nat.lt_irrefl k (hspent.2 k List.mem_cons_self)
      · exact (SourceFile.mark?_setLink _ _ _ _ _).trans (SourceFile.mark?_eq_some.mpr ⟨d, hdecl, hmark⟩)
      · rcases List.mem_cons.mp hj with heq | hj
        · obtain ⟨-, rfl⟩ := Prod.mk.inj heq
          exact Nat.lt_succ_self k
        · exact absurd (List.mem_map_of_mem hj) (List.nodup_cons.mp hsound.distinct).1
    | _ => simp [Act.filled?] at hkey
  rests hspent := ⟨hspent.1, by simp⟩

end Once

section Nesting

variable {Q : String → DeclId → Prop} {first last : Ledger} {acts : List Act}

/-- Acts are about the innermost open declaration. -/
theorem Move.nest? {second : Ledger} {act : Act} (h : Move Q first act second) :
    act.nest? (first.openings.map (·.1)) = some (second.openings.map (·.1)) := by
  cases h <;> simp [Act.nest?]

/-- In a row of moves, only the innermost declaration that is open is changed or closed. -/
theorem Moves.foldlM_nest? (h : Moves Q first acts last) :
    acts.foldlM Act.nest? (first.openings.map (·.1)) = some (last.openings.map (·.1)) := by
  induction h with
  | nil => rfl
  | cons hmove _ ih =>
    rw [List.foldlM_cons, hmove.nest?]
    exact ih

/-- Nothing follows an error. -/
theorem Moves.eq_nil_of_error {error : Error} (h : Moves Q first acts last) (hfirst : first.error = some error) :
    acts = [] := by
  cases h with
  | nil => rfl
  | cons hmove _ => cases hmove <;> simp at hfirst

/-- An error is the last of the acts, if there is one. -/
theorem Moves.error_last (h : Moves Q first acts last) (hfirst : first.error = none) :
    ∃ writes, acts = writes ++ endActs last.error ∧ ∀ error, .fails error ∉ writes := by
  induction h with
  | nil ledger => exact ⟨[], by simp [hfirst, endActs], by simp⟩
  | @cons first second last act acts hmove hmoves ih =>
    cases hmove with
    | fails error =>
      obtain rfl := hmoves.eq_nil_of_error rfl
      cases hmoves
      exact ⟨[], rfl, by simp⟩
    | opens | links | closes =>
      obtain ⟨writes, rfl, hwrites⟩ := ih rfl
      exact ⟨_ :: writes, rfl, fun error => by simp [hwrites error]⟩

/-- What has become of the marks of a file: what is open in the ledger was untouched, and all else is as it was or has
been closed since. -/
structure Ledger.Since (file : SourceFile) (ledger : Ledger) : Prop where
  opened : ∀ id ∈ ledger.openings.map (·.1), file.mark? id = some .untouched
  others : ∀ id, id ∉ ledger.openings.map (·.1) → ledger.file.mark? id = file.mark? id ∨
    (file.mark? id = some .untouched ∧ ledger.file.mark? id = some .closed)

/-- A move keeps what is known of the marks of the file. -/
theorem Move.since {file : SourceFile} {second : Ledger} {act : Act} (h : Move Q first act second)
    (hsound : first.Sound) (hsince : first.Since file) : second.Since file := by
  cases h with
  | @opens now openings t d plan hdecl hmark hname hplan =>
    have huntouched : now.mark? t = some .untouched := SourceFile.mark?_eq_some.mpr ⟨d, hdecl, hmark⟩
    constructor
    · intro id hid
      rcases List.mem_cons.mp hid with rfl | hid
      · have hclosed : id ∉ openings.map (·.1) := by
          intro hmem
          obtain ⟨entry, hentry, rfl⟩ := List.mem_map.mp hmem
          simpa [huntouched] using hsound.opened entry hentry
        rcases hsince.others id hclosed with heq | ⟨hfile, -⟩
        · exact heq.symm.trans huntouched
        · exact hfile
      · exact hsince.opened id hid
    · intro id hid
      rw [SourceFile.mark?_setMark_of_ne _ (Ne.symm (List.ne_of_not_mem_cons hid))]
      exact hsince.others id (List.not_mem_of_not_mem_cons hid)
  | links hdecl hmark hname htarget htype hknown hclosed =>
    refine ⟨hsince.opened, fun id hid => ?_⟩
    rw [SourceFile.mark?_setLink]
    exact hsince.others id hid
  | @closes now openings t k d plan hdecl hmark hplan hcarried hfilled =>
    refine ⟨fun id hid => hsince.opened id (List.mem_cons_of_mem _ hid), fun id hid => ?_⟩
    by_cases heq : t = id
    · subst heq
      have hopened : now.mark? t = some .opened := SourceFile.mark?_eq_some.mpr ⟨d, hdecl, hmark⟩
      exact .inr ⟨hsince.opened t List.mem_cons_self, SourceFile.mark?_setMark_self hopened _⟩
    · rw [SourceFile.mark?_setMark_of_ne _ heq]
      exact hsince.others id (List.not_mem_cons_of_ne_of_not_mem (Ne.symm heq) hid)
  | fails error => exact ⟨hsince.opened, hsince.others⟩

/-- What a call leaves open is what was open before and what it has opened and not closed. -/
theorem Moves.opened_iff {file : SourceFile} (h : Moves Q ⟨file, [], none⟩ acts last) (id : DeclId) :
    last.file.mark? id = some .opened ↔ file.mark? id = some .opened ∨ id ∈ last.openings.map (·.1) := by
  have hstart : Ledger.Since file ⟨file, [], none⟩ := ⟨by simp, fun _ _ => .inl rfl⟩
  obtain ⟨hsound, hsince⟩ : last.Sound ∧ last.Since file :=
    h.keeps (P := fun ledger => ledger.Sound ∧ ledger.Since file)
      (fun hmove hkept => ⟨hmove.sound hkept.1, hmove.since hkept.1 hkept.2⟩) ⟨.start file none, hstart⟩
  by_cases hid : id ∈ last.openings.map (·.1)
  · obtain ⟨entry, hentry, rfl⟩ := List.mem_map.mp hid
    exact iff_of_true (hsound.opened entry hentry) (.inr hid)
  · rcases hsince.others id hid with heq | ⟨hfile, hlast⟩
    · simp [heq, hid]
    · simp [hfile, hlast, hid]

end Nesting

section Planned

variable {Q : String → DeclId → Prop} {first last : Ledger} {acts : List Act} {act : Act}

/-- Each act is made by a move. -/
theorem Moves.exists_move (h : Moves Q first acts last) (hact : act ∈ acts) :
    ∃ past before after, Moves Q first past before ∧ Move Q before act after := by
  obtain ⟨past, rest, rfl⟩ := List.append_of_mem hact
  obtain ⟨middle, hpast, hrest⟩ := h.split
  cases hrest with
  | cons hmove _ => exact ⟨past, middle, _, hpast, hmove⟩

/-- What is open in a ledger has a plan in the file. -/
def Ledger.Planned (file : SourceFile) (ledger : Ledger) : Prop :=
  ledger.file.cleared = file.cleared ∧
    ∀ entry ∈ ledger.openings, ∃ d plan, file.decl? entry.1 = some d ∧ d.plan? = some plan

/-- A move keeps what is open planned, and changes only a declaration that has a plan. -/
theorem Move.planned {file : SourceFile} {second : Ledger} (h : Move Q first act second)
    (hplanned : first.Planned file) :
    second.Planned file ∧ ∀ id, act.changed? = some id → ∃ d plan, file.decl? id = some d ∧ d.plan? = some plan := by
  have hnow := h.cleared.trans hplanned.1
  obtain ⟨hcleared, hopenings⟩ := hplanned
  cases h with
  | opens hdecl hmark hname hplan =>
    obtain ⟨d, hd, hdplan⟩ := SourceFile.plan_of_cleared_eq hcleared.symm hdecl hplan
    refine ⟨⟨hnow, ?_⟩, ?_⟩
    · exact List.forall_mem_cons.mpr ⟨⟨d, _, hd, hdplan⟩, hopenings⟩
    · rintro _ ⟨rfl⟩
      exact ⟨d, _, hd, hdplan⟩
  | links hdecl hmark hname htarget htype hknown hclosed =>
    obtain ⟨hfirst, hrest⟩ := List.forall_mem_cons.mp hopenings
    refine ⟨⟨hnow, ?_⟩, ?_⟩
    · exact List.forall_mem_cons.mpr ⟨hfirst, hrest⟩
    · rintro _ ⟨rfl⟩
      exact hfirst
  | closes hdecl hmark hplan hcarried hfilled =>
    obtain ⟨hfirst, hrest⟩ := List.forall_mem_cons.mp hopenings
    refine ⟨⟨hnow, hrest⟩, ?_⟩
    rintro _ ⟨rfl⟩
    exact hfirst
  | fails error => exact ⟨⟨hnow, hopenings⟩, by simp [Act.changed?]⟩

/-- Only declarations that have a plan are changed. -/
theorem Moves.plan_of_changed {file : SourceFile} (h : Moves Q ⟨file, [], none⟩ acts last) (hact : act ∈ acts)
    {id : DeclId} (hid : act.changed? = some id) : ∃ d plan, file.decl? id = some d ∧ d.plan? = some plan := by
  obtain ⟨past, before, after, hpast, hmove⟩ := h.exists_move hact
  have hplanned : before.Planned file := hpast.keeps (fun hmove hkept => (hmove.planned hkept).1) ⟨rfl, by simp⟩
  exact (hmove.planned hplanned).2 id hid

/-- Only links that there are are filled. -/
theorem Moves.lt_of_links {file : SourceFile} (h : Moves Q ⟨file, [], none⟩ acts last) {owner target : DeclId} {k : Nat}
    (hact : .links owner k target ∈ acts) : ∃ d, file.decl? owner = some d ∧ k < d.links.length := by
  obtain ⟨past, before, after, hpast, hmove⟩ := h.exists_move hact
  obtain ⟨d, plan, hd, hplan⟩ := h.plan_of_changed hact rfl
  have hplanned : before.Planned file := hpast.keeps (fun hmove hkept => (hmove.planned hkept).1) ⟨rfl, by simp⟩
  cases hmove with
  | links hdecl hmark hname htarget htype hknown hclosed =>
    obtain ⟨hlt, -⟩ := List.getElem?_eq_some_iff.mp hname
    rw [Declaration.names_of_cleared_eq (SourceFile.cleared_eq_of_decl? hplanned.1 hd hdecl),
      Declaration.length_names hplan] at hlt
    exact ⟨d, hd, hlt⟩

end Planned

/-- An enumeration or a sum has no plan. -/
theorem Declaration.kind_of_plan {d : Declaration} {plan : List Step} (hplan : d.plan? = some plan) :
    (∀ members, d.kind ≠ .enumeration members) ∧ ∀ members, d.kind ≠ .sum members := by
  have hsome : ¬((∃ members, d.kind = .enumeration members) ∨ ∃ members, d.kind = .sum members) := by
    rw [← plan?_eq_none_iff, hplan]
    exact Option.some_ne_none plan
  simpa using hsome

/-- What can be said of the acts of one call, whatever calls were made before. -/
structure Call.Disciplined (call : Call hash) (p : Progress) : Prop where
  /-- Replaying the acts leaves the file that the call leaves. -/
  replay : p.file.replay (call.acts p) = (call.run p).1.file
  /-- The openings and closings are those that the call records. -/
  recorded : (call.run p).1.trail = ((call.acts p).filter Act.isMarking).reverse ++ p.trail
  /-- Only the innermost open declaration is closed or linked. What the call leaves open is open afterwards, besides
  what was open before; if the call succeeds, it leaves nothing open. -/
  nested : ∃ left, (call.acts p).foldlM Act.nest? [] = some left ∧ ((call.run p).2 = none → left = []) ∧
    ∀ id, (call.run p).1.file.mark? id = some .opened ↔ p.file.mark? id = some .opened ∨ id ∈ left
  /-- If the call fails, its error is the last act, and nothing is written afterwards. -/
  stopped : ∃ writes, call.acts p = writes ++ endActs (call.run p).2 ∧ ∀ error, .fails error ∉ writes
  /-- Neither an enumeration nor a sum is ever changed. -/
  changed : ∀ act ∈ call.acts p, ∀ id, act.changed? = some id → ∃ d, p.file.decl? id = some d ∧
    (∀ members, d.kind ≠ .enumeration members) ∧ ∀ members, d.kind ≠ .sum members
  /-- A link that is filled is one of its declaration. -/
  filled : ∀ owner k target, .links owner k target ∈ call.acts p → ∃ d, p.file.decl? owner = some d ∧ k < d.links.length

/-- Every call is disciplined, whether it succeeds or fails. -/
theorem Call.disciplined (call : Call hash) (p : Progress) : call.Disciplined p := by
  have hnamed : p.file.NamedBy fun _ _ => True := fun _ _ _ => trivial
  obtain ⟨left, hmoves, hleft⟩ := Call.moves call.binds_true hnamed
  have htrail : (call.run p).1.trail = ((call.acts p).filter Act.isMarking).reverse ++ p.trail := by
    have htracked := Call.tracked call.binds_true hnamed
    rcases hrun : call.run p with ⟨q, _ | error⟩
    · rw [hrun] at htracked
      exact htracked.trail
    · rw [hrun] at htracked
      obtain ⟨_, hfollows⟩ := htracked
      exact hfollows.trail
  refine ⟨hmoves.replay_eq, htrail,
    ⟨left.map Prod.fst, hmoves.foldlM_nest?, fun h => by simp [hleft h], ?_⟩, ?_, ?_, ?_⟩
  · exact hmoves.opened_iff
  · exact hmoves.error_last rfl
  · intro act hact id hid
    obtain ⟨d, plan, hd, hplan⟩ := hmoves.plan_of_changed hact hid
    exact ⟨d, hd, d.kind_of_plan hplan⟩
  · intro owner k target hact
    exact hmoves.lt_of_links hact

/-- Over any calls, from any state of a file, a declaration is opened at most once and closed at most once and a link is
filled at most once, each call is disciplined, and a declaration that a call leaves open stays as it is. -/
theorem calls_keep_discipline (p : Progress) (calls : List (Call hash)) :
    ((journal p calls).flatten.filterMap Act.opened?).Nodup ∧
    ((journal p calls).flatten.filterMap Act.closed?).Nodup ∧
    ((journal p calls).flatten.filterMap Act.filled?).Nodup ∧
    (∀ past call rest, calls = past ++ call :: rest → call.Disciplined (runCalls p past)) ∧
    ∀ past rest id d, calls = past ++ rest → (runCalls p past).file.decl? id = some d → d.mark = .opened →
      (runCalls p calls).file.decl? id = some d := by
  have hruns : Runs (fun _ _ => True) p.file (journal p calls) (runCalls p calls).file :=
    runs_journal (fun call _ => call.binds_true) fun _ _ _ => trivial
  refine ⟨((opened_once _).runs hruns).1, ((closed_once _).runs hruns).1, ((filled_once _).runs hruns).1, ?_, ?_⟩
  · intro past call rest _
    exact call.disciplined _
  · rintro past rest id d rfl hdecl hopen
    rw [runCalls_append]
    exact (runCalls_advances _ rest).kept (by simp) hdecl (by simp [hopen])

end DeclTree

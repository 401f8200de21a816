import DeclTree.Proofs.Steps

/-!
# Resolving a whole file

A file is resolved by binding its items and then resolving them in order, types before variables. What each binding and
each resolution keeps is kept by the whole (`resolveFile_meets`).
-/

namespace DeclTree

variable {hash : String → Nat}

/-- Everything that binding a declaration can do. -/
inductive DeclareEnds (scopes : Scopes hash) (id : DeclId) (p : Progress) :
    Outcome (Scopes hash × Progress) → Prop where
  | absent (hdecl : p.file.decl? id = none) : DeclareEnds scopes id p ((scopes, p), some (p.outOfRange id))
  | nameless {d} (hdecl : p.file.decl? id = some d) (hname : d.name.name = "") :
    DeclareEnds scopes id p ((scopes, p), some (.missingIdentifier d.span))
  | repeated {d} (hdecl : p.file.decl? id = some d) (hname : d.name.name ≠ "")
    (hinsert : scopes.insert? d.name.name id = none) :
    DeclareEnds scopes id p ((scopes, p.note (.alreadyDeclared d.name.name)),
      some (.duplicateDeclaration d.name.name d.span))
  | bound {d changed} (hdecl : p.file.decl? id = some d) (hname : d.name.name ≠ "")
    (hinsert : scopes.insert? d.name.name id = some changed) :
    DeclareEnds scopes id p ((changed, p.note (.declared d.name.name)), none)

/-- Nothing but what `DeclareEnds` lists happens. -/
theorem declare_ends (scopes : Scopes hash) (id : DeclId) (p : Progress) :
    DeclareEnds scopes id p (declare scopes id p) := by
  rw [declare]
  split
  · next hdecl => exact .absent hdecl
  · next d hdecl =>
    split
    · next hname => exact .nameless hdecl hname
    · next hname =>
      split
      · next hinsert => exact .repeated hdecl hname hinsert
      · next changed hinsert => exact .bound hdecl hname hinsert

/-- What every binding keeps is kept when declarations are bound in order: `state done scopes` holds of the tables that
are reached when the declarations `done` have been bound. -/
theorem declareAll_meets {p : Progress} {ids : List DeclId} {start : Scopes hash}
    (state : List DeclId → Scopes hash → Prop) {failure : Error → Prop}
    (hrange : ∀ id ∈ ids, id < p.file.declarations.length) (hstart : state [] start)
    (hstep : ∀ done id rest scopes d, ids = done ++ id :: rest → p.file.decl? id = some d → state done scopes →
      (d.name.name = "" → failure (.missingIdentifier d.span)) ∧
      (scopes.insert? d.name.name id = none →
        failure (.duplicateDeclaration d.name.name d.span)) ∧
      ∀ changed, scopes.insert? d.name.name id = some changed → state (done ++ [id]) changed) :
    (declareAll ids start p).Meets (fun reached => reached.2.file = p.file ∧ state ids reached.1)
      fun _ error => failure error := by
  suffices hrun : ∀ rest done scopes q, ids = done ++ rest → q.file = p.file → state done scopes →
      (declareAll rest scopes q).Meets (fun reached => reached.2.file = p.file ∧ state ids reached.1)
        fun _ error => failure error from hrun ids [] start p rfl rfl hstart
  intro rest
  induction rest with
  | nil =>
    intro done scopes q hids hfile hstate
    rw [List.append_nil] at hids
    exact ⟨hfile, hids ▸ hstate⟩
  | cons id rest ih =>
    intro done scopes q hids hfile hstate
    obtain ⟨d, hdecl⟩ := SourceFile.exists_decl? (hrange id (by simp [hids]))
    obtain ⟨hnameless, hrepeated, hbound⟩ := hstep done id rest scopes d hids hdecl hstate
    have hsame {e : Declaration} (he : q.file.decl? id = some e) : e = d := by
      rw [hfile, hdecl] at he
      exact (Option.some_inj.mp he).symm
    have hends := declare_ends scopes id q
    rw [declareAll]
    generalize declare scopes id q = outcome at hends ⊢
    cases hends with
    | absent hnone => simp [hfile, hdecl] at hnone
    | nameless he hname =>
      obtain rfl := hsame he
      exact hnameless hname
    | repeated he hname hinsert =>
      obtain rfl := hsame he
      exact hrepeated hinsert
    | @bound e changed he hname hinsert =>
      obtain rfl := hsame he
      exact ih (done ++ [id]) changed _ (by simpa using hids) hfile (hbound changed hinsert)

/-- What every resolution keeps is kept when declarations are resolved in order. -/
theorem resolveAll_meets {scopes : Scopes hash} {ids : List DeclId} {p : Progress}
    (state : List DeclId → SourceFile → Prop) {failure : Error → Prop} (hstart : state [] p.file)
    (hstep : ∀ done id rest q, ids = done ++ id :: rest → state done q.file →
      (resolve scopes id q).Meets (fun q' => state (done ++ [id]) q'.file) fun _ error => failure error) :
    (resolveAll scopes ids p).Meets (fun p' => state ids p'.file) fun _ error => failure error := by
  suffices hrun : ∀ rest done q, ids = done ++ rest → state done q.file →
      (resolveAll scopes rest q).Meets (fun p' => state ids p'.file) fun _ error => failure error from
    hrun ids [] p rfl hstart
  intro rest
  induction rest with
  | nil =>
    intro done q hids hstate
    rw [List.append_nil] at hids
    exact hids ▸ hstate
  | cons id rest ih =>
    intro done q hids hstate
    have hnext := hstep done id rest q hids hstate
    rw [resolveAll]
    rcases hrun : resolve scopes id q with ⟨next, _ | error⟩
    · rw [hrun] at hnext
      exact ih (done ++ [id]) next (by simpa using hids) hnext
    · rw [hrun] at hnext
      exact hnext

namespace SourceFile

/-- Whether a type is declared at a position. -/
def isTypeAt (file : SourceFile) (id : DeclId) : Bool := (file.decl? id).any fun d => !d.isVariable

/-- Whether a variable is declared at a position. -/
def isValueAt (file : SourceFile) (id : DeclId) : Bool := (file.decl? id).any fun d => d.isVariable

/-- The order of resolution is first the types among the items and then the variables, each in the order of the items.
-/
theorem resolutionOrder_eq (file : SourceFile) :
    file.resolutionOrder = file.items.filter file.isTypeAt ++ file.items.filter file.isValueAt := by
  have hfilter (keep : Bool → Bool) (items : List DeclId) :
      ((items.filterMap fun id => (file.decl? id).map fun d => (id, d)).filter fun entry =>
        keep entry.2.isVariable).map (·.1) = items.filter fun id => (file.decl? id).any fun d => keep d.isVariable := by
    induction items with
    | nil => rfl
    | cons id rest ih =>
      cases hdecl : file.decl? id with
      | none => simpa [hdecl] using ih
      | some d => cases hkeep : keep d.isVariable <;> simpa [hdecl, hkeep] using ih
  rw [resolutionOrder, List.partition_eq_filter_filter, topLevel]
  dsimp only
  rw [List.map_append, hfilter fun b => b]
  exact congrArg (· ++ _) (hfilter Bool.not file.items)

/-- A type is declared at a position if the declaration there is no variable. -/
theorem isTypeAt_iff {file : SourceFile} {id : DeclId} :
    file.isTypeAt id = true ↔ ∃ d, file.decl? id = some d ∧ d.isVariable = false := by
  rw [isTypeAt]
  cases file.decl? id <;> simp

/-- A variable is declared at a position if the declaration there is one. -/
theorem isValueAt_iff {file : SourceFile} {id : DeclId} :
    file.isValueAt id = true ↔ ∃ d, file.decl? id = some d ∧ d.isVariable = true := by
  rw [isValueAt]
  cases file.decl? id <;> simp

/-- What is resolved first are the types among the items, and then come the variables. -/
theorem exists_resolutionOrder (file : SourceFile) :
    ∃ types values, file.resolutionOrder = types ++ values ∧
      (∀ id, id ∈ types ↔ id ∈ file.items ∧ ∃ d, file.decl? id = some d ∧ d.isVariable = false) ∧
      ∀ id, id ∈ values ↔ id ∈ file.items ∧ ∃ d, file.decl? id = some d ∧ d.isVariable = true := by
  refine ⟨_, _, file.resolutionOrder_eq, fun id => ?_, fun id => ?_⟩
  · rw [List.mem_filter, isTypeAt_iff]
  · rw [List.mem_filter, isValueAt_iff]

/-- The order of resolution does not depend on marks and links. -/
theorem resolutionOrder_of_cleared_eq {before after : SourceFile} (h : after.cleared = before.cleared) :
    after.resolutionOrder = before.resolutionOrder := by
  have hsame (keep : Bool → Bool) (id : DeclId) :
      ((after.decl? id).any fun d => keep d.isVariable) = (before.decl? id).any fun d => keep d.isVariable := by
    have hdecl := congrArg (SourceFile.decl? · id) h
    simp only [decl?_cleared] at hdecl
    have hany (d : Option Declaration) :
        (d.any fun d => keep d.isVariable) = (d.map Declaration.cleared).any fun d => keep d.isVariable := by
      cases d with
      | none => rfl
      | some d => exact congrArg keep d.isVariable_cleared.symm
    rw [hany, hdecl, ← hany]
  have htypes : after.isTypeAt = before.isTypeAt := funext (hsame Bool.not)
  have hvalues : after.isValueAt = before.isValueAt := funext (hsame fun b => b)
  rw [resolutionOrder_eq, resolutionOrder_eq, items_of_cleared_eq h, htypes, hvalues]

/-- Every item is resolved. -/
theorem mem_resolutionOrder {file : SourceFile} {id : DeclId} (hitem : id ∈ file.items)
    (hrange : id < file.declarations.length) : id ∈ file.resolutionOrder := by
  obtain ⟨types, values, horder, htypes, hvalues⟩ := file.exists_resolutionOrder
  obtain ⟨d, hd⟩ := exists_decl? hrange
  rw [horder, List.mem_append, htypes, hvalues]
  cases hvariable : d.isVariable with
  | false => exact .inl ⟨hitem, d, hd, hvariable⟩
  | true => exact .inr ⟨hitem, d, hd, hvariable⟩

/-- Only items are resolved. -/
theorem mem_items_of_resolutionOrder {file : SourceFile} {id : DeclId} (h : id ∈ file.resolutionOrder) :
    id ∈ file.items := by
  obtain ⟨types, values, horder, htypes, hvalues⟩ := file.exists_resolutionOrder
  rw [horder, List.mem_append, htypes, hvalues] at h
  exact h.elim And.left And.left

/-- When the turn of a variable comes, all types have been resolved. -/
theorem types_before_values {file : SourceFile} {done rest : List DeclId} {id : DeclId} {d : Declaration}
    (horder : file.resolutionOrder = done ++ id :: rest) (hdecl : file.decl? id = some d)
    (hvariable : d.isVariable = true) {t : DeclId} {e : Declaration} (ht : t ∈ file.items)
    (he : file.decl? t = some e) (htype : e.isVariable = false) : t ∈ done := by
  obtain ⟨types, values, hsplit, htypes, -⟩ := file.exists_resolutionOrder
  have hmem : t ∈ types := (htypes t).mpr ⟨ht, e, he, htype⟩
  rw [horder] at hsplit
  rcases List.append_eq_append_iff.mp hsplit with ⟨more, rfl, hrest⟩ | ⟨more, rfl, hrest⟩
  · -- The variable would be the first of the types that are left.
    cases more with
    | nil => simpa using hmem
    | cons first more =>
      obtain rfl := (List.cons.inj hrest).1
      obtain ⟨-, d', hd', hfalse⟩ := (htypes id).mp (by simp)
      obtain rfl := Option.some_inj.mp (hdecl.symm.trans hd')
      simp [hvariable] at hfalse
  · exact List.mem_append_left _ hmem

end SourceFile

/-- What holds of a file between the resolutions of its items: nothing is open, and what has been resolved is closed. -/
structure Between (file : SourceFile) (done : List DeclId) (now : SourceFile) : Prop where
  cleared : now.cleared = file.cleared
  opened : ∀ t, now.mark? t ≠ some .opened
  closed : ∀ id ∈ done, now.mark? id = some .closed

namespace Between

variable {file : SourceFile}

/-- Before anything is resolved, nothing is open. -/
theorem start (huntouched : ∀ d ∈ file.declarations, d.mark = .untouched) : Between file [] file :=
  ⟨rfl, fun _ ht => absurd (SourceFile.mark?_of_untouched huntouched ht) (by decide), by simp⟩

/-- Resolving an item closes it, and leaves nothing open. -/
theorem resolved {done : List DeclId} {scopes : Scopes hash} {id : DeclId} {q q' : Progress}
    (h : Between file done q.file) (hrun : resolve scopes id q = (q', none)) : Between file (done ++ [id]) q'.file := by
  have hlawful := resolve_lawful scopes id q
  rw [hrun] at hlawful
  obtain ⟨hadvances, hid, hopened⟩ := hlawful
  refine ⟨hadvances.cleared.trans h.cleared, fun t ht => h.opened t (hopened t ht), fun t ht => ?_⟩
  rcases List.mem_append.mp ht with ht | ht
  · exact hadvances.mark?_eq (h.closed t ht) (by decide)
  · exact List.mem_singleton.mp ht ▸ hid

end Between

/-- What every binding and every resolution of an item keeps is kept by resolving an untouched file. -/
theorem resolveFile_meets {p : Progress} (bound : List DeclId → Scopes hash → Prop)
    (state : Scopes hash → SourceFile → Prop) {failure : Error → Prop}
    (hrange : ∀ id ∈ p.file.items, id < p.file.declarations.length)
    (huntouched : ∀ d ∈ p.file.declarations, d.mark = .untouched) (hroot : bound [] (.root hash))
    (hdeclare : ∀ done id rest scopes d, p.file.items = done ++ id :: rest → p.file.decl? id = some d →
      bound done scopes →
      (d.name.name = "" → failure (.missingIdentifier d.span)) ∧
      (scopes.insert? d.name.name id = none →
        failure (.duplicateDeclaration d.name.name d.span)) ∧
      ∀ changed, scopes.insert? d.name.name id = some changed → bound (done ++ [id]) changed)
    (hstart : ∀ scopes, bound p.file.items scopes → state scopes p.file)
    (hresolve : ∀ scopes done id rest q, p.file.resolutionOrder = done ++ id :: rest → Between p.file done q.file →
      state scopes q.file →
      (resolve scopes id q).Meets (fun q' => state scopes q'.file) fun _ error => failure error) :
    (resolveFile hash p).Meets
      (fun p' => Between p.file p.file.resolutionOrder p'.file ∧ ∃ scopes, state scopes p'.file)
      fun _ error => failure error := by
  have hbind := declareAll_meets bound hrange hroot hdeclare
  rw [resolveFile]
  rcases hall : declareAll p.file.items (.root hash) p with ⟨⟨scopes, q⟩, _ | error⟩
  · rw [hall] at hbind
    obtain ⟨hfile, hbound⟩ := hbind
    replace hfile : q.file = p.file := hfile
    have hrun : (resolveAll scopes p.file.resolutionOrder (q.note (.rootScope scopes.top.size))).Meets
        (fun p' => Between p.file p.file.resolutionOrder p'.file ∧ state scopes p'.file)
        fun _ error => failure error := by
      refine resolveAll_meets (fun done now => Between p.file done now ∧ state scopes now) ?_ ?_
      · rw [show (q.note (.rootScope scopes.top.size)).file = p.file from hfile]
        exact ⟨.start huntouched, hstart scopes hbound⟩
      · rintro done id rest r hsplit ⟨hbetween, hstate⟩
        have hnext := hresolve scopes done id rest r hsplit hbetween hstate
        rcases hitem : resolve scopes id r with ⟨r', _ | error⟩
        · rw [hitem] at hnext
          exact ⟨hbetween.resolved hitem, hnext⟩
        · rw [hitem] at hnext
          exact hnext
    change Outcome.Meets (resolveAll scopes q.file.resolutionOrder (q.note (.rootScope scopes.top.size))) _ _
    rw [hfile]
    exact hrun.imp (fun _ h => ⟨h.1, scopes, h.2⟩) fun _ _ h => h
  · rw [hall] at hbind
    exact hbind

end DeclTree

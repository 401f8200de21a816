import DeclTree.Document.Validate
import DeclTree.Proofs.Clearing

/-!
# What is read has no links

A document says nothing of links and marks. So a tree that was read is the tree that clearing it gives, and none of its
types has a link.
-/

namespace DeclTree

/-- Everything that a decoder reads is as stated. -/
def Json.Reads {α : Type} (decode : Json → Option α) (P : α → Prop) : Prop :=
  ∀ value a, decode value = some a → P a

namespace Json.Reads

variable {α : Type} {decode : Json → Option α} {P : α → Prop} {fields : List (Option Json)} {position : Nat}

/-- What is read from a member that must be there is as the decoder says. -/
theorem required (h : Reads decode P) {a : α} (hread : required decode fields position = some a) : P a := by
  obtain ⟨value, -, hvalue⟩ := Option.bind_eq_some_iff.mp hread
  exact h value a hvalue

/-- What is read from a member that may be absent is as the decoder says, if there is any. -/
theorem optional (h : Reads decode P) {o : Option α} (hread : optional decode fields position = some o) :
    ∀ a ∈ o, P a := by
  rintro a rfl
  unfold Json.optional at hread
  split at hread
  · cases hread
  · unfold nullable at hread
    split at hread
    · cases hread
    · obtain ⟨b, hb, hab⟩ := Option.map_eq_some_iff.mp hread
      exact h _ a (Option.some_inj.mp hab ▸ hb)

/-- Every element that is read is as the decoder says. -/
theorem mapM (h : Reads decode P) {elements : List Json} {nodes : List α} (hread : elements.mapM decode = some nodes) :
    ∀ a ∈ nodes, P a := by
  induction elements generalizing nodes with
  | nil =>
    obtain rfl : [] = nodes := by simpa using hread
    simp
  | cons value rest ih =>
    simp only [List.mapM_cons, Option.bind_eq_bind, Option.pure_def, Option.bind_eq_some_iff, Option.some_inj] at hread
    obtain ⟨a, ha, others, hothers, rfl⟩ := hread
    exact List.forall_mem_cons.mpr ⟨h value a ha, ih hothers⟩

end Json.Reads

/-- Slots whose types are cleared are cleared. -/
theorem TypeExpr.clearedSlots_eq_self {slots : List (Slot TypeExpr)}
    (h : ∀ slot ∈ slots, slot.type.cleared = slot.type) : TypeExpr.clearedSlots slots = slots := by
  induction slots with
  | nil => rfl
  | cons slot rest ih =>
    obtain ⟨hfirst, hrest⟩ := List.forall_mem_cons.mp h
    rw [TypeExpr.clearedSlots, hfirst, ih hrest]

/-- Expressions that are cleared are cleared in a row. -/
theorem Expr.clearedList_eq_self {es : List Expr} (h : ∀ e ∈ es, e.cleared = e) : Expr.clearedList es = es := by
  induction es with
  | nil => rfl
  | cons e rest ih =>
    obtain ⟨hfirst, hrest⟩ := List.forall_mem_cons.mp h
    rw [Expr.clearedList, hfirst, ih hrest]

/-- Scopes that are cleared are cleared in a row. -/
theorem Scope.clearedList_eq_self {scopes : List Scope} (h : ∀ s ∈ scopes, s.cleared = s) :
    Scope.clearedList scopes = scopes := by
  induction scopes with
  | nil => rfl
  | cons s rest ih =>
    obtain ⟨hfirst, hrest⟩ := List.forall_mem_cons.mp h
    rw [Scope.clearedList, hfirst, ih hrest]

/-- Arms whose scopes are cleared are cleared. -/
theorem Scope.clearedArms_eq_self {arms : List (Arm Scope)}
    (h : ∀ arm ∈ arms, Scope.clearedList arm.scopes = arm.scopes) : Scope.clearedArms arms = arms := by
  induction arms with
  | nil => rfl
  | cons arm rest ih =>
    obtain ⟨hfirst, hrest⟩ := List.forall_mem_cons.mp h
    rw [Scope.clearedArms, hfirst, ih hrest]

namespace Document

open Json (Reads)

/-- What is read of types at a depth is cleared. -/
structure ReadsTypes (depth : Nat) : Prop where
  type : Reads (type depth) fun t => t.cleared = t
  signature : Reads (signature depth) fun s => s.cleared = s
  slots : Reads (slots depth) fun s => TypeExpr.clearedSlots s = s
  slot : Reads (slot depth) fun s => s.type.cleared = s.type

/-- Types, signatures and slots are read without links, at every depth. -/
theorem readsTypes (depth : Nat) : ReadsTypes depth := by
  induction depth using Nat.strongRecOn with
  | ind depth ih =>
    refine ⟨fun value t h => ?_, fun value s h => ?_, fun value s h => ?_, fun value s h => ?_⟩
    · unfold type at h
      split at h
      · next d tag content =>
        have hbelow := ih d (by omega)
        split at h <;>
          try simp only [Option.bind_eq_bind, Option.pure_def, Option.bind_eq_some_iff, Option.some_inj] at h
        · obtain ⟨_, -, _, -, _, -, rfl⟩ := h
          rfl
        · obtain ⟨_, -, base, hbase, _, -, rfl⟩ := h
          rw [TypeExpr.cleared, hbelow.type.required hbase]
        · obtain ⟨_, -, base, hbase, _, -, rfl⟩ := h
          rw [TypeExpr.cleared, hbelow.type.required hbase]
        · obtain ⟨_, -, element, helement, _, -, rfl⟩ := h
          rw [TypeExpr.cleared, hbelow.type.required helement]
        · obtain ⟨_, -, _, -, rfl⟩ := h
          rfl
        · obtain ⟨s, hs, rfl⟩ := h
          exact congrArg TypeExpr.function ((ih (d + 1) (by omega)).signature _ _ hs)
        · cases h
      · cases h
    · cases depth with
      | zero => cases h
      | succ d =>
        have hbelow := ih d (Nat.lt_succ_self d)
        simp only [signature, Option.bind_eq_bind, Option.pure_def, Option.bind_eq_some_iff, Option.some_inj] at h
        obtain ⟨_, -, params, hparams, result, hresult, _, -, rfl⟩ := h
        rw [Signature.cleared, hbelow.slots.required hparams, hbelow.type.required hresult]
    · unfold slots at h
      split at h
      · next d _ => exact TypeExpr.clearedSlots_eq_self ((ih d (by omega)).slot.mapM h)
      · cases h
    · cases depth with
      | zero => cases h
      | succ d =>
        simp only [slot, Option.bind_eq_bind, Option.pure_def, Option.bind_eq_some_iff, Option.some_inj] at h
        obtain ⟨_, -, _, -, t, ht, _, -, rfl⟩ := h
        exact (ih d (Nat.lt_succ_self d)).type.required ht

/-- What is read of expressions, statements and scopes at a depth is cleared. -/
structure ReadsNodes (depth : Nat) : Prop where
  expr : Reads (expr depth) fun e => e.cleared = e
  exprs : Reads (exprs depth) fun es => Expr.clearedList es = es
  stmt : Reads (stmt depth) fun s => s.cleared = s
  scope : Reads (scope depth) fun s => s.cleared = s
  scopes : Reads (scopes depth) fun ss => Scope.clearedList ss = ss
  arms : Reads (arms depth) fun arms => Scope.clearedArms arms = arms
  arm : Reads (arm depth) fun arm => Scope.clearedList arm.scopes = arm.scopes

section Nodes

variable {depth : Nat} (ih : ∀ d < depth, ReadsNodes d)

include ih

/-- An expression is read without links, if what is below it is. -/
theorem reads_expr : Reads (expr depth) fun e => e.cleared = e := by
  intro value e h
  unfold expr at h
  split at h
  · next d tag content =>
    have hbelow := ih d (by omega)
    have htypes := readsTypes d
    split at h <;>
      try simp only [Option.bind_eq_bind, Option.pure_def, Option.bind_eq_some_iff, Option.some_inj] at h
    · obtain ⟨_, -, inner, hinner, _, -, rfl⟩ := h
      rw [Expr.cleared, hbelow.expr.required hinner]
    · obtain ⟨_, -, _, -, operand, hoperand, _, -, rfl⟩ := h
      rw [Expr.cleared, hbelow.expr.required hoperand]
    · obtain ⟨_, -, left, hleft, _, -, right, hright, _, -, rfl⟩ := h
      rw [Expr.cleared, hbelow.expr.required hleft, hbelow.expr.required hright]
    · obtain ⟨_, -, operand, hoperand, t, ht, _, -, rfl⟩ := h
      rw [Expr.cleared, hbelow.expr.required hoperand, htypes.type.required ht]
    · obtain ⟨_, -, object, hobject, _, -, _, -, rfl⟩ := h
      rw [Expr.cleared, hbelow.expr.required hobject]
    · obtain ⟨_, -, object, hobject, position, hposition, _, -, rfl⟩ := h
      rw [Expr.cleared, hbelow.expr.required hobject, hbelow.expr.required hposition]
    · obtain ⟨_, -, s, hs, body, hbody, _, -, rfl⟩ := h
      rw [Expr.cleared, htypes.signature.required hs, hbelow.scope.required hbody]
    · obtain ⟨_, -, callee, hcallee, arguments, harguments, _, -, rfl⟩ := h
      rw [Expr.cleared, hbelow.expr.required hcallee, hbelow.exprs.required harguments]
    · obtain ⟨_, -, rfl⟩ := h
      rfl
    · obtain ⟨_, -, _, -, _, -, rfl⟩ := h
      rfl
    · obtain ⟨_, -, _, -, _, -, rfl⟩ := h
      rfl
    · obtain ⟨_, -, count, hcount, element, helement, elements, helements, _, -, rfl⟩ := h
      have hcount := hbelow.expr.optional hcount
      cases count with
      | none => rw [Expr.cleared, htypes.type.required helement, hbelow.exprs.required helements]
      | some count =>
        rw [Expr.cleared, hcount count rfl, htypes.type.required helement, hbelow.exprs.required helements]
    · cases h
  · cases h

/-- A statement is read without links, if what is below it is. -/
theorem reads_stmt : Reads (stmt depth) fun s => s.cleared = s := by
  intro value s h
  unfold stmt at h
  split at h
  · next d tag content =>
    have hbelow := ih d (by omega)
    split at h <;>
      try simp only [Option.bind_eq_bind, Option.pure_def, Option.bind_eq_some_iff, Option.some_inj] at h
    · obtain ⟨_, -, _, -, _, -, rfl⟩ := h
      rfl
    · obtain ⟨_, -, target, htarget, _, -, rfl⟩ := h
      rw [Stmt.cleared, hbelow.expr.required htarget]
    · obtain ⟨_, -, target, htarget, _, -, rfl⟩ := h
      rw [Stmt.cleared, hbelow.expr.required htarget]
    · obtain ⟨_, -, _, -, target, htarget, value, hvalue, _, -, rfl⟩ := h
      rw [Stmt.cleared, hbelow.expr.required htarget, hbelow.expr.required hvalue]
    · obtain ⟨e, he, rfl⟩ := h
      rw [Stmt.cleared, (ih (d + 1) (by omega)).expr _ e he]
    · obtain ⟨_, -, rfl⟩ := h
      rfl
    · obtain ⟨_, -, rfl⟩ := h
      rfl
    · obtain ⟨_, -, value, hvalue, _, -, rfl⟩ := h
      have hvalue := hbelow.expr.optional hvalue
      cases value with
      | none => rfl
      | some value => rw [Stmt.cleared, hvalue value rfl]
    · cases h
  · cases h

/-- A scope is read without links, if what is below it is. -/
theorem reads_scope : Reads (scope depth) fun s => s.cleared = s := by
  intro value s h
  unfold scope at h
  split at h
  · next d tag content =>
    have hbelow := ih d (by omega)
    split at h <;>
      try simp only [Option.bind_eq_bind, Option.pure_def, Option.bind_eq_some_iff, Option.some_inj] at h
    · obtain ⟨stmt, hstmt, rfl⟩ := h
      rw [Scope.cleared, (ih (d + 1) (by omega)).stmt _ stmt hstmt]
    · obtain ⟨_, -, scopes, hscopes, _, -, rfl⟩ := h
      rw [Scope.cleared, hbelow.scopes.required hscopes]
    · obtain ⟨_, -, condition, hcondition, consequent, hconsequent, alternative, halternative, _, -, rfl⟩ := h
      have halternative := hbelow.scope.optional halternative
      cases alternative with
      | none => rw [Scope.cleared, hbelow.expr.required hcondition, hbelow.scope.required hconsequent]
      | some alternative =>
        rw [Scope.cleared, hbelow.expr.required hcondition, hbelow.scope.required hconsequent,
          halternative alternative rfl]
    · obtain ⟨_, -, init, hinit, condition, hcondition, step, hstep, body, hbody, _, -, rfl⟩ := h
      rw [Scope.cleared, hbelow.stmt.required hinit, hbelow.expr.required hcondition, hbelow.stmt.required hstep,
        hbelow.scope.required hbody]
    · obtain ⟨_, -, condition, hcondition, body, hbody, _, -, rfl⟩ := h
      rw [Scope.cleared, hbelow.expr.required hcondition, hbelow.scope.required hbody]
    · obtain ⟨_, -, _, -, iterable, hiterable, body, hbody, _, -, rfl⟩ := h
      rw [Scope.cleared, hbelow.expr.required hiterable, hbelow.scope.required hbody]
    · obtain ⟨_, -, subject, hsubject, arms, harms, _, -, rfl⟩ := h
      rw [Scope.cleared, hbelow.expr.required hsubject, hbelow.arms.required harms]
    · cases h
  · cases h

/-- An arm is read without links, if its scopes are. -/
theorem reads_arm : Reads (arm depth) fun arm => Scope.clearedList arm.scopes = arm.scopes := by
  intro value a h
  cases depth with
  | zero => cases h
  | succ d =>
    simp only [arm, Option.bind_eq_bind, Option.pure_def, Option.bind_eq_some_iff, Option.some_inj] at h
    obtain ⟨_, -, _, -, scopes, hscopes, _, -, rfl⟩ := h
    exact (ih d (Nat.lt_succ_self d)).scopes.required hscopes

end Nodes

/-- Expressions, statements and scopes are read without links, at every depth. -/
theorem readsNodes (depth : Nat) : ReadsNodes depth := by
  induction depth using Nat.strongRecOn with
  | ind depth ih =>
    refine ⟨reads_expr ih, fun value es h => ?_, reads_stmt ih, reads_scope ih, fun value ss h => ?_,
      fun value as h => ?_, reads_arm ih⟩
    · unfold exprs at h
      split at h
      · next d _ => exact Expr.clearedList_eq_self ((ih d (by omega)).expr.mapM h)
      · cases h
    · unfold scopes at h
      split at h
      · next d _ => exact Scope.clearedList_eq_self ((ih d (by omega)).scope.mapM h)
      · cases h
    · unfold arms at h
      split at h
      · next d _ => exact Scope.clearedArms_eq_self ((ih d (by omega)).arm.mapM h)
      · cases h

/-- Every element of a list is as the decoder of elements says. -/
theorem reads_list {α : Type} {decode : Json.Decoder α} {P : α → Prop} (h : ∀ depth, Reads (decode depth) P)
    (depth : Nat) : Reads (list decode depth) fun nodes => ∀ node ∈ nodes, P node := by
  intro value nodes hread
  unfold list at hread
  split at hread
  · next d _ => exact (h d).mapM hread
  · cases hread

/-- A member of a sum is read without links. -/
theorem reads_sumSlot (depth : Nat) :
    Reads (sumSlot depth) fun slot => slot.type.map TypeExpr.cleared = slot.type := by
  intro value slot h
  cases depth with
  | zero => cases h
  | succ d =>
    simp only [sumSlot, Option.bind_eq_bind, Option.pure_def, Option.bind_eq_some_iff, Option.some_inj] at h
    obtain ⟨_, -, _, -, t, ht, _, -, rfl⟩ := h
    have ht := (readsTypes d).type.optional ht
    cases t with
    | none => rfl
    | some t => exact congrArg some (ht t rfl)

/-- A constant or a variable is read without links. -/
theorem reads_variableKind (depth : Nat) : Reads (variableKind depth) fun kind => kind.cleared = kind := by
  intro value kind h
  unfold variableKind at h
  split at h
  · next d tag content =>
    split at h <;>
      try simp only [Option.bind_eq_bind, Option.pure_def, Option.bind_eq_some_iff, Option.some_inj] at h
    · obtain ⟨_, -, t, ht, value, hvalue, rfl⟩ := h
      have ht := (readsTypes d).type.optional ht
      cases t with
      | none => rw [DeclKind.cleared, (readsNodes d).expr.required hvalue]
      | some t => rw [DeclKind.cleared, ht t rfl, (readsNodes d).expr.required hvalue]
    · obtain ⟨_, -, t, ht, value, hvalue, rfl⟩ := h
      have hvalue := (readsNodes d).expr.optional hvalue
      cases value with
      | none => rw [DeclKind.cleared, (readsTypes d).type.required ht]
      | some value => rw [DeclKind.cleared, (readsTypes d).type.required ht, hvalue value rfl]
    · cases h
  · cases h

/-- What a declaration declares is read without links. -/
theorem reads_declKind (depth : Nat) : Reads (declKind depth) fun kind => kind.cleared = kind := by
  intro value kind h
  unfold declKind at h
  split at h
  · next d tag content =>
    split at h <;>
      try simp only [Option.bind_eq_bind, Option.pure_def, Option.bind_eq_some_iff, Option.some_inj] at h
    · exact reads_variableKind (d + 1) _ kind h
    · obtain ⟨_, -, _, -, rfl⟩ := h
      rfl
    · obtain ⟨_, -, members, hmembers, rfl⟩ := h
      rw [DeclKind.cleared, (readsTypes d).slots.required hmembers]
    · obtain ⟨_, -, members, hmembers, rfl⟩ := h
      rw [DeclKind.cleared, (readsTypes d).slots.required hmembers]
    · obtain ⟨_, -, members, hmembers, rfl⟩ := h
      have hmembers := (reads_list reads_sumSlot d).required hmembers
      rw [DeclKind.cleared, List.map_congr_left fun slot hslot => by rw [hmembers slot hslot], List.map_id']
    · cases h
  · cases h

/-- A declaration is read without links and without a mark. -/
theorem reads_declaration (depth : Nat) : Reads (declaration depth) fun d => d.cleared = d := by
  intro value d h
  cases depth with
  | zero => cases h
  | succ depth =>
    simp only [declaration, Option.bind_eq_bind, Option.pure_def, Option.bind_eq_some_iff, Option.some_inj] at h
    obtain ⟨_, -, _, -, kind, hkind, _, -, rfl⟩ := h
    rw [Declaration.cleared, (reads_declKind depth).required hkind]

/-- A file that was read has neither links nor marks. -/
theorem reads_sourceFile (depth : Nat) : Reads (sourceFile depth) fun file => file.cleared = file := by
  intro value file h
  cases depth with
  | zero => cases h
  | succ depth =>
    simp only [sourceFile, Option.bind_eq_bind, Option.pure_def, Option.bind_eq_some_iff, Option.some_inj] at h
    obtain ⟨_, -, declarations, hdeclarations, _, -, rfl⟩ := h
    have hdeclarations := (reads_list reads_declaration depth).required hdeclarations
    rw [SourceFile.cleared, List.map_congr_left hdeclarations, List.map_id']

end Document

/-- An accepted file has neither links nor marks. -/
theorem SourceFile.cleared_of_ofDocument {text : String} {file : SourceFile} (haccept : ofDocument text = .ok file) :
    file.cleared = file := by
  unfold ofDocument at haccept
  split at haccept
  · cases haccept
  · next read hread =>
    obtain ⟨value, -, hvalue⟩ := Option.bind_eq_some_iff.mp hread
    split at haccept
    · cases haccept
    · obtain rfl := Except.ok.inj haccept
      exact Document.reads_sourceFile _ value _ hvalue

/-- Links all of which are absent. -/
def Unlinked (links : List (Option DeclId)) : Prop := ∀ link ∈ links, link = none

namespace Unlinked

variable {links more : List (Option DeclId)}

/-- In an empty row no link is set. -/
theorem nil : Unlinked [] := fun _ h => absurd h List.not_mem_nil

/-- Two rows of absent links are one. -/
theorem append (h : Unlinked links) (hmore : Unlinked more) : Unlinked (links ++ more) :=
  List.forall_mem_append.mpr ⟨h, hmore⟩

end Unlinked

namespace TypeExpr

mutual

/-- A cleared type has no links. -/
theorem unlinked_cleared : ∀ t : TypeExpr, Unlinked t.cleared.links
  | primitive _ _ => .nil
  | pointer base _ => unlinked_cleared base
  | nullable base _ => unlinked_cleared base
  | array element _ => unlinked_cleared element
  | named _ _ => fun _ h => List.mem_singleton.mp h
  | function ⟨params, result, _⟩ => (unlinked_clearedSlots params).append (unlinked_cleared result)

/-- Cleared slots have no links. -/
theorem unlinked_clearedSlots : ∀ slots : List (Slot TypeExpr), Unlinked (slotLinks (clearedSlots slots))
  | [] => .nil
  | ⟨_, type, _⟩ :: rest => (unlinked_cleared type).append (unlinked_clearedSlots rest)

end

end TypeExpr

/-- A cleared signature has no links. -/
theorem Signature.unlinked_cleared (signature : Signature TypeExpr) : Unlinked signature.cleared.links :=
  (TypeExpr.unlinked_clearedSlots signature.params).append (TypeExpr.unlinked_cleared signature.result)

mutual

/-- A cleared expression has no links. -/
theorem Expr.unlinked_cleared : ∀ e : Expr, Unlinked e.cleared.links
  | .paren inner _ => inner.unlinked_cleared
  | .unary _ operand _ => operand.unlinked_cleared
  | .binary left _ right _ => left.unlinked_cleared.append right.unlinked_cleared
  | .cast operand type _ => type.unlinked_cleared.append operand.unlinked_cleared
  | .field object _ _ => object.unlinked_cleared
  | .index object position _ => object.unlinked_cleared.append position.unlinked_cleared
  | .function signature body _ => signature.unlinked_cleared.append body.unlinked_cleared
  | .call callee arguments _ => callee.unlinked_cleared.append (Expr.unlinked_clearedList arguments)
  | .ident _ => .nil
  | .literal _ _ => .nil
  | .bool _ _ => .nil
  | .array none element elements _ => element.unlinked_cleared.append (Expr.unlinked_clearedList elements)
  | .array (some count) element elements _ =>
    element.unlinked_cleared.append (count.unlinked_cleared.append (Expr.unlinked_clearedList elements))

/-- Cleared expressions have no links. -/
theorem Expr.unlinked_clearedList : ∀ es : List Expr, Unlinked (Expr.listLinks (Expr.clearedList es))
  | [] => .nil
  | e :: rest => e.unlinked_cleared.append (Expr.unlinked_clearedList rest)

/-- A cleared statement has no links. -/
theorem Stmt.unlinked_cleared : ∀ s : Stmt, Unlinked s.cleared.links
  | .declaration _ _ => .nil
  | .increment target _ => target.unlinked_cleared
  | .decrement target _ => target.unlinked_cleared
  | .assign _ target value _ => target.unlinked_cleared.append value.unlinked_cleared
  | .expr value => value.unlinked_cleared
  | .label _ => .nil
  | .goto _ => .nil
  | .returning none _ => .nil
  | .returning (some value) _ => value.unlinked_cleared

/-- A cleared scope has no links. -/
theorem Scope.unlinked_cleared : ∀ s : Scope, Unlinked s.cleared.links
  | .statement stmt => stmt.unlinked_cleared
  | .block scopes _ => Scope.unlinked_clearedList scopes
  | .conditional condition consequent none _ => condition.unlinked_cleared.append consequent.unlinked_cleared
  | .conditional condition consequent (some alternative) _ =>
    condition.unlinked_cleared.append (consequent.unlinked_cleared.append alternative.unlinked_cleared)
  | .forLoop init condition step body _ =>
    init.unlinked_cleared.append
      (condition.unlinked_cleared.append (step.unlinked_cleared.append body.unlinked_cleared))
  | .whileLoop condition body _ => condition.unlinked_cleared.append body.unlinked_cleared
  | .forEach .. => .nil
  | .matching .. => .nil

/-- Cleared scopes have no links. -/
theorem Scope.unlinked_clearedList : ∀ ss : List Scope, Unlinked (Scope.listLinks (Scope.clearedList ss))
  | [] => .nil
  | s :: rest => s.unlinked_cleared.append (Scope.unlinked_clearedList rest)

end

/-- A cleared declaration has no links. -/
theorem Declaration.unlinked_cleared (d : Declaration) : Unlinked d.cleared.links := by
  obtain ⟨name, kind, span, mark⟩ := d
  cases kind with
  | constant ascribed value =>
    cases ascribed with
    | none => exact value.unlinked_cleared
    | some type => exact type.unlinked_cleared.append value.unlinked_cleared
  | mutable type value =>
    cases value with
    | none => exact type.unlinked_cleared
    | some value => exact type.unlinked_cleared.append value.unlinked_cleared
  | record kind members => exact TypeExpr.unlinked_clearedSlots members
  | enumeration => exact .nil
  | sum => exact .nil

end DeclTree

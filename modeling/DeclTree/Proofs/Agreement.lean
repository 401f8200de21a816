import DeclTree.Lowering.Unit
import DeclTree.Proofs.Files
import DeclTree.Proofs.Visibility

/-!
# What resolution and generation depend on

Resolving a declaration reads the arena, and it reads tables only through the answers that they give; the list of items
and what has been recorded play no part. Generating a file reads the arena, but no marks, and the order in which the
items are emitted. So two runs that start with the same arena and with tables that give the same answers end in the same
way.
-/

namespace DeclTree

variable {hash : String → Nat}

/-- Chains of tables that give the same answers, table by table. -/
def Scopes.Agree (first second : Scopes hash) : Prop :=
  List.Forall₂ (fun a b => ∀ name, b.find? name = a.find? name)
    (first.top :: first.enclosing) (second.top :: second.enclosing)

namespace Scopes.Agree

variable {first second : Scopes hash}

/-- Tables that agree find the same. -/
theorem find_eq (h : first.Agree second) (name : String) :
    second.find? name = first.find? name := by
  rw [Scopes.find?, Scopes.find?]
  unfold Agree at h
  generalize first.top :: first.enclosing = tables at h ⊢
  generalize second.top :: second.enclosing = others at h ⊢
  induction h with
  | nil => rfl
  | cons hfirst _ ih => rw [List.findSome?_cons, List.findSome?_cons, hfirst name, ih]

/-- Tables agree still when a scope is entered in both. -/
theorem push (h : first.Agree second) : first.push.Agree second.push := .cons (fun _ => rfl) h

/-- Tables agree still when a scope is left in both. -/
theorem pop (h : first.Agree second) : (first.pop?.getD first).Agree (second.pop?.getD second) := by
  rcases first with ⟨top, _ | ⟨table, rest⟩⟩ <;> rcases second with ⟨top', _ | ⟨table', rest'⟩⟩
  · exact h
  · cases h with
    | cons _ hrest => cases hrest
  · cases h with
    | cons _ hrest => cases hrest
  · cases h with
    | cons _ hrest => exact hrest

/-- A name can be bound in both chains or in neither. -/
theorem insert_none (h : first.Agree second) {name : String} {id : DeclId}
    (hinsert : first.insert? name id = none) :
    second.insert? name id = none := by
  obtain ⟨other, hother⟩ := Scopes.insert?_eq_none_iff.mp hinsert
  cases h with
  | cons hfirst _ => exact Scopes.insert?_eq_none_iff.mpr ⟨other, (hfirst name).trans hother⟩

/-- What can be inserted into a table can be inserted into one that agrees with it, and they agree still. -/
theorem insert (h : first.Agree second) {name : String} {id : DeclId} {changed : Scopes hash}
    (hinsert : first.insert? name id = some changed) :
    ∃ changed', second.insert? name id = some changed' ∧ changed.Agree changed' := by
  obtain ⟨table, htable, rfl⟩ := Scopes.eq_of_insert? hinsert
  obtain ⟨hfree, hfind⟩ := SymbolTable.find?_of_insert? htable
  cases hinsert' : second.insert? name id with
  | none =>
    obtain ⟨other, hother⟩ := Scopes.insert?_eq_none_iff.mp hinsert'
    cases h with
    | cons hfirst _ => simp [← hfirst, hother] at hfree
  | some changed' =>
    obtain ⟨table', htable', rfl⟩ := Scopes.eq_of_insert? hinsert'
    obtain ⟨-, hfind'⟩ := SymbolTable.find?_of_insert? htable'
    refine ⟨_, rfl, ?_⟩
    cases h with
    | cons hfirst hrest =>
      refine .cons (fun other => ?_) hrest
      rw [hfind, hfind', hfirst]

end Scopes.Agree

/-- Chains that represent the same environment give the same answers. -/
theorem Represents.agree {file : SourceFile} {first second : Scopes hash} {env : Env} (h : Represents file first env)
    (h' : Represents file second env) : first.Agree second := by
  unfold Represents at h h'
  unfold Scopes.Agree
  generalize first.top :: first.enclosing = tables at h ⊢
  generalize second.top :: second.enclosing = others at h' ⊢
  induction h generalizing others with
  | nil =>
    cases h'
    exact .nil
  | cons hfirst _ ih =>
    cases h' with
    | cons hfirst' hrest' => exact .cons (fun name => (hfirst' name).trans (hfirst name).symm) (ih _ hrest')

/-- States with the same arena. -/
def Progress.Agree (first second : Progress) : Prop := second.file.declarations = first.file.declarations

namespace Progress.Agree

variable {first second : Progress} (h : first.Agree second)

include h

/-- Files that agree have the same declarations. -/
theorem decl_eq (id : DeclId) : second.file.decl? id = first.file.decl? id := by
  rw [SourceFile.decl?, SourceFile.decl?, show second.file.declarations = _ from h]

/-- Files that agree report a position outside the arena alike. -/
theorem outOfRange_eq (id : DeclId) : second.outOfRange id = first.outOfRange id := by
  rw [outOfRange, outOfRange, show second.file.declarations = _ from h]

/-- The same change of a declaration keeps the agreement, whatever has been recorded. -/
theorem update (id : DeclId) (change : Declaration → Declaration) (events events' : List Event) :
    Progress.Agree ⟨first.file.update id change, events⟩ ⟨second.file.update id change, events'⟩ :=
  congrArg (List.modify · id change) h

end Progress.Agree

/-- Outcomes with the same error, or none, whose states are related. -/
def Outcome.Agree {σ : Type} (R : σ → σ → Prop) (first second : Outcome σ) : Prop :=
  second.2 = first.2 ∧ R first.1 second.1

/-- Going on from outcomes that agree. -/
theorem Outcome.Agree.andThen {σ : Type} {R : σ → σ → Prop} {first second : Outcome σ} {next next' : σ → Outcome σ}
    (h : first.Agree R second) (hnext : ∀ state state', R state state' → (next state).Agree R (next' state')) :
    (first.andThen next).Agree R (second.andThen next') := by
  rcases first with ⟨state, _ | error⟩ <;> rcases second with ⟨state', _ | error'⟩
  · exact hnext state state' h.2
  · cases h.1
  · cases h.1
  · exact h

/-- Binding a name depends on the arena and on the answers of the tables only. -/
theorem declare_respects {first second : Scopes hash} {p q : Progress} (id : DeclId) (hscopes : first.Agree second)
    (hprogress : p.Agree q) :
    (declare first id p).Agree (fun state state' => state.1.Agree state'.1 ∧ state.2.Agree state'.2)
      (declare second id q) := by
  have hends := declare_ends first id p
  rw [declare.eq_def second, hprogress.decl_eq]
  generalize declare first id p = outcome at hends ⊢
  cases hends with
  | absent hdecl =>
    rw [hdecl]
    exact ⟨congrArg some (hprogress.outOfRange_eq id), hscopes, hprogress⟩
  | nameless hdecl hname =>
    simp only [hdecl, hname, ↓reduceIte]
    exact ⟨rfl, hscopes, hprogress⟩
  | repeated hdecl hname hinsert =>
    simp only [hdecl, hname, ↓reduceIte, hscopes.insert_none hinsert]
    exact ⟨rfl, hscopes, hprogress⟩
  | bound hdecl hname hinsert =>
    obtain ⟨changed', hinsert', hchanged⟩ := hscopes.insert hinsert
    simp only [hdecl, hname, ↓reduceIte, hinsert']
    exact ⟨rfl, hchanged, hprogress⟩

/-- Visits with tables that give the same answers, in states with the same arena, end in the same way. -/
def Visit.Respects (visit : Visit hash) : Prop :=
  ∀ {first second : Scopes hash} {p q : Progress} (id : DeclId), first.Agree second → p.Agree q →
    (visit first id p).Agree Progress.Agree (visit second id q)

/-- Frames at the same point of a plan. -/
structure Frame.Agree (first second : Frame hash) : Prop where
  scopes : first.scopes.Agree second.scopes
  filled : second.filled = first.filled
  progress : first.progress.Agree second.progress

/-- Linking a name depends on the arena and on the answers of the tables only. -/
theorem linkNext_respects {visit : Visit hash} (hvisit : visit.Respects) (owner : DeclId) (name : Ident) (reach : Reach)
    {first second : Frame hash} (h : first.Agree second) :
    (linkNext visit owner name reach first).Agree Frame.Agree (linkNext visit owner name reach second) := by
  obtain ⟨hscopes, hfilled, hprogress⟩ := h
  rw [linkNext, linkNext, hscopes.find_eq]
  cases first.scopes.find? name.name with
  | none => exact ⟨rfl, hscopes, hfilled, hprogress⟩
  | some target =>
    dsimp only
    rw [hprogress.decl_eq]
    cases first.progress.file.decl? target with
    | none => exact ⟨congrArg some (hprogress.outOfRange_eq target), hscopes, hfilled, hprogress⟩
    | some d =>
      dsimp only
      split
      · exact ⟨rfl, hscopes, hfilled, hprogress⟩
      · have hfill {p q : Progress} (hpq : p.Agree q) :
            Frame.Agree
              { first with
                filled := first.filled + 1, progress := { p with file := p.file.setLink owner first.filled target } }
              { second with
                filled := second.filled + 1
                progress := { q with file := q.file.setLink owner second.filled target } } := by
          rw [hfilled]
          exact ⟨hscopes, rfl, hpq.update owner _ _ _⟩
        cases reach with
        | indirect => exact ⟨rfl, hfill hprogress⟩
        | byValue =>
          have hnoted : (first.progress.note (.linked name.name target .byValue)).Agree
            (second.progress.note (.linked name.name target .byValue)) := hprogress
          have hreached := hvisit target hscopes hnoted
          dsimp only
          generalize visit first.scopes target _ = outcome at hreached ⊢
          generalize visit second.scopes target _ = outcome' at hreached ⊢
          rcases outcome with ⟨p, result⟩
          rcases outcome' with ⟨q, result'⟩
          obtain ⟨rfl, hpq⟩ : result' = result ∧ p.Agree q := hreached
          cases result' with
          | none => exact ⟨rfl, hfill hpq⟩
          | some error => exact ⟨rfl, hscopes, hfilled, hpq⟩

/-- A step depends on the arena and on the answers of the tables only. -/
theorem runStep_respects {visit : Visit hash} (hvisit : visit.Respects) (owner : DeclId) (step : Step)
    {first second : Frame hash} (h : first.Agree second) :
    (runStep visit owner step first).Agree Frame.Agree (runStep visit owner step second) := by
  obtain ⟨hscopes, hfilled, hprogress⟩ := h
  cases step with
  | link name reach => exact linkNext_respects hvisit owner name reach ⟨hscopes, hfilled, hprogress⟩
  | enter => exact ⟨rfl, hscopes.push, hfilled, hprogress⟩
  | leave => exact ⟨rfl, hscopes.pop, hfilled, hprogress⟩
  | declare id =>
    have hdeclare := declare_respects id hscopes hprogress
    rw [runStep, runStep]
    generalize declare first.scopes id first.progress = outcome at hdeclare ⊢
    generalize declare second.scopes id second.progress = outcome' at hdeclare ⊢
    rcases outcome with ⟨⟨bound, p⟩, result⟩
    rcases outcome' with ⟨⟨bound', q⟩, result'⟩
    obtain ⟨rfl, hbound, hpq⟩ : result' = result ∧ bound.Agree bound' ∧ p.Agree q := hdeclare
    cases result' with
    | some error => exact ⟨rfl, hbound, hfilled, hpq⟩
    | none =>
      have hreached := hvisit id hbound hpq
      exact ⟨hreached.1, hbound, hfilled, hreached.2⟩
  | avoid names id span =>
    rw [runStep, runStep, hprogress.decl_eq]
    cases first.progress.file.decl? id with
    | none => exact ⟨congrArg some (hprogress.outOfRange_eq id), hscopes, hfilled, hprogress⟩
    | some d => exact ⟨rfl, hscopes, hfilled, hprogress⟩
  | reject error => exact ⟨rfl, hscopes, hfilled, hprogress⟩

/-- So does a plan. -/
theorem runSteps_respects {visit : Visit hash} (hvisit : visit.Respects) (owner : DeclId) (steps : List Step)
    {first second : Frame hash} (h : first.Agree second) :
    (runSteps visit owner steps first).Agree Frame.Agree (runSteps visit owner steps second) := by
  induction steps generalizing first second with
  | nil => exact ⟨rfl, h⟩
  | cons step rest ih =>
    rw [runSteps, runSteps]
    exact (runStep_respects hvisit owner step h).andThen fun _ _ hnext => ih hnext

/-- So does a visit, if the visits inside it do. -/
theorem resolveWithin_respects_of {depth : Nat}
    (hdeeper : ∀ visit : Visit hash, deeper? depth = some visit → visit.Respects) :
    Visit.Respects (resolveWithin depth : Visit hash) := by
  intro first second p q id hscopes hprogress
  unfold resolveWithin
  rw [hprogress.decl_eq]
  cases p.file.decl? id with
  | none => exact ⟨congrArg some (hprogress.outOfRange_eq id), hprogress⟩
  | some d =>
    dsimp only
    cases d.mark with
    | closed => exact ⟨rfl, hprogress⟩
    | opened => exact ⟨rfl, hprogress⟩
    | untouched =>
      dsimp only
      split
      · exact ⟨rfl, hprogress⟩
      · cases d.plan? with
        | none => exact ⟨rfl, hprogress⟩
        | some plan =>
          cases depth with
          | zero => exact ⟨rfl, hprogress⟩
          | succ depth =>
            have hstart (event : Event) : Frame.Agree ⟨first, 0, (p.note event).openDecl id d.name.name⟩
                ⟨second, 0, (q.note event).openDecl id d.name.name⟩ := ⟨hscopes, rfl, hprogress.update id _ _ _⟩
            have hlast := runSteps_respects (hdeeper _ rfl) id plan (hstart (.resolving d.kind.keyword d.name.name))
            dsimp only
            generalize runSteps _ id plan ⟨first, 0, _⟩ = outcome at hlast ⊢
            generalize runSteps _ id plan ⟨second, 0, _⟩ = outcome' at hlast ⊢
            rcases outcome with ⟨last, result⟩
            rcases outcome' with ⟨last', result'⟩
            obtain ⟨rfl, hagree⟩ : result' = result ∧ last.Agree last' := hlast
            cases result' with
            | none => exact ⟨rfl, hagree.progress.update id _ _ _⟩
            | some error => exact ⟨rfl, hagree.progress⟩

/-- Resolving to any depth keeps the agreement of tables and files. -/
theorem resolveWithin_respects (depth : Nat) : Visit.Respects (resolveWithin depth : Visit hash) := by
  induction depth with
  | zero => exact resolveWithin_respects_of (by simp [deeper?])
  | succ depth ih =>
    refine resolveWithin_respects_of ?_
    rintro visit ⟨rfl⟩
    exact ih

/-- Resolving keeps the agreement of tables and files. -/
theorem resolve_respects : Visit.Respects (resolve : Visit hash) := by
  intro first second p q id hscopes hprogress
  rw [resolve, resolve, show q.file.declarations = _ from hprogress]
  exact resolveWithin_respects _ id hscopes hprogress

/-- Resolving declarations in a row keeps the agreement of files. -/
theorem resolveAll_respects {first second : Scopes hash} (hscopes : first.Agree second) (ids : List DeclId)
    {p q : Progress} (hprogress : p.Agree q) :
    (resolveAll first ids p).Agree Progress.Agree (resolveAll second ids q) := by
  induction ids generalizing p q with
  | nil => exact ⟨rfl, hprogress⟩
  | cons id rest ih =>
    rw [resolveAll, resolveAll]
    exact (resolve_respects id hscopes hprogress).andThen fun _ _ hnext => ih hnext

/-- A declaration without its mark. -/
def Declaration.unmarked (d : Declaration) : Declaration := { d with mark := .untouched }

/-- A file without its marks. -/
def SourceFile.unmarked (file : SourceFile) : SourceFile :=
  { file with declarations := file.declarations.map Declaration.unmarked }

/-- The arenas of two files are the same up to marks. -/
def SourceFile.SameArena (second first : SourceFile) : Prop :=
  second.unmarked.declarations = first.unmarked.declarations

/-- A change of all declarations that keeps types apart from variables changes what is emitted and keeps the order. -/
theorem Lowering.emissionOrder_map {first second : SourceFile} {change : Declaration → Declaration}
    (hitems : second.items = first.items) (hdecl : ∀ id, second.decl? id = (first.decl? id).map change)
    (hchange : ∀ d, (change d).isVariable = d.isVariable) :
    emissionOrder second = (emissionOrder first).map change := by
  have htop : second.topLevel.map (·.2) = (first.topLevel.map (·.2)).map change := by
    simp [SourceFile.topLevel, List.map_filterMap, hitems, hdecl, Function.comp_def]
  rw [emissionOrder, emissionOrder, htop]
  generalize first.topLevel.map (·.2) = all
  simp only [List.filter_map, List.map_append, Function.comp_def, hchange]

namespace Lowering

section Arena

variable {first second : SourceFile}

/-- What does not read the mark of a declaration is done alike with the declarations at a position. -/
theorem bind_declAt_of_arena {α : Type} (h : second.SameArena first) (id : DeclId)
    {use : Declaration → Except Error α} (huse : ∀ d, use d.unmarked = use d) :
    (declAt second id >>= use) = (declAt first id >>= use) := by
  have hdecl := congrArg (·[id]?) h
  simp only [SourceFile.unmarked, List.getElem?_map] at hdecl
  have hlength : second.declarations.length = first.declarations.length := by
    simpa [SourceFile.unmarked] using congrArg List.length h
  rw [declAt, declAt, SourceFile.decl?, SourceFile.decl?, hlength]
  cases hsecond : second.declarations[id]? with
  | none =>
    rw [hsecond, Option.map_none, eq_comm, Option.map_eq_none_iff] at hdecl
    rw [hdecl]
  | some d =>
    rw [hsecond, Option.map_some, eq_comm, Option.map_eq_some_iff] at hdecl
    obtain ⟨e, hfirst, hsame⟩ := hdecl
    rw [hfirst]
    exact (huse d).symm.trans ((congrArg use hsame.symm).trans (huse e))

/-- The type name of a named type depends on the arena alone. -/
theorem namedType_of_arena (h : second.SameArena first) (name : Ident) (link : Option DeclId) :
    namedType second name link = namedType first name link := by
  cases link with
  | none => rfl
  | some id => exact bind_declAt_of_arena h id fun _ => rfl

/-- The type name of a type depends on the arena alone. -/
theorem typeName_of_arena (h : second.SameArena first) :
    ∀ type : TypeExpr, typeName second type = typeName first type
  | .primitive _ _ => rfl
  | .pointer base _ => by rw [typeName, typeName, typeName_of_arena h base]
  | .nullable base _ => by rw [typeName, typeName, typeName_of_arena h base]
  | .array element _ => by rw [typeName, typeName, typeName_of_arena h element]
  | .named name link => namedType_of_arena h name link
  | .function _ => rfl

mutual

/-- Lowering an expression depends on the arena alone. -/
theorem expr_of_arena (h : second.SameArena first) : ∀ e : Expr, expr second e = expr first e
  | .paren inner _ => by rw [expr, expr, expr_of_arena h inner]
  | .unary _ operand _ => by rw [expr, expr, expr_of_arena h operand]
  | .binary left _ right _ => by rw [expr, expr, expr_of_arena h left, expr_of_arena h right]
  | .cast operand type _ => by rw [expr, expr, typeName_of_arena h type, expr_of_arena h operand]
  | .field object _ _ => by rw [expr, expr, expr_of_arena h object]
  | .index object position _ => by rw [expr, expr, expr_of_arena h object, expr_of_arena h position]
  | .function _ _ _ => rfl
  | .call callee arguments _ => by rw [expr, expr, expr_of_arena h callee, exprs_of_arena h arguments]
  | .ident _ => rfl
  | .literal _ _ => rfl
  | .bool _ _ => rfl
  | .array _ _ elements _ => by rw [expr, expr, exprs_of_arena h elements]

/-- Lowering expressions in a row depends on the arena alone. -/
theorem exprs_of_arena (h : second.SameArena first) :
    ∀ es : List Expr, exprs second es = exprs first es
  | [] => rfl
  | e :: rest => by rw [exprs, exprs, expr_of_arena h e, exprs_of_arena h rest]

end

/-- Lowering a value that may be absent depends on the arena alone. -/
theorem optionExpr_of_arena (h : second.SameArena first) (value : Option Expr) :
    optionExpr second value = optionExpr first value := by
  cases value with
  | none => rfl
  | some e => rw [optionExpr, optionExpr, expr_of_arena h]

/-- The extent of an array depends on the arena alone. -/
theorem extent_of_arena (h : second.SameArena first) (count : Option Expr) :
    extent second count = extent first count := by
  cases count with
  | none => rfl
  | some e => rw [extent, extent, expr_of_arena h]

/-- Lowering a declarator depends on the arena alone. -/
theorem declarator_of_arena (h : second.SameArena first) (type : TypeExpr) (name : String)
    (count : Option Expr) : declarator second type name count = declarator first type name count := by
  rw [declarator.eq_def, declarator.eq_def]
  simp only [typeName_of_arena h, extent_of_arena h]

/-- Lowering declarators in a row depends on the arena alone. -/
theorem declarators_of_arena (h : second.SameArena first) (slots : List (Slot TypeExpr)) :
    declarators second slots = declarators first slots := by
  simp only [declarators, declarator_of_arena h]

/-- Lowering a declaration depends on the arena alone. -/
theorem declaration_of_arena (h : second.SameArena first) (d : Declaration) :
    declaration second d = declaration first d := by
  rw [declaration.eq_def, declaration.eq_def]
  simp only [declarator_of_arena h, declarators_of_arena h, expr_of_arena h, optionExpr_of_arena h]

/-- Lowering a simple statement depends on the arena alone. -/
theorem simple_of_arena (h : second.SameArena first) (s : Stmt) : simple second s = simple first s := by
  cases s with
  | declaration id span =>
    rw [simple, simple]
    simp only [declaration_of_arena h]
    exact bind_declAt_of_arena h id fun _ => rfl
  | _ => simp only [simple.eq_def, expr_of_arena h, optionExpr_of_arena h]

mutual

/-- Lowering a scope depends on the arena alone. -/
theorem statement_of_arena (h : second.SameArena first) :
    ∀ s : Scope, statement second s = statement first s
  | .statement stmt => by rw [statement, statement, simple_of_arena h]
  | .block scopes _ => by rw [statement, statement, statements_of_arena h scopes]
  | .conditional condition consequent none _ => by
    rw [statement, statement, expr_of_arena h, statement_of_arena h consequent]
  | .conditional condition consequent (some alternative) _ => by
    rw [statement, statement, expr_of_arena h, statement_of_arena h consequent, statement_of_arena h alternative]
  | .forLoop init condition step body _ => by
    rw [statement, statement, simple_of_arena h, expr_of_arena h, simple_of_arena h, statement_of_arena h body]
  | .whileLoop condition body _ => by rw [statement, statement, expr_of_arena h, statement_of_arena h body]
  | .forEach _ _ _ _ => rfl
  | .matching _ _ _ => rfl

/-- Lowering scopes in a row depends on the arena alone. -/
theorem statements_of_arena (h : second.SameArena first) :
    ∀ ss : List Scope, statements second ss = statements first ss
  | [] => rfl
  | s :: rest => by rw [statements, statements, statement_of_arena h s, statements_of_arena h rest]

end

/-- Lowering the body of a function depends on the arena alone. -/
theorem body_of_arena (h : second.SameArena first) (scope : Scope) :
    body second scope = body first scope := by
  rw [body.eq_def, body.eq_def]
  simp only [statement_of_arena h, statements_of_arena h]

/-- Lowering an item depends on the arena alone, not on the order of the items. -/
theorem item_of_arena (h : second.SameArena first) (d : Declaration) :
    item second d = item first d := by
  simp only [item.eq_def, function.eq_def, declarators_of_arena h, typeName_of_arena h, body_of_arena h,
    declaration_of_arena h]

/-- The order of emission counts up to marks. -/
theorem items_of_arena (h : second.SameArena first) {ds es : List Declaration}
    (horder : ds.map Declaration.unmarked = es.map Declaration.unmarked) : items second ds = items first es := by
  induction ds generalizing es with
  | nil =>
    obtain rfl : es = [] := by simpa using horder.symm
    rfl
  | cons d rest ih =>
    cases es with
    | nil => cases horder
    | cons e es =>
      obtain ⟨hfirst, hrest⟩ := List.cons.inj horder
      have hitem : item first d.unmarked = item first e.unmarked := congrArg (item first) hfirst
      change item first d = item first e at hitem
      rw [items, items, item_of_arena h, ih hrest, hitem]

end Arena

end Lowering

/-- What is generated depends on the arena and on the order of emission only. -/
theorem generate_of_arena {first second : SourceFile} (harena : second.declarations = first.declarations)
    (horder : Lowering.emissionOrder second = Lowering.emissionOrder first) (banner : Bool) :
    generate second banner = generate first banner := by
  have hsame : second.SameArena first := congrArg (List.map Declaration.unmarked) harena
  rw [generate, generate, horder, Lowering.items_of_arena hsame rfl]

/-- What is generated does not depend on marks. -/
theorem generate_of_unmarked {first second : SourceFile} (h : second.unmarked = first.unmarked) (banner : Bool) :
    generate second banner = generate first banner := by
  have horder (file : SourceFile) :
      Lowering.emissionOrder file.unmarked = (Lowering.emissionOrder file).map Declaration.unmarked :=
    Lowering.emissionOrder_map rfl (fun id => List.getElem?_map ..) fun _ => rfl
  have hsame := congrArg Lowering.emissionOrder h
  rw [horder, horder] at hsame
  rw [generate, generate, Lowering.items_of_arena (congrArg SourceFile.declarations h) hsame]

end DeclTree

import DeclTree.Proofs.Tables
import DeclTree.Session
import Mathlib.Data.Finmap

/-!
# Tables answer like maps

A chain of tables answers every sequence of operations like a stack of finite maps from names to declarations. Neither
the hash of names nor which names share a bucket shows in an answer. A table stands for a map if it finds what the map
binds and has as many bindings as the map has names; an insertion keeps both, because it adds a binding only for a name
that has none.
-/

namespace DeclTree

variable {hash : String → Nat}

/-- An operation on the scopes that are open. -/
inductive ScopeOperation where
  | push
  | pop
  | insert (name : String) (id : DeclId)
  | lookup (name : String)
  | lookupLocal (name : String)
  | size

/-- Carry out an operation on a chain of tables. -/
def Scopes.perform (scopes : Scopes hash) : ScopeOperation → Scopes hash × Session.Answer
  | .push => (scopes.push, .depth scopes.push.depth)
  | .pop =>
    match scopes.pop? with
    | some outer => (outer, .depth outer.depth)
    | none => (scopes, .refused)
  | .insert name id =>
    match scopes.insert? name id with
    | some changed => (changed, .inserted true)
    | none => (scopes, .inserted false)
  | .lookup name => (scopes, .found (scopes.find? name))
  | .lookupLocal name => (scopes, .found (scopes.top.find? name))
  | .size => (scopes, .size scopes.top.size)

/-- A finite map from names to declarations. -/
abbrev NameMap := Finmap fun _ : String => DeclId

/-- A stack of maps: that of the current scope and those of the enclosing scopes, innermost first. -/
structure MapStack where
  top : NameMap
  enclosing : List NameMap

namespace MapStack

/-- The stack that consists of one map without names. -/
def root : MapStack := ⟨∅, []⟩

/-- Carry out an operation on a stack of maps. A name is bound in the innermost map unless that map has it already, and
it stands for what the innermost map that has it says. -/
def perform (stack : MapStack) : ScopeOperation → MapStack × Session.Answer
  | .push => (⟨∅, stack.top :: stack.enclosing⟩, .depth (stack.enclosing.length + 2))
  | .pop =>
    match stack.enclosing with
    | [] => (stack, .refused)
    | map :: rest => (⟨map, rest⟩, .depth (rest.length + 1))
  | .insert name id =>
    if name ∈ stack.top then (stack, .inserted false)
    else ({ stack with top := stack.top.insert name id }, .inserted true)
  | .lookup name => (stack, .found ((stack.top :: stack.enclosing).findSome? (·.lookup name)))
  | .lookupLocal name => (stack, .found (stack.top.lookup name))
  | .size => (stack, .size stack.top.keys.card)

end MapStack

/-- What operations answer that are carried out one after the other. -/
def answers {σ : Type} (perform : σ → ScopeOperation → σ × Session.Answer) (state : σ) :
    List ScopeOperation → List Session.Answer
  | [] => []
  | operation :: rest => (perform state operation).2 :: answers perform (perform state operation).1 rest

/-- Related states that answer alike and stay related answer every sequence of operations alike. -/
theorem answers_eq {σ τ : Type} {perform : σ → ScopeOperation → σ × Session.Answer}
    {perform' : τ → ScopeOperation → τ × Session.Answer} {related : σ → τ → Prop}
    (hstep : ∀ s t, related s t → ∀ operation,
      related (perform s operation).1 (perform' t operation).1 ∧ (perform s operation).2 = (perform' t operation).2)
    {s : σ} {t : τ} (h : related s t) (operations : List ScopeOperation) :
    answers perform s operations = answers perform' t operations := by
  induction operations generalizing s t with
  | nil => rfl
  | cons operation rest ih =>
    obtain ⟨hnext, hanswer⟩ := hstep s t h operation
    rw [answers, answers, hanswer, ih hnext]

namespace SymbolTable

/-- Lengthening one of the rows lengthens all of them together. -/
theorem length_flatten_set {α : Type} (x : α) (rows : List (List α)) (i : Nat) (h : i < rows.length) :
    (rows.set i (rows[i] ++ [x])).flatten.length = rows.flatten.length + 1 := by
  induction rows generalizing i with
  | nil => exact absurd h (Nat.not_lt_zero i)
  | cons row rest ih =>
    cases i with
    | zero => simp; omega
    | succ i => simp [ih i (Nat.lt_of_succ_lt_succ h), Nat.add_assoc]

variable {table changed : SymbolTable hash} {map : NameMap} {name : String} {id : DeclId}

/-- An empty table has no bindings. -/
theorem size_empty : (empty : SymbolTable hash).size = 0 := by
  rw [size, empty, Vector.toList_replicate, List.flatten_replicate_nil, List.length_nil]

/-- An insertion adds one binding. -/
theorem size_of_insert? (h : table.insert? name id = some changed) : changed.size = table.size + 1 := by
  rw [insert?] at h
  split at h
  · simp at h
  · obtain rfl := Option.some_inj.mp h
    rw [size, size, Vector.toList_set]
    exact length_flatten_set (name, id) table.buckets.toList (bucketOf hash name).val (by simp)

/-- A table stands for a map. -/
structure Refines (table : SymbolTable hash) (map : NameMap) : Prop where
  find : ∀ name, table.find? name = map.lookup name
  size : table.size = map.keys.card

namespace Refines

/-- An empty table stands for the map without names. -/
theorem empty : (SymbolTable.empty : SymbolTable hash).Refines ∅ where
  find name := by rw [find?_empty, Finmap.lookup_empty]
  size := by rw [size_empty, Finmap.keys_empty, Finset.card_empty]

/-- The table refuses a name exactly when the map has it. -/
theorem insert?_eq_none_iff (h : table.Refines map) : table.insert? name id = none ↔ name ∈ map := by
  rw [SymbolTable.insert?_eq_none_iff, h.find, Finmap.mem_iff]

/-- A table to which a binding has been added stands for the map with that binding. -/
theorem insert (h : table.Refines map) (hinsert : table.insert? name id = some changed) :
    changed.Refines (map.insert name id) where
  find n := by
    rw [(find?_of_insert? hinsert).2 n]
    split
    · next hn => rw [hn, Finmap.lookup_insert]
    · next hn => rw [Finmap.lookup_insert_of_ne map hn, h.find]
  size := by
    have hnew : name ∉ map.keys := fun hmem => by
      simp [h.insert?_eq_none_iff.mpr (Finmap.mem_keys.mp hmem)] at hinsert
    have hkeys : (map.insert name id).keys = Insert.insert name map.keys := by
      ext n
      rw [Finmap.mem_keys, Finmap.mem_insert, Finset.mem_insert, Finmap.mem_keys]
    rw [size_of_insert? hinsert, h.size, hkeys, Finset.card_insert_of_notMem hnew]

end Refines

end SymbolTable

namespace Scopes

/-- Every table of a chain stands for the map at its place. -/
structure Refines (scopes : Scopes hash) (stack : MapStack) : Prop where
  top : scopes.top.Refines stack.top
  enclosing : List.Forall₂ SymbolTable.Refines scopes.enclosing stack.enclosing

namespace Refines

variable {scopes changed : Scopes hash} {stack : MapStack} {name : String} {id : DeclId}

/-- A chain of one empty table stands for one map without names. -/
theorem root (hash : String → Nat) : (Scopes.root hash).Refines .root := ⟨.empty, .nil⟩

/-- The innermost table that binds a name stands for the innermost map that has it. -/
theorem find (h : scopes.Refines stack) (name : String) :
    scopes.find? name = (stack.top :: stack.enclosing).findSome? (·.lookup name) := by
  have hall {tables : List (SymbolTable hash)} {maps} (h : List.Forall₂ SymbolTable.Refines tables maps) :
      tables.findSome? (·.find? name) = maps.findSome? (·.lookup name) := by
    induction h with
    | nil => rfl
    | cons hfirst _ ih => rw [List.findSome?_cons, List.findSome?_cons, hfirst.find, ih]
  exact hall (.cons h.top h.enclosing)

/-- Carrying out an operation on both sides answers the same and leaves every table standing for its map. -/
theorem perform (h : scopes.Refines stack) (operation : ScopeOperation) :
    (scopes.perform operation).1.Refines (stack.perform operation).1 ∧
      (scopes.perform operation).2 = (stack.perform operation).2 := by
  have hlength := h.enclosing.length_eq
  cases operation with
  | push =>
    refine ⟨⟨.empty, .cons h.top h.enclosing⟩, ?_⟩
    simp [Scopes.perform, MapStack.perform, Scopes.push, Scopes.depth, hlength]
  | pop =>
    obtain ⟨top, enclosing⟩ := scopes
    obtain ⟨map, maps⟩ := stack
    cases h.enclosing with
    | nil => exact ⟨h, rfl⟩
    | cons hfirst hrest =>
      refine ⟨⟨hfirst, hrest⟩, ?_⟩
      simp [Scopes.perform, MapStack.perform, Scopes.pop?, Scopes.depth, hrest.length_eq]
  | insert name id =>
    rw [Scopes.perform, MapStack.perform]
    cases hinsert : scopes.top.insert? name id with
    | none =>
      rw [Scopes.insert?, hinsert, if_pos (h.top.insert?_eq_none_iff.mp hinsert)]
      exact ⟨h, rfl⟩
    | some table =>
      have hnew : name ∉ stack.top := fun hmem => by simp [h.top.insert?_eq_none_iff.mpr hmem] at hinsert
      rw [Scopes.insert?, hinsert, if_neg hnew]
      exact ⟨⟨h.top.insert hinsert, h.enclosing⟩, rfl⟩
  | lookup name => exact ⟨h, congrArg Session.Answer.found (h.find name)⟩
  | lookupLocal name => exact ⟨h, congrArg Session.Answer.found (h.top.find name)⟩
  | size => exact ⟨h, congrArg Session.Answer.size h.top.size⟩

end Refines

end Scopes

namespace Session

/-- The operation on scopes that an operation of a session on a file is, if it is one: a declaration is inserted under
its name. -/
def Operation.onScopes? (file : SourceFile) : Operation → Option ScopeOperation
  | .push => some .push
  | .pop => some .pop
  | .insert id => (file.decl? id).map fun d => .insert d.name.name id
  | .lookup name => some (.lookup name)
  | .lookupLocal name => some (.lookupLocal name)
  | .size => some .size
  | _ => none

/-- A session carries out an operation on scopes on its chain of tables. -/
theorem step_eq_perform {session : Session hash} {operation : Operation} {onScopes : ScopeOperation}
    (h : operation.onScopes? session.file = some onScopes) :
    session.step operation =
      ({ session with scopes := (session.scopes.perform onScopes).1 }, (session.scopes.perform onScopes).2) := by
  cases operation with
  | push | lookup name | lookupLocal name | size =>
    obtain rfl := Option.some_inj.mp h
    rfl
  | pop =>
    obtain rfl := Option.some_inj.mp h
    rw [step, Scopes.perform]
    cases session.scopes.pop? <;> rfl
  | insert id =>
    obtain ⟨d, hd, rfl⟩ := Option.map_eq_some_iff.mp h
    rw [step, hd, Scopes.perform]
    dsimp only
    cases session.scopes.insert? d.name.name id <;> rfl
  | resolve id | resolveFile | generate banner | marks | tree | describe id => nomatch h

/-- A session whose operations are all on scopes answers as its chain of tables does. -/
theorem run_eq_answers {session : Session hash} {operations : List Operation} {onScopes : List ScopeOperation}
    (h : operations.mapM (Operation.onScopes? session.file) = some onScopes) :
    (session.run operations).2 = answers Scopes.perform session.scopes onScopes := by
  induction operations generalizing session onScopes with
  | nil =>
    obtain rfl := Option.some_inj.mp h
    rfl
  | cons operation rest ih =>
    rw [List.mapM_cons] at h
    obtain ⟨first, hfirst, h⟩ := Option.bind_eq_some_iff.mp h
    obtain ⟨others, hothers, h⟩ := Option.bind_eq_some_iff.mp h
    obtain rfl := Option.some_inj.mp h
    rw [run, step_eq_perform hfirst, answers]
    exact congrArg (_ :: ·) (@ih ⟨session.file, (session.scopes.perform first).1⟩ _ hothers)

end Session

/-- Whatever the hash of names is, a chain of tables answers every sequence of operations like a stack of finite maps,
and so does the chain of a session. -/
theorem tables_answer_like_maps (hash : String → Nat) (operations : List ScopeOperation) :
    answers Scopes.perform (.root hash) operations = answers MapStack.perform .root operations ∧
      ∀ (file : SourceFile) (requests : List Session.Operation),
        requests.mapM (Session.Operation.onScopes? file) = some operations →
          ((Session.start hash file).run requests).2 = answers MapStack.perform .root operations := by
  have hmaps : answers Scopes.perform (.root hash) operations = answers MapStack.perform .root operations :=
    answers_eq (fun _ _ h => h.perform) (Scopes.Refines.root hash) operations
  exact ⟨hmaps, fun file requests h => (Session.run_eq_answers h).trans hmaps⟩

/-- A file with two names that share a bucket, one of them declared twice. -/
def colliding : SourceFile :=
  let declared (name : String) : Declaration := ⟨⟨name, .nowhere⟩, .enumeration [], .nowhere, .untouched⟩
  ⟨[declared "Aa", declared "BB", declared "Aa"], []⟩

/-- The first declaration of a name stays, an inner scope shadows it, and the inner scope counts its own names only. -/
theorem colliding_answers :
    SymbolTable.bucketOf nameHash "Aa" = SymbolTable.bucketOf nameHash "BB" ∧
      ((Session.start nameHash colliding).run [.insert 0, .insert 1, .insert 2, .size, .push, .insert 2, .size,
          .lookup "Aa", .lookup "BB", .lookupLocal "BB", .pop, .lookup "Aa", .pop]).2 =
        [.inserted true, .inserted true, .inserted false, .size 2, .depth 2, .inserted true, .size 1, .found (some 2),
          .found (some 1), .found none, .depth 1, .found (some 0), .refused] :=
  ⟨by decide, ((tables_answer_like_maps nameHash [.insert "Aa" 0, .insert "BB" 1, .insert "Aa" 2, .size, .push,
    .insert "Aa" 2, .size, .lookup "Aa", .lookup "BB", .lookupLocal "BB", .pop, .lookup "Aa", .pop]).2 colliding _
      rfl).trans rfl⟩

end DeclTree

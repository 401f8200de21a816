import DeclTree.SymbolTable

/-!
# What tables answer

Inserting a name that a table does not bind makes the table answer with the new declaration for that name and as before
for every other, whatever bucket the names fall into. A chain of tables answers like its innermost table that binds the
name.
-/

namespace DeclTree

namespace SymbolTable

variable {hash : String → Nat} {table changed : SymbolTable hash} {name : String} {id : DeclId}

/-- A bucket after one of the buckets has been replaced. -/
theorem get_set (buckets : Vector (List (String × DeclId)) bucketCount) (i j : Fin bucketCount)
    (bucket : List (String × DeclId)) :
    (buckets.set i.val bucket i.isLt).get j = if i = j then bucket else buckets.get j := by
  change (buckets.set i.val bucket i.isLt)[j.val] = if i = j then bucket else buckets[j.val]
  rw [Vector.getElem_set]
  simp only [Fin.ext_iff]

/-- No name stands for anything in an empty table. -/
theorem find?_empty (name : String) : (empty : SymbolTable hash).find? name = none := by
  simp [find?, empty, Vector.get]

/-- A name is not inserted exactly when it is bound already. -/
theorem insert?_eq_none_iff : table.insert? name id = none ↔ ∃ bound, table.find? name = some bound := by
  rw [← Option.isSome_iff_exists, insert?, find?]
  split
  · next h => exact iff_of_true rfl h
  · next h => exact iff_of_false (by simp) h

/-- A name that was inserted was not bound before, and nothing changes for the other names. -/
theorem find?_of_insert? (h : table.insert? name id = some changed) :
    table.find? name = none ∧ ∀ n, changed.find? n = if n = name then some id else table.find? n := by
  rw [insert?] at h
  split at h
  · simp at h
  · next hfree =>
    rw [Bool.not_eq_true, Option.isSome_eq_false_iff, Option.isNone_iff_eq_none] at hfree
    obtain rfl := Option.some_inj.mp h
    refine ⟨hfree, fun n => ?_⟩
    rw [find?, find?, get_set]
    by_cases hn : n = name
    · rw [if_pos hn, hn, if_pos rfl, List.lookup_append, hfree]
      simp
    · rw [if_neg hn]
      split
      · next hplace =>
        have hother : [(name, id)].lookup n = none := by simp [List.lookup_cons, beq_false_of_ne hn]
        rw [hplace, List.lookup_append, hother, Option.or_none]
      · rfl

end SymbolTable

namespace Scopes

variable {hash : String → Nat} {scopes changed : Scopes hash} {name : String} {id : DeclId}

/-- A name that was inserted is bound in the innermost table, which did not bind it before. -/
theorem eq_of_insert? (h : scopes.insert? name id = some changed) :
    ∃ table, scopes.top.insert? name id = some table ∧ changed = ⟨table, scopes.enclosing⟩ := by
  obtain ⟨table, htable, rfl⟩ := Option.map_eq_some_iff.mp h
  exact ⟨table, htable, rfl⟩

/-- A name is not inserted exactly when the innermost table binds it. -/
theorem insert?_eq_none_iff :
    scopes.insert? name id = none ↔ ∃ bound, scopes.top.find? name = some bound := by
  rw [insert?, Option.map_eq_none_iff, SymbolTable.insert?_eq_none_iff]

/-- Every binding of every table of a chain, also one that is shadowed, is as stated of its name and declaration. -/
def Binds (Q : String → DeclId → Prop) (scopes : Scopes hash) : Prop :=
  ∀ table ∈ scopes.top :: scopes.enclosing, ∀ name id, table.find? name = some id → Q name id

namespace Binds

variable {Q : String → DeclId → Prop}

/-- A chain of one empty table has no bindings. -/
theorem root (hash : String → Nat) (Q : String → DeclId → Prop) : (Scopes.root hash).Binds Q := by
  intro table htable name id hfind
  rw [List.mem_singleton.mp htable] at hfind
  simp [Scopes.root, SymbolTable.find?_empty] at hfind

/-- Entering a scope adds no bindings. -/
theorem push (h : scopes.Binds Q) : scopes.push.Binds Q := by
  intro table htable name id hfind
  rcases List.mem_cons.mp htable with rfl | htable
  · simp [Scopes.push, SymbolTable.find?_empty] at hfind
  · exact h table htable name id hfind

/-- Leaving a scope adds no bindings. -/
theorem pop (h : scopes.Binds Q) : (scopes.pop?.getD scopes).Binds Q := by
  rcases scopes with ⟨top, _ | ⟨table, rest⟩⟩
  · exact h
  · exact fun t ht => h t (List.mem_cons_of_mem _ ht)

/-- A binding as stated may be added. -/
theorem insert (h : scopes.Binds Q) (hinsert : scopes.insert? name id = some changed) (hid : Q name id) :
    changed.Binds Q := by
  obtain ⟨inner, hinner, rfl⟩ := eq_of_insert? hinsert
  intro table htable n u hfind
  rcases List.mem_cons.mp htable with rfl | htable
  · rw [(SymbolTable.find?_of_insert? hinner).2 n] at hfind
    split at hfind
    · next hname => exact hname ▸ Option.some_inj.mp hfind ▸ hid
    · exact h _ List.mem_cons_self n u hfind
  · exact h table (List.mem_cons_of_mem _ htable) n u hfind

/-- What a name stands for is as stated of all bindings. -/
theorem find (h : scopes.Binds Q) (hfind : scopes.find? name = some id) : Q name id := by
  obtain ⟨table, htable, hbound⟩ := List.exists_of_findSome?_eq_some hfind
  exact h table htable name id hbound

end Binds

/-- Every binding of every table of a chain is to a declaration as stated. -/
abbrev All (P : DeclId → Prop) (scopes : Scopes hash) : Prop := scopes.Binds fun _ => P

/-- What is stated of the declarations of a chain may be weakened. -/
theorem All.imp {P Q : DeclId → Prop} (h : scopes.All P) (hPQ : ∀ id, P id → Q id) : scopes.All Q :=
  fun table htable name id hfind => hPQ id (h table htable name id hfind)

end Scopes

end DeclTree

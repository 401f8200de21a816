import DeclTree.Syntax.TypeExpr

/-!
# Symbol tables

A symbol table binds the names of one scope to declarations. Its bindings lie in a fixed number of buckets, and a hash
of names chooses the bucket. The hash is a parameter of the type of tables, so that a table is always searched with the
hash that it was filled with. A chain of tables, innermost first, is searched outward, so that inner bindings shadow
outer ones.
-/

namespace DeclTree

/-- The number of buckets of a table. -/
def bucketCount : Nat := 64

/-- The bindings of one scope. -/
structure SymbolTable (hash : String → Nat) where
  buckets : Vector (List (String × DeclId)) bucketCount

namespace SymbolTable

variable {hash : String → Nat}

/-- The table without bindings. -/
def empty : SymbolTable hash := ⟨Vector.replicate bucketCount []⟩

/-- The bucket of a name. -/
def bucketOf (hash : String → Nat) (name : String) : Fin bucketCount :=
  ⟨hash name % bucketCount, Nat.mod_lt _ (by decide)⟩

/-- The declaration that the table binds to a name. -/
def find? (table : SymbolTable hash) (name : String) : Option DeclId :=
  (table.buckets.get (bucketOf hash name)).lookup name

/-- The table with one more binding; none if the name is bound already. -/
def insert? (table : SymbolTable hash) (name : String) (id : DeclId) : Option (SymbolTable hash) :=
  let place := bucketOf hash name
  let bucket := table.buckets.get place
  if (bucket.lookup name).isSome then none
  else some ⟨table.buckets.set place.val (bucket ++ [(name, id)]) place.isLt⟩

/-- The number of bindings. -/
def size (table : SymbolTable hash) : Nat :=
  table.buckets.toList.flatten.length

end SymbolTable

/-- A hash of names, with which the program is run. -/
def nameHash (name : String) : Nat :=
  name.toList.foldl (fun h c => (h * 31 + c.toNat) % UInt32.size) 7

/-- A chain of tables: the table of the current scope and those of the enclosing scopes, innermost first. -/
structure Scopes (hash : String → Nat) where
  top : SymbolTable hash
  enclosing : List (SymbolTable hash)

namespace Scopes

variable {hash : String → Nat}

/-- The chain that consists of one table without bindings. -/
def root (hash : String → Nat) : Scopes hash := ⟨.empty, []⟩

/-- Enter a scope. -/
def push (scopes : Scopes hash) : Scopes hash := ⟨.empty, scopes.top :: scopes.enclosing⟩

/-- Leave a scope; the outermost one is never left. -/
def pop? (scopes : Scopes hash) : Option (Scopes hash) :=
  match scopes.enclosing with
  | [] => none
  | table :: rest => some ⟨table, rest⟩

/-- The number of tables. -/
def depth (scopes : Scopes hash) : Nat := scopes.enclosing.length + 1

/-- The declaration that a name stands for, searched from the innermost scope outward. -/
def find? (scopes : Scopes hash) (name : String) : Option DeclId :=
  (scopes.top :: scopes.enclosing).findSome? (·.find? name)

/-- Bind a name in the innermost scope; none if that scope binds it already. -/
def insert? (scopes : Scopes hash) (name : String) (id : DeclId) : Option (Scopes hash) :=
  (scopes.top.insert? name id).map fun table => { scopes with top := table }

end Scopes

end DeclTree

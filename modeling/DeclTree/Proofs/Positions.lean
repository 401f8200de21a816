import DeclTree.Document.Validate

/-!
# Where a file names positions

A file names positions of its arena in its items and in the declaration statements below its initial values. A place of
the second kind is a path: at each node the index of the child to go on with. Places are ordered as they are checked,
items first, then the initial values in arena order, each from left to right. A document is accepted exactly if every
place names a position inside the arena, and otherwise the error names the first one that does not.
-/

/-- The first element with a property of lists in a row is the first one of the first list that has one. -/
theorem List.exists_of_find?_flatMap {α β : Type} {f : α → List β} {wanted : β → Bool} {l : List α} {b : β}
    (h : (l.flatMap f).find? wanted = some b) :
    ∃ (i : Nat) (a : α), l[i]? = some a ∧ (f a).find? wanted = some b ∧
      ∀ j < i, ∀ c, l[j]? = some c → ∀ x ∈ f c, wanted x = false := by
  induction l with
  | nil => cases h
  | cons a rest ih =>
    rw [List.flatMap_cons, List.find?_append, Option.or_eq_some_iff] at h
    rcases h with hfirst | ⟨hnone, hrest⟩
    · exact ⟨0, a, rfl, hfirst, fun j hj => absurd hj (Nat.not_lt_zero j)⟩
    · obtain ⟨i, c, hi, hfound, hbefore⟩ := ih hrest
      refine ⟨i + 1, c, hi, hfound, ?_⟩
      rintro (_ | j) hj c' hc' x hx
      · obtain rfl : a = c' := Option.some.inj hc'
        simpa using List.find?_eq_none.mp hnone x hx
      · exact hbefore j (Nat.lt_of_succ_lt_succ hj) c' hc' x hx

namespace DeclTree

/-- The positions that expressions in a row name, expression by expression. -/
theorem Expr.listIds_eq_flatMap (es : List Expr) : Expr.listIds es = es.flatMap Expr.ids := by
  induction es with
  | nil => rfl
  | cons e rest ih => rw [Expr.listIds, ih, List.flatMap_cons]

/-- The positions that scopes in a row name, scope by scope. -/
theorem Scope.listIds_eq_flatMap (scopes : List Scope) : Scope.listIds scopes = scopes.flatMap Scope.ids := by
  induction scopes with
  | nil => rfl
  | cons s rest ih => rw [Scope.listIds, ih, List.flatMap_cons]

/-- The positions that arms name, scope by scope. -/
theorem Scope.armIds_eq_flatMap (arms : List (Arm Scope)) :
    Scope.armIds arms = arms.flatMap fun arm => arm.scopes.flatMap Scope.ids := by
  induction arms with
  | nil => rfl
  | cons arm rest ih => rw [Scope.armIds, ih, List.flatMap_cons, Scope.listIds_eq_flatMap]

/-- A node of the syntax of an initial value. -/
inductive Subtree where
  | expr (e : Expr)
  | stmt (stmt : Stmt)
  | scope (scope : Scope)

namespace Subtree

/-- The nodes directly below a node, from left to right. -/
def children : Subtree → List Subtree
  | expr (.paren inner _) => [expr inner]
  | expr (.unary _ operand _) => [expr operand]
  | expr (.binary left _ right _) => [expr left, expr right]
  | expr (.cast operand _ _) => [expr operand]
  | expr (.field object _ _) => [expr object]
  | expr (.index object position _) => [expr object, expr position]
  | expr (.function _ body _) => [scope body]
  | expr (.call callee arguments _) => expr callee :: arguments.map expr
  | expr (.array count _ elements _) => count.toList.map expr ++ elements.map expr
  | expr (.ident _) => []
  | expr (.literal ..) => []
  | expr (.bool ..) => []
  | stmt (.declaration ..) => []
  | stmt (.increment target _) => [expr target]
  | stmt (.decrement target _) => [expr target]
  | stmt (.assign _ target value _) => [expr target, expr value]
  | stmt (.expr value) => [expr value]
  | stmt (.label _) => []
  | stmt (.goto _) => []
  | stmt (.returning value _) => value.toList.map expr
  | scope (.statement s) => [stmt s]
  | scope (.block scopes _) => scopes.map scope
  | scope (.conditional condition consequent alternative _) =>
    expr condition :: scope consequent :: alternative.toList.map scope
  | scope (.forLoop init condition step body _) => [stmt init, expr condition, stmt step, scope body]
  | scope (.whileLoop condition body _) => [expr condition, scope body]
  | scope (.forEach _ iterable body _) => [expr iterable, scope body]
  | scope (.matching subject arms _) => expr subject :: arms.flatMap fun arm => arm.scopes.map scope

/-- The node that is reached along a path of child indices. -/
def at? (t : Subtree) : List Nat → Option Subtree
  | [] => some t
  | i :: path => t.children[i]?.bind fun child => child.at? path

/-- The position that a declaration statement names. -/
def declared? : Subtree → Option DeclId
  | stmt (.declaration id _) => some id
  | _ => none

/-- The position that is named at the end of a path. -/
def nameAt? (t : Subtree) (path : List Nat) : Option DeclId := (t.at? path).bind declared?

/-- The positions that are named in a node and below it. -/
def ids : Subtree → List DeclId
  | expr e => e.ids
  | stmt s => s.ids
  | scope s => s.ids

/-- A node either names a position itself or has the names of its children, from left to right. -/
theorem ids_eq (t : Subtree) : t.ids = t.declared?.toList ++ t.children.flatMap ids := by
  cases t with
  | expr e =>
    cases e with
    | array count =>
      cases count <;> simp [ids, Expr.ids, children, declared?, Expr.listIds_eq_flatMap, List.flatMap_map]
    | _ => simp [ids, Expr.ids, children, declared?, Expr.listIds_eq_flatMap, List.flatMap_map]
  | stmt s =>
    cases s with
    | returning value => cases value <;> simp [ids, Stmt.ids, children, declared?]
    | _ => simp [ids, Stmt.ids, children, declared?]
  | scope s =>
    cases s with
    | conditional condition consequent alternative =>
      cases alternative <;> simp [ids, Scope.ids, children, declared?]
    | _ =>
      simp [ids, Scope.ids, children, declared?, Scope.listIds_eq_flatMap, Scope.armIds_eq_flatMap, List.flatMap_map,
        List.flatMap_assoc]

/-- A node that names a position has nothing below it. -/
theorem children_of_declared? {t : Subtree} {id : DeclId} (h : t.declared? = some id) : t.children = [] := by
  unfold declared? at h
  split at h
  · rfl
  · cases h

/-- The size of the syntax of a node. -/
noncomputable def size : Subtree → Nat
  | expr e => sizeOf e
  | stmt s => sizeOf s
  | scope s => sizeOf s

/-- A scope of an arm is smaller than the arms. -/
theorem size_lt_of_mem_arms {arms : List (Arm Scope)} {arm : Arm Scope} {s : Scope} (harm : arm ∈ arms)
    (hs : s ∈ arm.scopes) : sizeOf s < sizeOf arms := by
  obtain ⟨name, scopes, span⟩ := arm
  have harm := List.sizeOf_lt_of_mem harm
  have hs := List.sizeOf_lt_of_mem hs
  simp only [Arm.mk.sizeOf_spec] at harm hs
  omega

/-- What is directly below a node is smaller than the node. -/
theorem size_lt (t : Subtree) : ∀ child ∈ t.children, child.size < t.size := by
  cases t with
  | expr e =>
    cases e with
    | call callee arguments _ =>
      have harguments : ∀ e ∈ arguments, sizeOf e < sizeOf arguments := fun _ => List.sizeOf_lt_of_mem
      simp only [children, List.forall_mem_cons, List.forall_mem_map, size, Expr.call.sizeOf_spec]
      exact ⟨by omega, fun e he => by have := harguments e he; omega⟩
    | array count _ elements _ =>
      have helements : ∀ e ∈ elements, sizeOf e < sizeOf elements := fun _ => List.sizeOf_lt_of_mem
      simp only [children, List.forall_mem_append, List.forall_mem_map, size, Expr.array.sizeOf_spec]
      refine ⟨fun e he => ?_, fun e he => by have := helements e he; omega⟩
      obtain rfl := Option.mem_toList.mp he
      simp only [Option.some.sizeOf_spec]
      omega
    | _ => simp [children, size] <;> omega
  | stmt s =>
    cases s with
    | returning value => cases value <;> simp [children, size]; omega
    | _ => simp [children, size] <;> omega
  | scope s =>
    cases s with
    | block scopes =>
      have hscopes : ∀ s ∈ scopes, sizeOf s < sizeOf scopes := fun _ => List.sizeOf_lt_of_mem
      simp only [children, List.forall_mem_map, size, Scope.block.sizeOf_spec]
      exact fun s hs => by have := hscopes s hs; omega
    | conditional condition consequent alternative =>
      cases alternative <;> simp [children, size] <;> omega
    | matching subject arms =>
      simp only [children, List.forall_mem_cons, List.forall_mem_flatMap, List.forall_mem_map, size,
        Scope.matching.sizeOf_spec]
      exact ⟨by omega, fun arm harm s hs => by have := size_lt_of_mem_arms harm hs; omega⟩
    | _ => simp [children, size] <;> omega

/-- Induction from the children of a node to the node. -/
theorem childrenInduction {motive : Subtree → Prop}
    (step : ∀ t : Subtree, (∀ child ∈ t.children, motive child) → motive t) (t : Subtree) : motive t :=
  (measure size).wf.induction t fun t ih => step t fun child hchild => ih child (size_lt t child hchild)

/-- What a path leads to is led to from the child at its first number by the rest. -/
theorem nameAt?_cons {t : Subtree} {i : Nat} {path : List Nat} {id : DeclId} :
    t.nameAt? (i :: path) = some id ↔ ∃ child, t.children[i]? = some child ∧ child.nameAt? path = some id := by
  rw [nameAt?, at?]
  cases t.children[i]? <;> simp [nameAt?]

/-- The positions that are named in a node are those that are named at the end of a path. -/
theorem mem_ids_iff (t : Subtree) (id : DeclId) : id ∈ t.ids ↔ ∃ path, t.nameAt? path = some id := by
  induction t using childrenInduction with
  | step t ih =>
    rw [ids_eq, List.mem_append, List.mem_flatMap, Option.mem_toList]
    constructor
    · rintro (hself | ⟨child, hchild, hid⟩)
      · exact ⟨[], hself⟩
      · obtain ⟨path, hpath⟩ := (ih child hchild).mp hid
        obtain ⟨i, hi⟩ := List.getElem?_of_mem hchild
        exact ⟨i :: path, nameAt?_cons.mpr ⟨child, hi, hpath⟩⟩
    · rintro ⟨_ | ⟨i, path⟩, hpath⟩
      · exact .inl hpath
      · obtain ⟨child, hi, hpath⟩ := nameAt?_cons.mp hpath
        have hchild := List.mem_of_getElem? hi
        exact .inr ⟨child, hchild, (ih child hchild).mpr ⟨path, hpath⟩⟩

/-- The first position with a property that is named in a node stands at the end of the leftmost path to one. -/
theorem exists_leftmost {wanted : DeclId → Bool} (t : Subtree) {id : DeclId} (h : t.ids.find? wanted = some id) :
    ∃ path, t.nameAt? path = some id ∧
      ∀ earlier < path, ∀ other, t.nameAt? earlier = some other → wanted other = false := by
  induction t using childrenInduction with
  | step t ih =>
    rw [ids_eq] at h
    cases hself : t.declared? with
    | some own =>
      rw [hself, children_of_declared? hself] at h
      obtain rfl : id = own := by simpa using List.mem_of_find?_eq_some h
      exact ⟨[], hself, fun earlier hearlier => absurd hearlier (List.not_lt_nil earlier)⟩
    | none =>
      rw [hself, Option.toList_none, List.nil_append] at h
      obtain ⟨i, child, hi, hfound, hbefore⟩ := List.exists_of_find?_flatMap h
      obtain ⟨path, hpath, hleast⟩ := ih child (List.mem_of_getElem? hi) hfound
      refine ⟨i :: path, nameAt?_cons.mpr ⟨child, hi, hpath⟩, ?_⟩
      rintro (_ | ⟨j, earlier⟩) hearlier other hother
      · rw [nameAt?, at?, Option.bind_some, hself] at hother
        cases hother
      · obtain ⟨sibling, hj, hother⟩ := nameAt?_cons.mp hother
        rcases List.cons_lt_cons_iff.mp hearlier with hlt | ⟨rfl, hlt⟩
        · exact hbefore j hlt sibling hj other ((mem_ids_iff sibling other).mpr ⟨earlier, hother⟩)
        · obtain rfl : sibling = child := Option.some.inj (hj.symm.trans hi)
          exact hleast earlier hlt other hother

end Subtree

/-- The initial value of what is declared. -/
def DeclKind.value? : DeclKind → Option Expr
  | .constant _ value => some value
  | .mutable _ value => value
  | .enumeration _ => none
  | .record .. => none
  | .sum _ => none

/-- The positions that a declaration names are those in its value. -/
theorem DeclKind.ids_eq (kind : DeclKind) : kind.ids = kind.value?.toList.flatMap Expr.ids := by
  cases kind with
  | mutable type value => cases value <;> simp [DeclKind.ids, DeclKind.value?]
  | _ => simp [DeclKind.ids, DeclKind.value?]

/-- A place where a file may name a position: an item, or the end of a path in the initial value of a declaration. -/
inductive Mention where
  | item (index : Nat)
  | within (owner : DeclId) (path : List Nat)

/-- The order of places: items first, then initial values in arena order, each from left to right. -/
inductive Mention.Precedes : Mention → Mention → Prop where
  | items {i j : Nat} (h : i < j) : Precedes (.item i) (.item j)
  | item_within (i owner : Nat) (path : List Nat) : Precedes (.item i) (.within owner path)
  | owners {first second : DeclId} (path path' : List Nat) (h : first < second) :
    Precedes (.within first path) (.within second path')
  | paths {path path' : List Nat} (owner : DeclId) (h : path < path') :
    Precedes (.within owner path) (.within owner path')

namespace SourceFile

/-- The position that a file names at a place. -/
def nameAt? (file : SourceFile) : Mention → Option DeclId
  | .item index => file.items[index]?
  | .within owner path => (file.decl? owner).bind fun d => d.kind.value?.bind fun e => (Subtree.expr e).nameAt? path

/-- A place within a declaration is a place in the value of the declaration. -/
theorem nameAt?_within {file : SourceFile} {owner : DeclId} {path : List Nat} {id : DeclId} :
    file.nameAt? (.within owner path) = some id ↔
      ∃ d e, file.decl? owner = some d ∧ d.kind.value? = some e ∧ (Subtree.expr e).nameAt? path = some id := by
  simp only [nameAt?, Option.bind_eq_some_iff]
  constructor
  · rintro ⟨d, hd, e, he, hid⟩
    exact ⟨d, e, hd, he, hid⟩
  · rintro ⟨d, e, hd, he, hid⟩
    exact ⟨d, hd, e, he, hid⟩

/-- The positions that are checked are those that the file names at some place. -/
theorem mem_ids_iff (file : SourceFile) (id : DeclId) : id ∈ file.ids ↔ ∃ place, file.nameAt? place = some id := by
  rw [ids, List.mem_append, List.mem_flatMap]
  constructor
  · rintro (hitem | ⟨d, hd, hid⟩)
    · obtain ⟨i, hi⟩ := List.getElem?_of_mem hitem
      exact ⟨.item i, hi⟩
    · obtain ⟨owner, howner⟩ := List.getElem?_of_mem hd
      rw [DeclKind.ids_eq, List.mem_flatMap] at hid
      obtain ⟨e, he, hid⟩ := hid
      obtain ⟨path, hpath⟩ := (Subtree.mem_ids_iff (.expr e) id).mp hid
      exact ⟨.within owner path, nameAt?_within.mpr ⟨d, e, howner, Option.mem_toList.mp he, hpath⟩⟩
  · rintro ⟨index | ⟨owner, path⟩, hplace⟩
    · exact .inl (List.mem_of_getElem? hplace)
    · obtain ⟨d, e, hd, he, hid⟩ := nameAt?_within.mp hplace
      refine .inr ⟨d, List.mem_of_getElem? hd, ?_⟩
      rw [DeclKind.ids_eq, he]
      exact List.mem_append_left _ ((Subtree.mem_ids_iff (.expr e) id).mpr ⟨path, hid⟩)

/-- The first position with a property, in the order of checking, is named at the first place that names one. -/
theorem exists_first_place {wanted : DeclId → Bool} (file : SourceFile) {id : DeclId}
    (h : file.ids.find? wanted = some id) :
    ∃ place, file.nameAt? place = some id ∧
      ∀ earlier, earlier.Precedes place → ∀ other, file.nameAt? earlier = some other → wanted other = false := by
  rw [ids, List.find?_append, Option.or_eq_some_iff] at h
  rcases h with hitems | ⟨hitems, hvalues⟩
  · obtain ⟨-, i, hi, rfl, hbefore⟩ := List.find?_eq_some_iff_getElem.mp hitems
    refine ⟨.item i, List.getElem?_eq_getElem hi, ?_⟩
    rintro _ ⟨hlt⟩ other hother
    obtain ⟨hj, rfl⟩ := List.getElem?_eq_some_iff.mp hother
    simpa using hbefore _ hlt
  · obtain ⟨owner, d, howner, hfound, hbefore⟩ := List.exists_of_find?_flatMap hvalues
    rw [DeclKind.ids_eq] at hfound
    cases hvalue : d.kind.value? with
    | none => simp [hvalue] at hfound
    | some e =>
      rw [hvalue] at hfound
      obtain ⟨path, hpath, hleast⟩ :=
        Subtree.exists_leftmost (.expr e) (show e.ids.find? wanted = some id by simpa using hfound)
      refine ⟨.within owner path, nameAt?_within.mpr ⟨d, e, howner, hvalue, hpath⟩, ?_⟩
      intro earlier hearlier other hother
      cases hearlier with
      | item_within i => simpa using List.find?_eq_none.mp hitems other (List.mem_of_getElem? hother)
      | owners path' _ hlt =>
        obtain ⟨d', e', hd', he', hother⟩ := nameAt?_within.mp hother
        refine hbefore _ hlt d' hd' other ?_
        rw [DeclKind.ids_eq, he']
        exact List.mem_append_left _ ((Subtree.mem_ids_iff (.expr e') other).mpr ⟨_, hother⟩)
      | paths _ hlt =>
        obtain ⟨d', e', hd', he', hother⟩ := nameAt?_within.mp hother
        obtain rfl : d' = d := Option.some.inj (hd'.symm.trans howner)
        obtain rfl : e' = e := Option.some.inj (he'.symm.trans hvalue)
        exact hleast _ hlt other hother

end SourceFile

end DeclTree

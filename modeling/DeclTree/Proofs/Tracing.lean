import DeclTree.Proofs.Scoping

/-!
# Plans follow lexical scoping

The plan of a declaration carries out its nodes in order: what the steps enter, leave and declare is, at each node, the
environment that lexical scoping gives the node.
-/

namespace DeclTree

namespace Env

/-- The environment that a step leaves. -/
def after (env : Env) : Step → Env
  | .enter => [] :: env
  | .leave => env.tail
  | .declare id => env.declare [id]
  | .link .. | .avoid .. | .reject _ => env

/-- A step that does something, with the environment that is in force then. -/
def located (env : Env) : Step → List (Env × Step)
  | .enter => []
  | .leave => []
  | step => [(env.after step, step)]

end Env

/-- The steps of a plan that do something, each with the environment that is in force then. -/
def locatedSteps : Env → List Step → List (Env × Step)
  | _, [] => []
  | env, step :: rest => env.located step ++ locatedSteps (env.after step) rest

/-- The steps that a node asks for. -/
def LexicalNode.steps : LexicalNode → List Step
  | .named name reach _ => [.link name reach]
  | .declaration id _ => [.declare id]
  | .function signature body => signature.checks body
  | .refused construct span => [.reject (.unsupported construct span)]

/-- The steps that nodes ask for, each with the environment of its node. -/
def nodeSteps (nodes : List (Env × LexicalNode)) : List (Env × Step) :=
  nodes.flatMap fun (env, node) => node.steps.map fun step => (env, step)

/-- The steps of a plan are located from where the steps before them have led. -/
theorem locatedSteps_append (env : Env) (steps more : List Step) :
    locatedSteps env (steps ++ more) = locatedSteps env steps ++ locatedSteps (steps.foldl Env.after env) more := by
  induction steps generalizing env with
  | nil => rfl
  | cons step rest ih => simp only [List.cons_append, locatedSteps, ih, List.append_assoc, List.foldl_cons]

/-- Steps never leave a scope that was there before them. -/
def Deep (env : Env) (steps : List Step) : Prop :=
  ∀ done, done <+: steps → env.length ≤ (done.foldl Env.after env).length

/-- Steps in a row stay within a scope if each part does. -/
theorem Deep.append {env : Env} {steps more : List Step} (first : Deep env steps)
    (second : Deep (steps.foldl Env.after env) more) : Deep env (steps ++ more) := by
  rintro done ⟨rest, hdone⟩
  rcases List.append_eq_append_iff.mp hdone with ⟨left, hsteps, -⟩ | ⟨left, rfl, hmore⟩
  · exact first done ⟨left, hsteps.symm⟩
  · rw [List.foldl_append]
    exact Nat.le_trans (first steps (List.prefix_refl _)) (second left ⟨rest, hmore.symm⟩)

/-- Steps that leave the environment alone. -/
theorem foldl_after_eq {env : Env} {steps : List Step} (h : ∀ step ∈ steps, env.after step = env) :
    steps.foldl Env.after env = env := by
  induction steps with
  | nil => rfl
  | cons step rest ih =>
    rw [List.foldl_cons, h step List.mem_cons_self, ih fun s hs => h s (List.mem_cons_of_mem _ hs)]

/-- Steps that leave the environment as it is leave no scope. -/
theorem Deep.of_after_eq {env : Env} {steps : List Step} (h : ∀ step ∈ steps, env.after step = env) :
    Deep env steps := by
  intro done hdone
  have hsame := foldl_after_eq fun step hstep => h step (hdone.subset hstep)
  exact Nat.le_of_eq (congrArg List.length hsame.symm)

/-- Carrying out steps in an environment does what the nodes ask for, in order, and leaves another environment. -/
structure Traces (env : Env) (steps : List Step) (nodes : List (Env × LexicalNode)) (last : Env) : Prop where
  located : locatedSteps env steps = nodeSteps nodes
  after : steps.foldl Env.after env = last
  deep : Deep env steps

namespace Traces

variable {env middle last : Env} {steps more : List Step} {nodes others : List (Env × LexicalNode)}

/-- No steps do what no nodes ask for. -/
theorem nil (env : Env) : Traces env [] [] env := ⟨rfl, rfl, .of_after_eq (by simp)⟩

/-- Steps in a row do what their nodes ask for in a row. -/
theorem append (first : Traces env steps nodes middle) (second : Traces middle more others last) :
    Traces env (steps ++ more) (nodes ++ others) last where
  located := by
    rw [locatedSteps_append, first.located, first.after, second.located, nodeSteps, nodeSteps, nodeSteps,
      List.flatMap_append]
  after := by rw [List.foldl_append, first.after, second.after]
  deep := first.deep.append (first.after.symm ▸ second.deep)

/-- Entering a scope, carrying out steps in it and leaving it. -/
theorem enclosed {made : List DeclId} (h : Traces ([] :: env) steps nodes (made :: env)) :
    Traces env (.enter :: (steps ++ [.leave])) nodes env where
  located := by
    rw [locatedSteps, locatedSteps_append]
    simpa [locatedSteps, Env.located, Env.after] using h.located
  after := by
    rw [List.foldl_cons, List.foldl_append]
    change (List.foldl Env.after ([] :: env) steps).tail = env
    rw [h.after, List.tail_cons]
  deep := by
    intro done hdone
    rcases List.prefix_cons_iff.mp hdone with rfl | ⟨inside, rfl, hinside⟩
    · exact Nat.le_refl _
    · change env.length ≤ (inside.foldl Env.after ([] :: env)).length
      rcases List.prefix_concat_iff.mp hinside with rfl | hinside
      · rw [List.foldl_append, h.after]
        exact Nat.le_refl _
      · exact Nat.le_trans (Nat.le_succ _) (h.deep inside hinside)

/-- Steps that leave the environment alone, all asked for by one node. -/
theorem ofNode (node : LexicalNode)
    (hsteps : ∀ step ∈ node.steps, env.located step = [(env, step)] ∧ env.after step = env) :
    Traces env node.steps [(env, node)] env := by
  have hlocated : ∀ steps : List Step, (∀ step ∈ steps, env.located step = [(env, step)] ∧ env.after step = env) →
      locatedSteps env steps = steps.map fun step => (env, step) := by
    intro steps
    induction steps with
    | nil => exact fun _ => rfl
    | cons step rest ih =>
      intro h
      obtain ⟨hfirst, hafter⟩ := h step (List.mem_cons_self)
      rw [locatedSteps, hfirst, hafter, ih fun s hs => h s (List.mem_cons_of_mem _ hs), List.map_cons,
        List.singleton_append]
  have hafter := fun step hstep => (hsteps step hstep).2
  exact ⟨by simpa [nodeSteps] using hlocated node.steps hsteps, foldl_after_eq hafter, .of_after_eq hafter⟩

/-- Linking a name is what the name asks for. -/
theorem link (env : Env) (name : Ident) (reach : Reach) (link : Option DeclId) :
    Traces env [.link name reach] [(env, .named name reach link)] env :=
  ofNode (.named name reach link) fun _ hstep => List.mem_singleton.mp hstep ▸ ⟨rfl, rfl⟩

/-- Refusing a construct is what the construct asks for. -/
theorem refuse (env : Env) (construct : Construct) (span : Span) :
    Traces env [.reject (.unsupported construct span)] [(env, .refused construct span)] env :=
  ofNode (.refused construct span) fun _ hstep => List.mem_singleton.mp hstep ▸ ⟨rfl, rfl⟩

/-- Declaring is what a declaration statement asks for, in the environment behind it. -/
theorem declare (env : Env) (id : DeclId) (span : Span) :
    Traces env [.declare id] [(env.declare [id], .declaration id span)] (env.declare [id]) := by
  refine ⟨rfl, rfl, fun done hdone => ?_⟩
  rcases List.prefix_cons_iff.mp hdone with rfl | ⟨rest, rfl, hrest⟩
  · exact Nat.le_refl _
  · rw [List.prefix_nil.mp hrest]
    exact Nat.le_of_eq (env.length_declare [id]).symm

/-- The checks of a function literal do not change the environment. -/
theorem checks (env : Env) (signature : Signature TypeExpr) (body : Scope) :
    Traces env (signature.checks body) [(env, .function signature body)] env := by
  refine ofNode (.function signature body) fun step hstep => ?_
  rcases List.mem_append.mp hstep with hstep | hstep
  · split at hstep
    · obtain rfl := List.mem_singleton.mp hstep
      exact ⟨rfl, rfl⟩
    · simp at hstep
  · obtain ⟨_, -, rfl⟩ := List.mem_map.mp hstep
    exact ⟨rfl, rfl⟩

end Traces

namespace TypeExpr

mutual

/-- The steps of a type link its named types. -/
theorem traces (env : Env) :
    ∀ (type : TypeExpr) (reach : Reach), Traces env (type.steps reach) (type.nodes env reach) env
  | primitive _ _, _ => .nil env
  | pointer base _, _ => base.traces env .indirect
  | nullable base _, _ => base.traces env .indirect
  | array element _, reach => element.traces env reach
  | named name link, reach => .link env name reach link
  | function ⟨params, result, _⟩, _ => (slotTraces env params .indirect).append (result.traces env .indirect)

/-- The steps of slots link their named types. -/
theorem slotTraces (env : Env) :
    ∀ (slots : List (Slot TypeExpr)) (reach : Reach), Traces env (slotSteps slots reach) (slotNodes env slots reach) env
  | [], _ => .nil env
  | ⟨_, type, _⟩ :: rest, reach => (type.traces env reach).append (slotTraces env rest reach)

end

end TypeExpr

/-- The steps of a signature do what its nodes ask for and leave the environment as it is. -/
theorem Signature.traces (env : Env) (signature : Signature TypeExpr) :
    Traces env signature.steps (signature.nodes env) env :=
  (TypeExpr.slotTraces env signature.params .indirect).append (signature.result.traces env .indirect)

mutual

/-- The steps of an expression leave the environment as it was. -/
theorem Expr.traces (env : Env) : ∀ e : Expr, Traces env e.steps (e.nodes env) env
  | .paren inner _ => inner.traces env
  | .unary _ operand _ => operand.traces env
  | .binary left _ right _ => (left.traces env).append (right.traces env)
  | .cast operand type _ => (type.traces env .byValue).append (operand.traces env)
  | .field object _ _ => object.traces env
  | .index object position _ => (object.traces env).append (position.traces env)
  | .function signature body _ => by
    have hbody := (body.traces ([] :: env)).enclosed
    have hall := ((signature.traces env).append (.checks env signature body)).append hbody
    simpa only [Expr.steps, Expr.nodes, List.append_assoc, List.cons_append, List.nil_append] using hall
  | .call callee arguments _ => (callee.traces env).append (Expr.listTraces env arguments)
  | .ident _ => .nil env
  | .literal _ _ => .nil env
  | .bool _ _ => .nil env
  | .array none element elements _ => (element.traces env .byValue).append (Expr.listTraces env elements)
  | .array (some count) element elements _ =>
    ((element.traces env .byValue).append (count.traces env)).append (Expr.listTraces env elements)

/-- The steps of expressions leave the environment as it was. -/
theorem Expr.listTraces (env : Env) : ∀ es : List Expr, Traces env (Expr.listSteps es) (Expr.listNodes env es) env
  | [] => .nil env
  | e :: rest => (e.traces env).append (Expr.listTraces env rest)

/-- The steps of a statement leave what it declares in the environment. -/
theorem Stmt.traces (env : Env) : ∀ s : Stmt, Traces env s.steps (s.nodes env) (env.declare s.declares)
  | .declaration id span => .declare env id span
  | .increment target _ => env.declare_nil.symm ▸ target.traces env
  | .decrement target _ => env.declare_nil.symm ▸ target.traces env
  | .assign _ target value _ => env.declare_nil.symm ▸ (target.traces env).append (value.traces env)
  | .expr value => env.declare_nil.symm ▸ value.traces env
  | .label _ => env.declare_nil.symm ▸ .nil env
  | .goto _ => env.declare_nil.symm ▸ .nil env
  | .returning none _ => env.declare_nil.symm ▸ .nil env
  | .returning (some value) _ => env.declare_nil.symm ▸ value.traces env

/-- The steps of a scope leave what it declares in the environment. -/
theorem Scope.traces (env : Env) : ∀ s : Scope, Traces env s.steps (s.nodes env) (env.declare s.declares)
  | .statement stmt => stmt.traces env
  | .block scopes _ => env.declare_nil.symm ▸ (Scope.listTraces ([] :: env) scopes).enclosed
  | .conditional condition consequent none _ => (condition.traces env).append (consequent.traces env)
  | .conditional condition consequent (some alternative) _ => by
    rw [Scope.declares, Env.declare_append]
    exact ((condition.traces env).append (consequent.traces env)).append (alternative.traces _)
  | .forLoop init condition step body _ => by
    have hinit : Traces ([] :: env) init.steps (init.nodes ([] :: env)) (init.declares :: env) :=
      init.traces ([] :: env)
    have hstep : Traces (init.declares :: env) step.steps (step.nodes (init.declares :: env))
        ((init.declares ++ step.declares) :: env) := step.traces (init.declares :: env)
    have hall := ((((hinit.append (condition.traces _)).append hstep).append (body.traces _))).enclosed
    rw [Scope.declares, Env.declare_nil]
    simpa only [Scope.steps, Scope.nodes, List.append_assoc, List.cons_append, List.nil_append] using hall
  | .whileLoop condition body _ => (condition.traces env).append (body.traces env)
  | .forEach _ _ _ span => env.declare_nil.symm ▸ .refuse env .forEach span
  | .matching _ _ span => env.declare_nil.symm ▸ .refuse env .matching span

/-- The steps of scopes leave what they declare in the environment. -/
theorem Scope.listTraces (env : Env) : ∀ ss : List Scope,
    Traces env (Scope.listSteps ss) (Scope.listNodes env ss) (env.declare (ss.flatMap Scope.declares))
  | [] => env.declare_nil.symm ▸ .nil env
  | s :: rest => by
    rw [List.flatMap_cons, Env.declare_append]
    exact (s.traces env).append (Scope.listTraces _ rest)

end

/-- Only an enumeration or a sum has no plan. -/
theorem Declaration.plan?_eq_none_iff {d : Declaration} :
    d.plan? = none ↔ (∃ members, d.kind = .enumeration members) ∨ ∃ members, d.kind = .sum members := by
  rw [plan?]
  cases d.kind with
  | constant type value => cases type <;> simp
  | mutable type value => simp
  | enumeration members => simp
  | record kind members => simp
  | sum members => simp

/-- The plan of a declaration carries out its nodes; the plan of a record also checks the names of the members. -/
theorem Declaration.plan?_traces (env : Env) {d : Declaration} {plan : List Step} (h : d.plan? = some plan) :
    ∃ steps checks, plan = steps ++ checks ∧ Traces env steps (d.kind.nodes env) env ∧
      (checks = [] ∨ ∃ kind members, d.kind = .record kind members ∧ checks = memberChecks d.name.name members) := by
  rw [plan?] at h
  split at h
  · next value hkind =>
    obtain rfl := Option.some_inj.mp h
    exact ⟨_, [], (List.append_nil _).symm, by rw [hkind]; exact value.traces env, .inl rfl⟩
  · next type value hkind =>
    obtain rfl := Option.some_inj.mp h
    refine ⟨_, [], (List.append_nil _).symm, ?_, .inl rfl⟩
    rw [hkind]
    exact (type.traces env .byValue).append (value.traces env)
  · next type value hkind =>
    obtain rfl := Option.some_inj.mp h
    refine ⟨_, [], (List.append_nil _).symm, ?_, .inl rfl⟩
    rw [hkind]
    cases value with
    | none => simpa only [Expr.optionSteps, List.append_nil, DeclKind.nodes] using type.traces env .byValue
    | some value => exact (type.traces env .byValue).append (value.traces env)
  · next kind members hkind =>
    obtain rfl := Option.some_inj.mp h
    refine ⟨_, _, rfl, ?_, .inr ⟨kind, members, hkind, rfl⟩⟩
    rw [hkind]
    exact TypeExpr.slotTraces env members .byValue
  · simp at h
  · simp at h

/-- The plan of a declaration leaves only scopes that it has entered. -/
theorem Declaration.tail_ne_nil_of_leave {env : Env} (henv : env ≠ []) {d : Declaration} {done rest : List Step}
    (hplan : d.plan? = some (done ++ .leave :: rest)) : (done.foldl Env.after env).tail ≠ [] := by
  obtain ⟨steps, checks, hsteps, htraces, hchecks⟩ := plan?_traces env hplan
  have hdeep : Deep env (steps ++ checks) := by
    refine htraces.deep.append (.of_after_eq fun step hstep => ?_)
    rcases hchecks with rfl | ⟨kind, members, -, rfl⟩
    · simp at hstep
    · rw [memberChecks] at hstep
      split at hstep
      · rw [List.mem_singleton.mp hstep]
        rfl
      · simp at hstep
  have hlength := hdeep (done ++ [.leave]) (hsteps ▸ ⟨rest, by simp⟩)
  rw [List.foldl_append] at hlength
  intro hnil
  rw [List.foldl_cons, List.foldl_nil, Env.after, hnil] at hlength
  exact henv (List.length_eq_zero_iff.mp (Nat.le_zero.mp hlength))

/-- A step that does something and that a plan comes to is asked for by a node, or refuses a repeated member. -/
theorem Declaration.node_of_step (env : Env) {inner : Env} {d : Declaration} {done rest : List Step} {step : Step}
    (hplan : d.plan? = some (done ++ step :: rest))
    (hlocated : (done.foldl Env.after env).located step = [(inner, step)]) :
    (∃ node, (inner, node) ∈ d.kind.nodes env ∧ step ∈ node.steps) ∨
      ∃ kind members slot, d.kind = .record kind members ∧ Slot.firstRepeat? [] members = some slot ∧
        step = .reject (.duplicateMember d.name.name slot.name.name slot.span) := by
  obtain ⟨steps, checks, hsteps, htraces, hchecks⟩ := plan?_traces env hplan
  have hmem : (inner, step) ∈ locatedSteps env (steps ++ checks) := by
    rw [← hsteps, locatedSteps_append, locatedSteps, hlocated]
    simp
  rw [locatedSteps_append, htraces.located, htraces.after] at hmem
  rcases List.mem_append.mp hmem with hmem | hmem
  · obtain ⟨⟨place, node⟩, hnode, hstep⟩ := List.mem_flatMap.mp hmem
    obtain ⟨found, hfound, heq⟩ := List.mem_map.mp hstep
    obtain ⟨rfl, rfl⟩ := Prod.mk.inj heq
    exact .inl ⟨node, hnode, hfound⟩
  · rcases hchecks with rfl | ⟨kind, members, hkind, rfl⟩
    · simp [locatedSteps] at hmem
    · rw [memberChecks] at hmem
      split at hmem
      · next slot hslot =>
        have hpair : inner = env ∧ step = .reject (.duplicateMember d.name.name slot.name.name slot.span) := by
          simpa [locatedSteps, Env.located, Env.after] using hmem
        exact .inr ⟨kind, members, slot, hkind, hslot, hpair.2⟩
      · simp [locatedSteps] at hmem

/-- A step that does something is carried out at some point, and is located in the environment that it leaves. -/
theorem exists_split_of_located {inner : Env} {step : Step} {steps : List Step} {env : Env}
    (h : (inner, step) ∈ locatedSteps env steps) :
    ∃ done rest, steps = done ++ step :: rest ∧ inner = (done.foldl Env.after env).after step := by
  induction steps generalizing env with
  | nil => simp [locatedSteps] at h
  | cons first rest ih =>
    rcases List.mem_append.mp h with h | h
    · refine ⟨[], rest, ?_⟩
      cases first <;> simp_all [Env.located]
    · obtain ⟨done, more, rfl, hinner⟩ := ih h
      exact ⟨first :: done, more, rfl, hinner⟩

/-- The plan of a declaration comes to the steps that a node asks for, in the environment of the node. -/
theorem Declaration.exists_split_of_node {env inner : Env} {d : Declaration} {plan : List Step}
    (hplan : d.plan? = some plan) {node : LexicalNode} (hnode : (inner, node) ∈ d.kind.nodes env) {step : Step}
    (hstep : step ∈ node.steps) :
    ∃ done rest, plan = done ++ step :: rest ∧ inner = (done.foldl Env.after env).after step := by
  obtain ⟨steps, checks, rfl, htraces, -⟩ := plan?_traces env hplan
  have hlocated : (inner, step) ∈ locatedSteps env steps := by
    rw [htraces.located]
    exact List.mem_flatMap.mpr ⟨_, hnode, List.mem_map.mpr ⟨step, hstep, rfl⟩⟩
  obtain ⟨done, rest, rfl, hinner⟩ := exists_split_of_located hlocated
  exact ⟨done, rest ++ checks, by simp, hinner⟩

/-- A step that a node asks for is in the plan of its declaration. -/
theorem Declaration.mem_plan_of_node {env inner : Env} {d : Declaration} {plan : List Step}
    (hplan : d.plan? = some plan) {node : LexicalNode} (hnode : (inner, node) ∈ d.kind.nodes env) {step : Step}
    (hstep : step ∈ node.steps) : step ∈ plan := by
  obtain ⟨done, rest, rfl, -⟩ := exists_split_of_node hplan hnode hstep
  simp

/-- The checks of a function literal refuse a repeated parameter and avoid the names of the parameters. -/
theorem Signature.eq_of_mem_checks {signature : Signature TypeExpr} {body : Scope} {step : Step}
    (h : step ∈ signature.checks body) :
    (∃ slot, Slot.firstRepeat? [] signature.params = some slot ∧
      step = .reject (.duplicateDeclaration slot.name.name slot.span)) ∨
    ∃ id span, (id, span) ∈ body.outermost.filterMap Scope.declared? ∧
      step = .avoid (signature.params.map (·.name.name)) id span := by
  rcases List.mem_append.mp h with h | h
  · split at h
    · next slot hslot => exact .inl ⟨slot, hslot, List.mem_singleton.mp h⟩
    · simp at h
  · obtain ⟨⟨id, span⟩, hmem, rfl⟩ := List.mem_map.mp h
    exact .inr ⟨id, span, hmem, rfl⟩

section Steps

variable (env : Env) {d : Declaration} {done rest : List Step}

/-- A plan links named types. -/
theorem Declaration.node_of_link {name : Ident} {reach : Reach}
    (hplan : d.plan? = some (done ++ .link name reach :: rest)) :
    ∃ link, (done.foldl Env.after env, .named name reach link) ∈ d.kind.nodes env := by
  rcases node_of_step env hplan rfl with ⟨node, hnode, hstep⟩ | ⟨kind, members, slot, -, -, heq⟩
  · cases node with
    | named other r link =>
      obtain ⟨rfl, rfl⟩ : name = other ∧ reach = r := by simpa [LexicalNode.steps] using hstep
      exact ⟨link, hnode⟩
    | declaration id span => simp [LexicalNode.steps] at hstep
    | function signature body => rcases Signature.eq_of_mem_checks hstep with ⟨_, -, h⟩ | ⟨_, _, -, h⟩ <;> simp at h
    | refused construct span => simp [LexicalNode.steps] at hstep
  · simp at heq

/-- A plan declares what declaration statements name. -/
theorem Declaration.node_of_declare {id : DeclId} (hplan : d.plan? = some (done ++ .declare id :: rest)) :
    ∃ span, ((done.foldl Env.after env).declare [id], .declaration id span) ∈ d.kind.nodes env := by
  rcases node_of_step env hplan rfl with ⟨node, hnode, hstep⟩ | ⟨kind, members, slot, -, -, heq⟩
  · cases node with
    | named name reach link => simp [LexicalNode.steps] at hstep
    | declaration other span =>
      obtain rfl : id = other := by simpa [LexicalNode.steps] using hstep
      exact ⟨span, hnode⟩
    | function signature body => rcases Signature.eq_of_mem_checks hstep with ⟨_, -, h⟩ | ⟨_, _, -, h⟩ <;> simp at h
    | refused construct span => simp [LexicalNode.steps] at hstep
  · simp at heq

/-- A plan keeps what a function declares in its outermost scope apart from its parameters. -/
theorem Declaration.node_of_avoid {names : List String} {id : DeclId} {span : Span}
    (hplan : d.plan? = some (done ++ .avoid names id span :: rest)) :
    ∃ signature body, (done.foldl Env.after env, .function signature body) ∈ d.kind.nodes env ∧
      names = signature.params.map (·.name.name) ∧ (id, span) ∈ body.outermost.filterMap Scope.declared? := by
  rcases node_of_step env hplan rfl with ⟨node, hnode, hstep⟩ | ⟨kind, members, slot, -, -, heq⟩
  · cases node with
    | named name reach link => simp [LexicalNode.steps] at hstep
    | declaration id span => simp [LexicalNode.steps] at hstep
    | function signature body =>
      rcases Signature.eq_of_mem_checks hstep with ⟨_, -, h⟩ | ⟨_, _, hmem, h⟩
      · simp at h
      · obtain ⟨rfl, rfl, rfl⟩ := Step.avoid.inj h
        exact ⟨signature, body, hnode, rfl, hmem⟩
    | refused construct span => simp [LexicalNode.steps] at hstep
  · simp at heq

/-- A plan refuses repeated parameters, repeated members, and constructs that are refused as a whole. -/
theorem Declaration.node_of_reject {error : Error} (hplan : d.plan? = some (done ++ .reject error :: rest)) :
    (∃ construct span, error = .unsupported construct span ∧
      (done.foldl Env.after env, .refused construct span) ∈ d.kind.nodes env) ∨
    (∃ signature body slot, (done.foldl Env.after env, .function signature body) ∈ d.kind.nodes env ∧
      Slot.firstRepeat? [] signature.params = some slot ∧
      error = .duplicateDeclaration slot.name.name slot.span) ∨
    ∃ kind members slot, d.kind = .record kind members ∧ Slot.firstRepeat? [] members = some slot ∧
      error = .duplicateMember d.name.name slot.name.name slot.span := by
  rcases node_of_step env hplan rfl with ⟨node, hnode, hstep⟩ | ⟨kind, members, slot, hkind, hslot, heq⟩
  · cases node with
    | named name reach link => simp [LexicalNode.steps] at hstep
    | declaration id span => simp [LexicalNode.steps] at hstep
    | function signature body =>
      rcases Signature.eq_of_mem_checks hstep with ⟨slot, hslot, h⟩ | ⟨_, _, -, h⟩
      · exact .inr (.inl ⟨signature, body, slot, hnode, hslot, Step.reject.inj h⟩)
      · simp at h
    | refused construct span => exact .inl ⟨construct, span, by simpa [LexicalNode.steps] using hstep, hnode⟩
  · exact .inr (.inr ⟨kind, members, slot, hkind, hslot, Step.reject.inj heq⟩)

end Steps

end DeclTree

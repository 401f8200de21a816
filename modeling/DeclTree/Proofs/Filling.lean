import DeclTree.Proofs.Links
import DeclTree.Proofs.Nodes
import DeclTree.Proofs.Steps
import Mathlib.Data.List.Forall2

/-!
# Filling links in order

A plan links the names of a declaration in the order in which its links are numbered, so that the link with a number is
filled with what the name with that number stands for. `Filling` says how far this has come: the links of the owner
begin with targets that fit the names linked so far.
-/

namespace DeclTree

variable {hash : String → Nat}

/-- A name that is to be linked: the environment in which it stands and how its type is reached. -/
structure Site where
  env : Env
  name : Ident
  reach : Reach

/-- The names of nodes, each where it stands. -/
def nodeSites (nodes : List (Env × LexicalNode)) : List Site :=
  nodes.filterMap fun
    | (env, .named name reach _) => some ⟨env, name, reach⟩
    | _ => none

/-- The names that a plan links, each with the environment that is in force then. -/
def linkSites (env : Env) (plan : List Step) : List Site :=
  (locatedSteps env plan).filterMap fun
    | (env, .link name reach) => some ⟨env, name, reach⟩
    | _ => none

/-- What is read off the steps of nodes can be read off the nodes. -/
theorem filterMap_nodeSteps {α : Type} {read : Env × Step → Option α} {readNode : Env × LexicalNode → Option α}
    (h : ∀ env node, (node.steps.map fun step => (env, step)).filterMap read = (readNode (env, node)).toList)
    (nodes : List (Env × LexicalNode)) : (nodeSteps nodes).filterMap read = nodes.filterMap readNode := by
  induction nodes with
  | nil => rfl
  | cons node rest ih =>
    rw [nodeSteps, List.flatMap_cons, List.filterMap_append, h node.1 node.2, ← nodeSteps, ih]
    cases hread : readNode node with
    | none => rw [List.filterMap_cons_none hread, Option.toList_none, List.nil_append]
    | some a => rw [List.filterMap_cons_some hread, Option.toList_some, List.singleton_append]

/-- The checks of a function literal neither link nor declare. -/
theorem Signature.filterMap_checks {α : Type} (env : Env) (signature : Signature TypeExpr) (body : Scope)
    {read : Env × Step → Option α} (hreject : ∀ error, read (env, .reject error) = none)
    (havoid : ∀ names id span, read (env, .avoid names id span) = none) :
    ((signature.checks body).map fun step => (env, step)).filterMap read = [] := by
  rw [List.filterMap_eq_nil_iff]
  intro entry hentry
  obtain ⟨step, hstep, rfl⟩ := List.mem_map.mp hentry
  rcases eq_of_mem_checks hstep with ⟨slot, -, rfl⟩ | ⟨id, span, -, rfl⟩
  · exact hreject _
  · exact havoid _ _ _

namespace Declaration

variable {d : Declaration} {plan : List Step}

/-- What is read off a plan, except checks, can be read off the nodes. -/
theorem filterMap_locatedSteps {α : Type} (env : Env) (hplan : d.plan? = some plan) {read : Env × Step → Option α}
    {readNode : Env × LexicalNode → Option α} (hreject : ∀ env error, read (env, .reject error) = none)
    (h : ∀ env node, (node.steps.map fun step => (env, step)).filterMap read = (readNode (env, node)).toList) :
    (locatedSteps env plan).filterMap read = (d.kind.nodes env).filterMap readNode := by
  obtain ⟨steps, checks, rfl, htraces, hchecks⟩ := plan?_traces env hplan
  have hnone : (locatedSteps env checks).filterMap read = [] := by
    rcases hchecks with rfl | ⟨kind, members, -, rfl⟩
    · rfl
    · rw [memberChecks]
      split
      · simp [locatedSteps, Env.located, Env.after, hreject]
      · rfl
  rw [locatedSteps_append, List.filterMap_append, htraces.located, htraces.after, hnone, List.append_nil,
    filterMap_nodeSteps h]

/-- A plan links the names of the nodes in order. -/
theorem linkSites_plan (env : Env) (hplan : d.plan? = some plan) :
    linkSites env plan = nodeSites (d.kind.nodes env) := by
  refine filterMap_locatedSteps env hplan (fun _ _ => rfl) fun env node => ?_
  cases node with
  | named name reach link => rfl
  | declaration id span => rfl
  | function signature body => exact Signature.filterMap_checks env signature body (fun _ => rfl) fun _ _ _ => rfl
  | refused construct span => rfl

end Declaration

/-- There are as many names in nodes as links. -/
theorem length_nodeSites (nodes : List (Env × LexicalNode)) : (nodeSites nodes).length = (nodeLinks nodes).length := by
  induction nodes with
  | nil => rfl
  | cons node rest ih =>
    obtain ⟨env, node⟩ := node
    cases node with
    | named name reach link => exact congrArg Nat.succ ih
    | _ => exact ih

/-- A plan links as many names as its declaration has links. -/
theorem Declaration.length_linkSites (env : Env) {d : Declaration} {plan : List Step} (hplan : d.plan? = some plan) :
    (linkSites env plan).length = d.links.length := by
  rw [linkSites_plan env hplan, length_nodeSites, DeclKind.nodeLinks_nodes, Declaration.links]

/-- A name among nodes has a number, which is that of its link. -/
theorem exists_getElem?_of_named {nodes : List (Env × LexicalNode)} {env : Env} {name : Ident} {reach : Reach}
    {link : Option DeclId} (hmem : (env, .named name reach link) ∈ nodes) :
    ∃ k : Nat, (nodeSites nodes)[k]? = some ⟨env, name, reach⟩ ∧ (nodeLinks nodes)[k]? = some link := by
  induction nodes with
  | nil => simp at hmem
  | cons node rest ih =>
    obtain ⟨place, node⟩ := node
    cases node with
    | named label r l =>
      rcases List.mem_cons.mp hmem with heq | hmem
      · obtain ⟨rfl, hnode⟩ := Prod.mk.inj heq
        obtain ⟨rfl, rfl, rfl⟩ := LexicalNode.named.inj hnode
        exact ⟨0, rfl, rfl⟩
      · obtain ⟨k, hsite, hlink⟩ := ih hmem
        exact ⟨k + 1, hsite, hlink⟩
    | declaration id span => exact ih (by simpa using hmem)
    | function signature body => exact ih (by simpa using hmem)
    | refused construct span => exact ih (by simpa using hmem)

/-- Targets that fit the names of nodes one by one fit each of the nodes. -/
theorem of_mem_nodes {R : Site → DeclId → Prop} {nodes : List (Env × LexicalNode)} {targets : List DeclId}
    (hfit : List.Forall₂ R (nodeSites nodes) targets) (hlinks : nodeLinks nodes = targets.map some) {env : Env}
    {name : Ident} {reach : Reach} {link : Option DeclId} (hmem : (env, .named name reach link) ∈ nodes) :
    ∃ target, link = some target ∧ R ⟨env, name, reach⟩ target := by
  obtain ⟨k, hsite, hlink⟩ := exists_getElem?_of_named hmem
  rw [hlinks, List.getElem?_map, Option.map_eq_some_iff] at hlink
  obtain ⟨target, htarget, rfl⟩ := hlink
  obtain ⟨hk, hget⟩ := List.getElem?_eq_some_iff.mp hsite
  obtain ⟨hk', rfl⟩ := List.getElem?_eq_some_iff.mp htarget
  have hfits := (List.forall₂_iff_get.mp hfit).2 k hk hk'
  rw [List.get_eq_getElem, hget] at hfits
  exact ⟨_, rfl, hfits⟩

/-- Links that are read off the names of nodes are read off their sites. -/
theorem nodeLinks_eq_map {nodes : List (Env × LexicalNode)} {answer : Env → String → Option DeclId}
    (h : ∀ env name reach link, (env, .named name reach link) ∈ nodes → link = answer env name.name) :
    nodeLinks nodes = (nodeSites nodes).map fun site => answer site.env site.name.name := by
  induction nodes with
  | nil => rfl
  | cons node rest ih =>
    obtain ⟨env, node⟩ := node
    have hrest := ih fun env name reach link hmem => h env name reach link (List.mem_cons_of_mem _ hmem)
    cases node with
    | named name reach link => exact congrArg₂ List.cons (h env name reach link List.mem_cons_self) hrest
    | _ => exact hrest

/-- The names of a plan stand where the steps before them have led. -/
theorem linkSites_append (env : Env) (steps more : List Step) :
    linkSites env (steps ++ more) = linkSites env steps ++ linkSites (steps.foldl Env.after env) more := by
  rw [linkSites, locatedSteps_append, List.filterMap_append]
  rfl

/-- The first links of the owner of a plan are filled with targets that fit the given names, one by one. -/
def Filling (R : Site → DeclId → Prop) (owner : DeclId) (sites : List Site) (frame : Frame hash) : Prop :=
  ∃ d targets rest, frame.progress.file.decl? owner = some d ∧ d.links = targets.map some ++ rest ∧
    frame.filled = targets.length ∧ List.Forall₂ R sites targets

namespace Filling

variable {R : Site → DeclId → Prop} {owner : DeclId} {sites : List Site} {frame : Frame hash}

/-- Nothing is filled at the start. -/
theorem start (scopes : Scopes hash) {p : Progress} {d : Declaration} (hdecl : p.file.decl? owner = some d) :
    Filling R owner [] ⟨scopes, 0, p.start owner d⟩ :=
  ⟨_, [], _, SourceFile.decl?_update_self hdecl _, rfl, rfl, .nil⟩

/-- As many links have been filled as names have been passed. -/
theorem filled_eq (h : Filling R owner sites frame) : frame.filled = sites.length := by
  obtain ⟨-, targets, -, -, -, hfilled, hfit⟩ := h
  rw [hfilled, hfit.length_eq]

/-- Visits of other declarations leave the links of the owner alone. -/
theorem visit (h : Filling R owner sites frame) (scopes : Scopes hash) {p : Progress}
    (hopen : frame.progress.file.mark? owner = some .opened) (hadvances : Advances none frame.progress.file p.file) :
    Filling R owner sites { frame with scopes := scopes, progress := p } := by
  obtain ⟨d, targets, rest, hdecl, hlinks, hfilled, hfit⟩ := h
  obtain ⟨e, he, hmark⟩ := SourceFile.mark?_eq_some.mp hopen
  obtain rfl := Option.some_inj.mp (he.symm.trans hdecl)
  exact ⟨e, targets, rest, hadvances.kept (by simp) he (by simp [hmark]), hlinks, hfilled, hfit⟩

/-- The next link is filled with a target that fits the next name. -/
theorem fill (h : Filling R owner sites frame) {p : Progress} {target : DeclId} {site : Site}
    (hopen : frame.progress.file.mark? owner = some .opened) (hadvances : Advances none frame.progress.file p.file)
    (hroom : ∀ d, frame.progress.file.decl? owner = some d → sites.length < d.links.length) (hfits : R site target) :
    Filling R owner (sites ++ [site]) (frame.fill owner target p) := by
  obtain ⟨d, targets, rest, hdecl, hlinks, hfilled, hfit⟩ := h.visit frame.scopes hopen hadvances
  obtain ⟨e, he, hmark⟩ := SourceFile.mark?_eq_some.mp hopen
  obtain rfl := Option.some_inj.mp ((hadvances.kept (by simp) he (by simp [hmark])).symm.trans hdecl)
  have hlength := hroom e he
  rw [hfit.length_eq, hlinks, List.length_append, List.length_map] at hlength
  cases rest with
  | nil => simp at hlength
  | cons link rest =>
    refine ⟨_, targets ++ [target], rest, SourceFile.decl?_update_self hdecl _, ?_, ?_, ?_⟩
    · change (e.kind.setLink target frame.filled).links = _
      rw [DeclKind.links_setLink]
      change e.links.set frame.filled (some target) = _
      rw [hlinks, show frame.filled = targets.length from hfilled, List.map_append, List.append_assoc]
      simp
    · simpa [Frame.fill] using hfilled
    · exact List.rel_append hfit (.cons hfits .nil)

/-- When all names are linked, all links are filled. -/
theorem finish (h : Filling R owner sites frame) {d : Declaration} (hdecl : frame.progress.file.decl? owner = some d)
    (hlength : sites.length = d.links.length) :
    ∃ targets, d.links = targets.map some ∧ List.Forall₂ R sites targets := by
  obtain ⟨e, targets, rest, he, hlinks, -, hfit⟩ := h
  obtain rfl := Option.some_inj.mp (he.symm.trans hdecl)
  rw [hfit.length_eq, hlinks, List.length_append, List.length_map] at hlength
  have hrest : rest = [] := List.length_eq_zero_iff.mp (by omega)
  rw [hrest, List.append_nil] at hlinks
  exact ⟨targets, hlinks, hfit⟩

/-- When all names are linked and each target is as stated, each link leads to such a target. -/
theorem forall_links {P : DeclId → Prop} (h : Filling (fun _ => P) owner sites frame) {d : Declaration}
    (hdecl : frame.progress.file.decl? owner = some d) (hlength : sites.length = d.links.length) :
    ∀ link ∈ d.links, ∃ target, link = some target ∧ P target := by
  obtain ⟨targets, hlinks, hfit⟩ := h.finish hdecl hlength
  have htargets : ∀ target ∈ targets, P target := by
    clear hlinks hlength h
    induction hfit with
    | nil => simp
    | cons hfirst _ ih => exact List.forall_mem_cons.mpr ⟨hfirst, ih⟩
  intro link hlink
  obtain ⟨target, htarget, rfl⟩ := List.mem_map.mp (hlinks ▸ hlink)
  exact ⟨target, rfl, htargets target htarget⟩

end Filling

/-- A step of a plan keeps `Filling`: a step that links a name fills the next link with what the name stands for, if
that fits, and no other step links a name or changes a link of the owner. -/
theorem runStep_filling {visit : Visit hash} (hvisit : visit.Lawful) {R : Site → DeclId → Prop} {owner : DeclId}
    {frame : Frame hash} {d : Declaration} {done rest : List Step} {step : Step} (env : Env)
    (hopen : frame.progress.file.mark? owner = some .opened) (hdecl : frame.progress.file.decl? owner = some d)
    (hplan : d.plan? = some (done ++ step :: rest))
    (hfits : ∀ name reach target e, step = .link name reach → frame.scopes.lookup name.name = some target →
      frame.progress.file.decl? target = some e → e.isVariable = false →
      R ⟨done.foldl Env.after env, name, reach⟩ target)
    (h : Filling R owner (linkSites env done) frame) :
    (runStep visit owner step frame).Meets (Filling R owner (linkSites env (done ++ [step]))) fun _ _ => True := by
  have hroom (name : Ident) (reach : Reach) (hstep : step = .link name reach) (e : Declaration)
      (he : frame.progress.file.decl? owner = some e) : (linkSites env done).length < e.links.length := by
    obtain rfl := Option.some_inj.mp (he.symm.trans hdecl)
    rw [← Declaration.length_linkSites env hplan, hstep, linkSites_append, List.length_append]
    exact Nat.lt_add_of_pos_right (Nat.succ_pos _)
  have hother (hnone : linkSites (done.foldl Env.after env) [step] = []) :
      linkSites env (done ++ [step]) = linkSites env done := by
    rw [linkSites_append, hnone, List.append_nil]
  have hends := runStep_ends visit owner step frame
  generalize runStep visit owner step frame = outcome at hends ⊢
  cases hends with
  | @stored name target e p hfind he hvariable hrun =>
    have hadvances := hvisit.advances hrun
    rw [linkSites_append]
    exact h.fill hopen hadvances (hroom name .byValue rfl) (hfits name _ target e rfl hfind he hvariable)
  | @referred name target e hfind he hvariable =>
    rw [linkSites_append]
    exact h.fill hopen (.refl _ _) (hroom name .indirect rfl) (hfits name _ target e rfl hfind he hvariable)
  | entered =>
    rw [hother rfl]
    exact h.visit _ hopen (.refl _ _)
  | left =>
    rw [hother rfl]
    exact h.visit _ hopen (.refl _ _)
  | @declared _ _ _ _ result _ _ _ hrun =>
    have hadvances := hvisit.advances hrun
    rw [hother rfl]
    cases result with
    | none => exact h.visit _ hopen hadvances
    | some error => trivial
  | avoided _ _ =>
    rw [hother rfl]
    exact h
  | _ => trivial

end DeclTree

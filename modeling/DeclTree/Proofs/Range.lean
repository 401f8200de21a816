import DeclTree.Proofs.Calls
import DeclTree.Proofs.Obstacles
import DeclTree.Proofs.Parameters
import DeclTree.Proofs.RoundTrip
import DeclTree.Proofs.Sufficiency
import DeclTree.Proofs.Tracing
import DeclTree.Proofs.Unlinked
import DeclTree.Proofs.Visibility
import DeclTree.Session

/-!
# Staying inside the arena

A document of the right shape is accepted exactly if each place of its file that names a position names one inside the
arena, and otherwise the error names the position at the first place that does not. What is accepted stays in range:
each write keeps the positions and the links inside the arena, so that no operation of a session, whatever went before
and whether or not that succeeded, looks a declaration up where there is none.
-/

namespace DeclTree

variable {hash : String → Nat}

/-- The error is that of a look-up outside the arena. -/
def Error.isRange : Error → Bool
  | .outOfRange .. => true
  | _ => false

namespace SourceFile

variable {text : String} {file : SourceFile}

/-- A file that is read is accepted exactly if it is in range at each place. -/
theorem ofDocument_eq_ok_iff (hread : Document.read? Document.sourceFile text = some file) :
    ofDocument text = .ok file ↔ ∀ place id, file.nameAt? place = some id → id < file.declarations.length := by
  have hplaces : (∀ place id, file.nameAt? place = some id → id < file.declarations.length) ↔
      ∀ id ∈ file.ids, id < file.declarations.length := by
    simp only [mem_ids_iff, forall_exists_index]
    exact forall_comm
  rw [hplaces]
  refine ⟨fun haccept id hid => ?_, ofDocument_of_read? hread⟩
  rw [ofDocument, hread] at haccept
  dsimp only at haccept
  cases hfind : file.ids.find? fun id => decide (file.declarations.length ≤ id) with
  | some stray => simp [rangeError?, hfind] at haccept
  | none => simpa using List.find?_eq_none.mp hfind id hid

/-- A file that is read and not accepted is refused for the first place that is out of range. -/
theorem exists_stray (hread : Document.read? Document.sourceFile text = some file)
    (hstray : ¬∀ place id, file.nameAt? place = some id → id < file.declarations.length) :
    ∃ place id, file.nameAt? place = some id ∧ file.declarations.length ≤ id ∧
      (∀ earlier, earlier.Precedes place → ∀ other, file.nameAt? earlier = some other →
        other < file.declarations.length) ∧
      ofDocument text = .error (.outOfRange id file.declarations.length) := by
  cases hfind : file.ids.find? fun id => decide (file.declarations.length ≤ id) with
  | none =>
    refine absurd (fun place id hname => ?_) hstray
    simpa using List.find?_eq_none.mp hfind id ((file.mem_ids_iff id).mpr ⟨place, hname⟩)
  | some id =>
    obtain ⟨place, hname, hfirst⟩ := file.exists_first_place hfind
    refine ⟨place, id, hname, by simpa using List.find?_some hfind, fun earlier hearlier other hother => ?_, ?_⟩
    · simpa using hfirst earlier hearlier other hother
    · rw [ofDocument, hread]
      simp [rangeError?, hfind]

/-- An accepted file is in range. It has no links at all. -/
theorem inRange_of_ofDocument (haccept : ofDocument text = .ok file) : file.InRange := by
  refine ⟨(of_ofDocument haccept).2, fun d hd id hid => ?_⟩
  rw [← cleared_of_ofDocument haccept] at hd
  obtain ⟨e, -, rfl⟩ := List.mem_map.mp hd
  cases e.unlinked_cleared _ hid

/-- In a file in range every item is a declaration. -/
theorem InRange.map_topLevel (h : file.InRange) : file.topLevel.map (·.1) = file.items := by
  rw [topLevel, List.map_filterMap]
  refine (List.filterMap_congr fun id hid => ?_).trans List.filterMap_some
  obtain ⟨d, hdecl⟩ := exists_decl? (h.ids id (List.mem_append_left _ hid))
  simp [hdecl]

/-- The positions that a file names do not depend on marks and links. -/
theorem ids_of_cleared_eq {before after : SourceFile} (h : after.cleared = before.cleared) :
    after.ids = before.ids := by
  rw [← ids_cleared after, h, ids_cleared]

/-- A change of a declaration that adds no link outside the arena keeps a file in range. -/
theorem InRange.update (h : file.InRange) (owner : DeclId) {change : Declaration → Declaration}
    (hcleared : ∀ d, (change d).cleared = d.cleared)
    (hlinks : ∀ d id, some id ∈ (change d).links → some id ∈ d.links ∨ id < file.declarations.length) :
    (file.update owner change).InRange := by
  have hsame := file.cleared_update owner hcleared
  refine ⟨fun id hid => ?_, fun d hd id hid => ?_⟩
  · rw [ids_of_cleared_eq hsame] at hid
    exact length_of_cleared_eq hsame ▸ h.ids id hid
  · rw [length_of_cleared_eq hsame]
    obtain ⟨index, hindex⟩ := List.mem_iff_getElem?.mp hd
    have hdecl : (file.update owner change).decl? index = some d := hindex
    rw [decl?_update, Option.map_eq_some_iff] at hdecl
    obtain ⟨e, he, rfl⟩ := hdecl
    have hold := h.links e (List.mem_of_getElem? he) id
    split at hid
    · exact (hlinks e id hid).elim hold fun hnew => hnew
    · exact hold hid

/-- Every move keeps a file in range: the target of a link is a declaration. -/
theorem InRange.move {Q : String → DeclId → Prop} {first second : Ledger} {act : Act} (hmove : Move Q first act second)
    (h : first.file.InRange) : second.file.InRange := by
  cases hmove with
  | opens => exact h.update _ (fun _ => rfl) fun _ _ hid => .inl hid
  | closes => exact h.update _ (fun _ => rfl) fun _ _ hid => .inl hid
  | fails => exact h
  | @links file _ owner k target _ _ _ _ _ _ _ htarget =>
    refine h.update owner (fun d => by simp only [Declaration.cleared, DeclKind.cleared_setLink]) fun d id hid => ?_
    have hset : some id ∈ d.links.set k (some target) := d.kind.links_setLink target k ▸ hid
    rcases List.mem_or_eq_of_mem_set hset with hold | hnew
    · exact .inl hold
    · obtain rfl := Option.some.inj hnew
      exact .inr (List.getElem?_eq_some_iff.mp htarget).1

/-- Every call keeps a file in range, whatever its tables are and whether or not it succeeds. -/
theorem InRange.call {p : Progress} (h : p.file.InRange) (call : Call hash) : (call.run p).1.file.InRange := by
  obtain ⟨left, hmoves, -⟩ := Call.moves call.binds_true (p := p) fun _ _ _ => trivial
  exact hmoves.keeps (P := fun ledger => ledger.file.InRange) InRange.move h

end SourceFile

/-- Names are bound to positions of the arena only. -/
def Scopes.InRange (scopes : Scopes hash) (file : SourceFile) : Prop :=
  scopes.All (· < file.declarations.length)

/-- What a declaration of a file names lies in the arena of the file. -/
theorem SourceFile.lt_of_mem_kind_ids {file : SourceFile} (hrange : ∀ id ∈ file.ids, id < file.declarations.length)
    {owner id : DeclId} {d : Declaration} (hdecl : file.decl? owner = some d) (hid : id ∈ d.kind.ids) :
    id < file.declarations.length :=
  hrange id (List.mem_append_right _ (List.mem_flatMap.mpr ⟨d, List.mem_of_getElem? hdecl, hid⟩))

/-- What a plan refuses by itself has nothing to do with the arena. -/
theorem Declaration.isRange_of_reject {d : Declaration} {done rest : List Step} {error : Error}
    (hplan : d.plan? = some (done ++ .reject error :: rest)) : error.isRange = false := by
  rcases Declaration.node_of_reject [] hplan with ⟨_, _, rfl, -⟩ | ⟨_, _, _, -, -, rfl⟩ | ⟨_, _, _, -, -, rfl⟩ <;> rfl

/-- A step of a declaration in range looks nothing up outside the arena. -/
theorem runStep_inRange {file : SourceFile} (hrange : ∀ id ∈ file.ids, id < file.declarations.length)
    {visit : Visit hash} {owner : DeclId} {frame : Frame hash} (hcleared : frame.progress.file.cleared = file.cleared)
    (hscopes : frame.scopes.InRange file)
    (hvisit : ∀ scopes id p, p.file = frame.progress.file → scopes.InRange file → id < file.declarations.length →
      (visit scopes id p).Meets (fun _ => True) fun _ e => e.isRange = false)
    {d : Declaration} (hdecl : file.decl? owner = some d) {done rest : List Step} {step : Step}
    (hplan : d.plan? = some (done ++ step :: rest)) :
    (runStep visit owner step frame).Meets (fun next => next.scopes.InRange file) fun _ e => e.isRange = false := by
  have hlength := SourceFile.length_of_cleared_eq hcleared
  have hpresent {id : DeclId} (hid : id < file.declarations.length) : frame.progress.file.decl? id ≠ none := by
    obtain ⟨e, he⟩ := SourceFile.exists_decl? (hlength ▸ hid)
    simp [he]
  have hends := runStep_ends visit owner step frame
  generalize runStep visit owner step frame = outcome at hends ⊢
  cases hends with
  | unknown hfind => exact rfl
  | dangling hfind hnone => exact absurd hnone (hpresent (hscopes.find hfind))
  | notType => exact rfl
  | @visitFailed name target _ _ _ hfind _ _ hrun =>
    have hmeets := hvisit frame.scopes target (frame.progress.note (.linked name.name target .byValue)) rfl hscopes
      (hscopes.find hfind)
    rw [hrun] at hmeets
    exact hmeets
  | stored => exact hscopes
  | referred => exact hscopes
  | entered => exact hscopes.push
  | left => exact hscopes.pop
  | absent hnone =>
    obtain ⟨span, hnode⟩ := Declaration.node_of_declare [] hplan
    exact absurd hnone (hpresent (file.lt_of_mem_kind_ids hrange hdecl (mem_ids_of_mem_nodes hnode)))
  | nameless => exact rfl
  | repeated => exact rfl
  | @declared id e scopes p result _ _ hinsert hrun =>
    obtain ⟨span, hnode⟩ := Declaration.node_of_declare [] hplan
    have hid := file.lt_of_mem_kind_ids hrange hdecl (mem_ids_of_mem_nodes hnode)
    have hbound : scopes.InRange file := hscopes.insert hinsert hid
    have hmeets := hvisit scopes id (frame.progress.note (.declared e.name.name)) rfl hbound hid
    rw [hrun] at hmeets
    cases result with
    | none => exact hbound
    | some error => exact hmeets
  | unavoidable hnone =>
    have hid := Declaration.plan?_avoids hplan _ _ _ (List.mem_append_right _ List.mem_cons_self)
    exact absurd hnone (hpresent (file.lt_of_mem_kind_ids hrange hdecl hid))
  | collided => exact rfl
  | avoided => exact hscopes
  | rejected => exact Declaration.isRange_of_reject hplan

/-- A visit of a declaration in range looks nothing up outside the arena. -/
theorem visitStep_inRange {file : SourceFile} (hrange : ∀ id ∈ file.ids, id < file.declarations.length) :
    VisitStep
      (fun (scopes : Scopes hash) id p =>
        p.file.cleared = file.cleared ∧ scopes.InRange file ∧ id < file.declarations.length)
      (fun _ _ _ _ => True) fun _ _ _ _ e => e.isRange = false := by
  intro visit scopes id p outcome hlawful ⟨hcleared, hscopes, hid⟩ hdeeper hends
  cases hends with
  | absent hnone =>
    obtain ⟨d, hdecl⟩ := SourceFile.exists_decl? (SourceFile.length_of_cleared_eq hcleared ▸ hid)
    simp [hdecl] at hnone
  | closed => trivial
  | opened => exact rfl
  | nameless => exact rfl
  | planless => exact rfl
  | finished => trivial
  | exhausted _ _ _ _ hnone => cases hnone
  | @stopped d plan _ last error hdecl hmark hname hplan hvisit hrun =>
    obtain rfl := Option.some.inj hvisit
    obtain ⟨e, he, hsame⟩ := SourceFile.decl?_of_cleared_eq hcleared.symm hdecl
    have hmeets : (runSteps visit id plan ⟨scopes, 0, p.start id d⟩).Meets
        (fun last => Frame.Advances id ⟨scopes, 0, p.start id d⟩ last ∧ last.scopes.InRange file)
        fun _ e => e.isRange = false := by
      refine runPlan_meets hlawful (Progress.mark?_start scopes hdecl) (fun _ frame => frame.scopes.InRange file)
        hscopes fun done step rest frame hsplit hadvances _ hframe => ?_
      have hstill : frame.progress.file.cleared = file.cleared :=
        (hadvances.file_of_untouched hdecl hmark).cleared.trans hcleared
      refine runStep_inRange hrange hstill hframe (fun scopes' id' p' hfile hscopes' hid' => ?_) he
        (by rw [Declaration.plan?_of_cleared_eq hsame, hplan, hsplit])
      exact hdeeper scopes' id' p' (hfile ▸ hadvances.fresh_ssubset hdecl hmark) ⟨hfile ▸ hstill, hscopes', hid'⟩
    rw [hrun] at hmeets
    exact hmeets

/-- The tables of a call bind positions of the arena, and what it resolves lies in the arena. -/
def Call.InRange (file : SourceFile) : Call hash → Prop
  | .resolve scopes id => scopes.InRange file ∧ id < file.declarations.length
  | .resolveFile => True

/-- Binding declarations in range gives tables in range. -/
theorem declareAll_inRange (hash : String → Nat) {p : Progress} {ids : List DeclId}
    (hids : ∀ id ∈ ids, id < p.file.declarations.length) :
    (declareAll ids (.root hash) p).Meets (fun reached => reached.2.file = p.file ∧ reached.1.InRange p.file)
      fun _ e => e.isRange = false := by
  refine declareAll_meets (fun _ scopes => scopes.InRange p.file) hids (.root hash _)
    fun done id rest scopes d hsplit _ hscopes => ⟨fun _ => rfl, fun _ => rfl, fun changed hinsert => ?_⟩
  exact hscopes.insert hinsert (hids id (by simp [hsplit]))

/-- A call in range looks nothing up outside the arena. -/
theorem Call.run_inRange {p : Progress} (hrange : ∀ id ∈ p.file.ids, id < p.file.declarations.length) {call : Call hash}
    (hcall : call.InRange p.file) : (call.run p).Meets (fun _ => True) fun _ e => e.isRange = false := by
  cases call with
  | resolve scopes id => exact resolve_meets (visitStep_inRange hrange) scopes id p ⟨rfl, hcall⟩
  | resolveFile =>
    have hitems : ∀ id ∈ p.file.items, id < p.file.declarations.length := fun id hid =>
      hrange id (List.mem_append_left _ hid)
    have hbound := declareAll_inRange hash hitems
    change (DeclTree.resolveFile hash p).Meets _ _
    rw [DeclTree.resolveFile]
    rcases hdeclare : declareAll p.file.items (.root hash) p with ⟨⟨scopes, q⟩, _ | error⟩
    · rw [hdeclare] at hbound
      obtain ⟨hfile, hscopes⟩ := hbound
      have hall : (resolveAll scopes q.file.resolutionOrder (q.note (.rootScope scopes.top.size))).Meets
          (fun last => last.file.cleared = p.file.cleared) fun _ e => e.isRange = false := by
        refine resolveAll_meets (fun _ now => now.cleared = p.file.cleared) (congrArg SourceFile.cleared hfile)
          fun done id rest r hsplit hcleared => ?_
        have hid : id ∈ q.file.resolutionOrder := by simp [hsplit]
        rw [hfile] at hid
        have hmeets := resolve_meets (visitStep_inRange hrange) scopes id r
          ⟨hcleared, hscopes, hitems id (SourceFile.mem_items_of_resolutionOrder hid)⟩
        have hlawful := resolve_lawful scopes id r
        exact (hlawful.and hmeets).imp (fun _ h => h.1.1.cleared.trans hcleared) fun _ _ h => h.2
      exact hall.imp (fun _ _ => trivial) fun _ _ h => h
    · rw [hdeclare] at hbound
      exact hbound

/-- Generating a file in range looks nothing up outside the arena. -/
theorem generate_inRange {file : SourceFile} (hrange : file.InRange) {banner : Bool} {e : Error}
    (h : (generate file banner).2 = .error e) : e.isRange = false := by
  obtain ⟨f, -, hobstacle⟩ := exists_rendered_obstacle hrange h
  cases hobstacle <;> rfl

namespace Session

/-- The error that an answer reports. -/
def Answer.error? : Answer → Option Error
  | .resolved error _ => error
  | .generated (.error e) => some e
  | _ => none

/-- The states that a session on a file can come to: operations follow one another, whether they succeed or fail, and
tables in range may take the place of the tables at any time. -/
inductive Reaches (file : SourceFile) : Session hash → Prop where
  | start : Reaches file (.start hash file)
  | step {session} (operation : Operation) (h : Reaches file session) : Reaches file (session.step operation).1
  | adopt {session} (scopes : Scopes hash) (h : Reaches file session) (hscopes : scopes.InRange session.file) :
    Reaches file { session with scopes := scopes }

/-- The file of a session and its tables stay inside the arena. -/
structure InRange (session : Session hash) : Prop where
  file : session.file.InRange
  scopes : session.scopes.InRange session.file

variable {session : Session hash}

/-- A resolution in range keeps a session in range and reports no look-up outside the arena. -/
theorem InRange.afterResolution (h : session.InRange) (call : Call hash) (hcall : call.InRange session.file) :
    (session.afterResolution (call.run ⟨session.file, []⟩)).1.InRange ∧
      ∀ e, (session.afterResolution (call.run ⟨session.file, []⟩)).2.error? = some e → e.isRange = false := by
  have hrun := Call.run_inRange (p := ⟨session.file, []⟩) h.file.ids hcall
  have hfile := h.file.call (p := ⟨session.file, []⟩) call
  have hlength := SourceFile.length_of_cleared_eq (call.advances ⟨session.file, []⟩).cleared
  refine ⟨⟨hfile, h.scopes.imp fun id hid => hlength.symm ▸ hid⟩, fun e he => ?_⟩
  rcases hresult : call.run ⟨session.file, []⟩ with ⟨q, _ | error⟩
  · rw [hresult] at he
    cases he
  · rw [hresult] at hrun he
    obtain rfl := Option.some.inj he
    exact hrun

/-- Every operation keeps a session in range and reports no look-up outside the arena. -/
theorem InRange.step (h : session.InRange) (operation : Operation) :
    (session.step operation).1.InRange ∧ ∀ e, (session.step operation).2.error? = some e → e.isRange = false := by
  have hlt {id : DeclId} {d : Declaration} (hdecl : session.file.decl? id = some d) :
      id < session.file.declarations.length := (List.getElem?_eq_some_iff.mp hdecl).1
  cases operation with
  | push => exact ⟨⟨h.file, h.scopes.push⟩, by rintro _ ⟨⟩⟩
  | pop =>
    have hpop := h.scopes.pop
    rw [Session.step]
    cases hscopes : session.scopes.pop? with
    | none => exact ⟨h, by rintro _ ⟨⟩⟩
    | some scopes =>
      rw [hscopes] at hpop
      exact ⟨⟨h.file, hpop⟩, by rintro _ ⟨⟩⟩
  | insert id =>
    rw [Session.step]
    cases hdecl : session.file.decl? id with
    | none => exact ⟨h, by rintro _ ⟨⟩⟩
    | some d =>
      dsimp only
      cases hinsert : session.scopes.insert? d.name.name id with
      | none => exact ⟨h, by rintro _ ⟨⟩⟩
      | some scopes => exact ⟨⟨h.file, h.scopes.insert hinsert (hlt hdecl)⟩, by rintro _ ⟨⟩⟩
  | resolve id =>
    rw [Session.step]
    cases hdecl : session.file.decl? id with
    | none => exact ⟨h, by rintro _ ⟨⟩⟩
    | some d => exact h.afterResolution (.resolve session.scopes id) ⟨h.scopes, hlt hdecl⟩
  | resolveFile => exact h.afterResolution .resolveFile trivial
  | generate banner =>
    refine ⟨h, fun e he => ?_⟩
    rw [Session.step] at he
    cases hresult : (DeclTree.generate session.file banner).2 with
    | ok text => simp [hresult, Answer.error?] at he
    | error error =>
      obtain rfl : error = e := by simpa [hresult, Answer.error?] using he
      exact generate_inRange h.file hresult
  | describe id =>
    rw [Session.step]
    cases session.file.decl? id <;> exact ⟨h, by rintro _ ⟨⟩⟩
  | lookup | lookupLocal | size | marks | tree => exact ⟨h, by rintro _ ⟨⟩⟩

/-- Every state that a session on a file in range can come to is in range. -/
theorem Reaches.inRange {file : SourceFile} (hfile : file.InRange) (h : Reaches file session) : session.InRange := by
  induction h with
  | start => exact ⟨hfile, .root hash _⟩
  | step operation _ ih => exact (ih.step operation).1
  | adopt scopes _ hscopes ih => exact ⟨ih.file, hscopes⟩

end Session

/-- The check of positions is exact, and it is enough. A document of the right shape is accepted exactly if every place
of its file that names a position, in the items or anywhere in an initial value, names one inside the arena; otherwise
the error names the position at the first such place. In whatever state a session on an accepted file comes to, the
links and the tables lead into the arena, every item is a declaration, and no operation reports a look-up outside the
arena. -/
theorem accepted_files_stay_in_range (text : String) (file : SourceFile)
    (hread : Document.read? Document.sourceFile text = some file) :
    (SourceFile.ofDocument text = .ok file ↔
      ∀ place id, file.nameAt? place = some id → id < file.declarations.length) ∧
    ((¬∀ place id, file.nameAt? place = some id → id < file.declarations.length) →
      ∃ place id, file.nameAt? place = some id ∧ file.declarations.length ≤ id ∧
        (∀ earlier, earlier.Precedes place → ∀ other, file.nameAt? earlier = some other →
          other < file.declarations.length) ∧
        SourceFile.ofDocument text = .error (.outOfRange id file.declarations.length)) ∧
    (SourceFile.ofDocument text = .ok file →
      ∀ (hash : String → Nat) (session : Session hash), Session.Reaches file session →
      session.InRange ∧ session.file.topLevel.map (·.1) = session.file.items ∧
        ∀ operation id count, (session.step operation).2.error? ≠ some (.outOfRange id count)) := by
  refine ⟨SourceFile.ofDocument_eq_ok_iff hread, SourceFile.exists_stray hread, fun haccept hash session hreaches => ?_⟩
  have hrange := hreaches.inRange (SourceFile.inRange_of_ofDocument haccept)
  refine ⟨hrange, hrange.file.map_topLevel, fun operation id count he => ?_⟩
  cases (hrange.step operation).2 _ he

/-- A record, and a function to which no item leads: an arm of its match declares the record and a position. -/
def straying (id : DeclId) : SourceFile :=
  let here := Span.nowhere
  let arm : Arm Scope := ⟨⟨"a", here⟩, [.statement (.declaration 0 here), .statement (.declaration id here)], here⟩
  ⟨[⟨⟨"R", here⟩, .record .struct [], here, .untouched⟩,
    ⟨⟨"f", here⟩, .constant none (.function ⟨[], .primitive .void here, here⟩
      (.matching (.ident ⟨"x", here⟩) [arm] here) here), here, .untouched⟩],
    [0]⟩

/-- The file names the record twice, as an item and in the arm, and then the position. -/
theorem straying_ids (id : DeclId) : (straying id).ids = [0, 0, id] := rfl

/-- The file is read back from its document if the position is a 64-bit number. -/
theorem read?_straying (id : DeclId) (hid : id < UInt64.size) :
    Document.read? Document.sourceFile (Document.ofSourceFile (straying id)).compact = some (straying id) := by
  refine Document.read?_of_isTextOf (List.forall_mem_nil _) ?_ (.inl rfl) (Nat.le_of_ble_eq_true rfl)
  simpa [straying_ids] using hid

/-- The document in which the position lies outside the arena is refused for it, although nothing leads there; the one
in which the function declares itself is accepted, and no operation on it reports a look-up outside the arena. -/
theorem straying_checked :
    SourceFile.ofDocument (Document.ofSourceFile (straying 7)).compact = .error (.outOfRange 7 2) ∧
      SourceFile.ofDocument (Document.ofSourceFile (straying 1)).compact = .ok (straying 1) ∧
      ∀ session : Session nameHash, Session.Reaches (straying 1) session →
        ∀ operation id count, (session.step operation).2.error? ≠ some (.outOfRange id count) := by
  have hmem {k id : DeclId} {place : Mention} (hname : (straying k).nameAt? place = some id) : id = 0 ∨ id = k := by
    have hid : id ∈ (straying k).ids := ((straying k).mem_ids_iff id).mpr ⟨place, hname⟩
    simpa [straying_ids] using hid
  constructor
  · obtain ⟨-, hstray, -⟩ := accepted_files_stay_in_range _ _ (read?_straying 7 (by decide))
    obtain ⟨place, hplace⟩ := ((straying 7).mem_ids_iff 7).mp (by simp [straying_ids])
    obtain ⟨_, id, hname, hlarge, -, hrefused⟩ := hstray fun hall => absurd (hall place 7 hplace) (by decide)
    rcases hmem hname with rfl | rfl
    · exact absurd hlarge (by decide)
    · exact hrefused
  · obtain ⟨haccept, -, hsessions⟩ := accepted_files_stay_in_range _ _ (read?_straying 1 (by decide))
    have hok := haccept.mpr fun place id hname => by
      rcases hmem hname with rfl | rfl <;> decide
    exact ⟨hok, fun session hreaches => (hsessions hok nameHash session hreaches).2.2⟩

end DeclTree

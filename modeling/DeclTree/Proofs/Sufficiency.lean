import DeclTree.Build
import DeclTree.Proofs.Generation
import DeclTree.Proofs.Obstacles
import DeclTree.Proofs.RoundTrip

/-!
# Resolution is enough for generation

A document that is accepted names positions of its arena only and is untouched. If it can be resolved, then whatever
generation comes to has been linked: everything that an item declares is closed, and every link of a closed declaration
leads to a record. It does not matter how often a position is named.

So checking a file is a sound preview of building it: what checking reports, building reports as well, and if checking
reports nothing, compiling can only meet the limits of the C form.
-/

namespace DeclTree

variable {hash : String → Nat}

namespace Document

/-- A declaration that was read is untouched. -/
theorem mark_of_declaration {depth : Nat} {value : Json} {d : Declaration} (h : declaration depth value = some d) :
    d.mark = .untouched := by
  cases depth with
  | zero => simp [declaration] at h
  | succ depth =>
    simp only [declaration, Option.bind_eq_bind, Option.pure_def, Option.bind_eq_some_iff, Option.some_inj] at h
    obtain ⟨_, -, _, -, _, -, _, -, rfl⟩ := h
    rfl

/-- Every element of a list that was read was read on its own. -/
theorem exists_of_mem_list {α : Type} {decode : Json.Decoder α} {depth : Nat} {value : Json} {nodes : List α}
    (h : list decode depth value = some nodes) {node : α} (hnode : node ∈ nodes) :
    ∃ depth element, decode depth element = some node := by
  unfold list at h
  split at h
  · next depth elements =>
    induction elements generalizing nodes with
    | nil =>
      obtain rfl : [] = nodes := by simpa using h
      simp at hnode
    | cons element rest ih =>
      rw [List.mapM_cons] at h
      simp only [Option.bind_eq_bind, Option.pure_def, Option.bind_eq_some_iff, Option.some_inj] at h
      obtain ⟨first, hfirst, others, hothers, rfl⟩ := h
      rcases List.mem_cons.mp hnode with rfl | hnode
      · exact ⟨depth, element, hfirst⟩
      · exact ih hnode hothers
  · simp at h

/-- A file that was read is untouched. -/
theorem untouched_of_sourceFile {depth : Nat} {value : Json} {file : SourceFile}
    (h : sourceFile depth value = some file) : ∀ d ∈ file.declarations, d.mark = .untouched := by
  cases depth with
  | zero => simp [sourceFile] at h
  | succ depth =>
    simp only [sourceFile, Json.required, Option.bind_eq_bind, Option.pure_def, Option.bind_eq_some_iff,
      Option.some_inj] at h
    obtain ⟨_, -, declarations, ⟨element, -, hdeclarations⟩, _, -, rfl⟩ := h
    intro d hd
    obtain ⟨_, _, hdecode⟩ := exists_of_mem_list hdeclarations hd
    exact mark_of_declaration hdecode

end Document

/-- A document that is accepted is untouched and names positions of its arena only. -/
theorem SourceFile.of_ofDocument {text : String} {file : SourceFile} (h : SourceFile.ofDocument text = .ok file) :
    (∀ d ∈ file.declarations, d.mark = .untouched) ∧ ∀ id ∈ file.ids, id < file.declarations.length := by
  unfold SourceFile.ofDocument at h
  split at h
  · simp at h
  · next read hread =>
    split at h
    · simp at h
    · next hnone =>
      obtain rfl := Except.ok.inj h
      obtain ⟨value, -, hvalue⟩ := Option.bind_eq_some_iff.mp hread
      refine ⟨Document.untouched_of_sourceFile hvalue, fun id hid => ?_⟩
      rw [rangeError?, Option.map_eq_none_iff, List.find?_eq_none] at hnone
      simpa using hnone id hid

namespace Resolved

variable {file now : SourceFile}

/-- In a resolved file the links of what is closed lead to records. -/
theorem lowerable (h : Resolved file now) {id : DeclId} {d : Declaration} (hdecl : now.decl? id = some d)
    (hmark : d.mark = .closed) : Lowerable now d := by
  obtain ⟨⟨plan, hplan, -⟩, hlinks⟩ := h.settled id d hdecl hmark
  refine ⟨fun link hlink => ?_, fun members hkind => ?_, fun members hkind => ?_⟩
  · obtain ⟨target, rfl, hoffers, e, he, hvariable⟩ := hlinks link hlink
    obtain ⟨e', he', hcleared⟩ := SourceFile.decl?_of_cleared_eq h.cleared he
    obtain ⟨kind, members, hkind⟩ := Declaration.record_of_plan
      ((Declaration.plan?_of_cleared_eq hcleared).symm ▸ h.plan_of_offers hoffers he)
      ((Declaration.isVariable_of_cleared_eq hcleared).trans hvariable)
    exact ⟨target, e', kind, members, rfl, he', hkind⟩
  · simp [Declaration.plan?, hkind] at hplan
  · simp [Declaration.plan?, hkind] at hplan

/-- An item of a resolved file can be lowered. -/
theorem itemLowerable_of_decl? (h : Resolved file now) {id : DeclId} (hitem : id ∈ now.items) {d : Declaration}
    (hdecl : now.decl? id = some d) : ItemLowerable now d := by
  obtain ⟨e, he, hmark⟩ := SourceFile.mark?_eq_some.mp
    (h.closed id (SourceFile.items_of_cleared_eq h.cleared ▸ hitem))
  obtain rfl := Option.some_inj.mp (hdecl.symm.trans he)
  obtain ⟨⟨plan, hplan, hcarried⟩, -⟩ := h.settled id d hdecl hmark
  refine ⟨h.lowerable hdecl hmark, fun plan' hplan' t ht => ?_⟩
  obtain rfl := Option.some_inj.mp (hplan.symm.trans hplan')
  obtain ⟨f, hf, hfmark⟩ := SourceFile.mark?_eq_some.mp ((hcarried _ ht).2 t rfl)
  exact ⟨f, hf, h.lowerable hf hfmark⟩

/-- Every declaration that is emitted from a resolved file can be lowered. -/
theorem itemLowerable (h : Resolved file now) {d : Declaration} (hd : d ∈ Lowering.emissionOrder now) :
    ItemLowerable now d := by
  have hall : d ∈ now.topLevel.map (·.2) := by
    rcases List.mem_append.mp hd with hd | hd
    · exact (List.mem_filter.mp hd).1
    · exact (List.mem_filter.mp hd).1
  obtain ⟨⟨id, e⟩, hentry, rfl⟩ := List.mem_map.mp hall
  obtain ⟨t, ht, heq⟩ := List.mem_filterMap.mp hentry
  obtain ⟨e', he', hpair⟩ := Option.map_eq_some_iff.mp heq
  obtain ⟨rfl, rfl⟩ := Prod.mk.inj hpair
  exact h.itemLowerable_of_decl? ht he'

end Resolved

section Rendered

variable {now : SourceFile} {d : Declaration}

/-- An item that can be lowered supports the statements of its body. -/
theorem ItemLowerable.supports (h : ItemLowerable now d) :
    Supports now (Fragment.declaration d).links (Fragment.declaration d).steps := by
  refine ⟨h.links, fun id hid => ?_⟩
  obtain ⟨name, kind, span, mark⟩ := d
  rw [Fragment.steps] at hid
  dsimp only at hid
  split at hid
  · next ascribed signature body literalSpan =>
    have hvalue : .declare id ∈ (Expr.function signature body literalSpan).steps := by simp [Expr.steps, hid]
    cases ascribed with
    | none => exact h.locals _ rfl id hvalue
    | some type => exact h.locals _ rfl id (List.mem_append_right _ hvalue)
  · cases hid

/-- A declaration that is not a function is written from no statements, so its links are all that it needs. -/
theorem Lowerable.supports (h : Lowerable now d) (hfunction : d.isFunction = false) :
    Supports now (Fragment.declaration d).links (Fragment.declaration d).steps := by
  refine ⟨h.links, fun id hid => ?_⟩
  obtain ⟨name, kind, span, mark⟩ := d
  rw [Fragment.steps] at hid
  dsimp only at hid
  split at hid
  · cases hfunction
  · cases hid

/-- Every fragment that is rendered of a resolved file is supported. -/
theorem Rendered.supports {file : SourceFile} (h : Resolved file now) {f : Fragment} (hf : Rendered now f) :
    Supports now f.links f.steps := by
  induction hf with
  | item hitem hdecl => exact (h.itemLowerable_of_decl? hitem hdecl).supports
  | part _ hpart ih =>
    rcases Fragment.covers_of_mem_parts hpart with ⟨id, span, d, rfl, hdecl, hfunction, rfl⟩ | hcovers
    · obtain ⟨e, he, hlowerable⟩ := ih.locals id (List.mem_singleton_self _)
      obtain rfl := Option.some_inj.mp (hdecl.symm.trans he)
      exact hlowerable.supports hfunction
    · exact ⟨fun link hlink => ih.links link (hcovers.links hlink), fun id hid => ih.locals id (hcovers.steps hid)⟩

/-- A named type that is rendered of a resolved file takes the tag of the record that it is linked to. -/
theorem Rendered.tagged {file : SourceFile} (h : Resolved file now) {name : Ident} {link : Option DeclId}
    (hf : Rendered now (.type (.named name link))) :
    ∃ kind, (kind = .struct ∨ kind = .union) ∧
      Lowering.typeName now (.named name link) = .ok ⟨.tagged kind name.name, 0⟩ := by
  obtain ⟨id, ⟨_, _, _, _⟩, kind, members, rfl, hdecl, rfl⟩ := (hf.supports h).links link (List.mem_singleton_self _)
  rw [Lowering.typeName, Lowering.namedType, Lowering.declAt, hdecl]
  cases kind with
  | struct => exact ⟨.struct, .inl rfl, rfl⟩
  | union => exact ⟨.union, .inr rfl, rfl⟩

end Rendered

/-- A document that resolves is left as `Resolved` says. -/
theorem SourceFile.resolved_of_resolve {text : String} {file now : SourceFile} {events : List Event}
    (hread : SourceFile.ofDocument text = .ok file) (hresolve : file.resolve hash = (now, events, none)) :
    Resolved file now := by
  obtain ⟨huntouched, hrange⟩ := SourceFile.of_ofDocument hread
  have hsettles := resolveFile_settles hash (p := ⟨file, []⟩)
    (fun id hid => hrange id (List.mem_append_left _ hid)) huntouched
  rw [SourceFile.resolve] at hresolve
  rcases hrun : resolveFile hash ⟨file, []⟩ with ⟨p, _ | error⟩
  · rw [hrun] at hresolve hsettles
    obtain ⟨rfl, -⟩ := Prod.mk.inj hresolve
    exact hsettles
  · rw [hrun] at hresolve
    simp at hresolve

/-- Generating from what resolving a document leaves gives no error but those of generation's limits. -/
theorem isLimit_of_generate {text : String} {file now : SourceFile} {events : List Event}
    (hread : SourceFile.ofDocument text = .ok file) (hresolve : file.resolve hash = (now, events, none)) (banner : Bool)
    (error : Error) (herror : (generate now banner).2 = .error error) : error.isLimit = true := by
  have hresolved := SourceFile.resolved_of_resolve hread hresolve
  have hyields := generate_yields (fun d hd => hresolved.itemLowerable hd) banner
  rw [herror] at hyields
  exact hyields

/-- Compiling with resolution gives the error of resolution. -/
theorem compile_of_resolve_error {file now : SourceFile} {events : List Event} {error : Error}
    (h : file.resolve hash = (now, events, some error)) (banner : Bool) :
    (compile hash file ⟨true, banner⟩).result = .error error := by
  simp [compile, h]

/-- Compiling a file that resolves is generating from what resolution leaves. -/
theorem compile_of_resolve {file now : SourceFile} {events : List Event} (h : file.resolve hash = (now, events, none))
    (banner : Bool) : (compile hash file ⟨true, banner⟩).result = (generate now banner).2 := by
  simp [compile, h]

/-- Work on a workspace goes on with the result and the workspace that are left. -/
theorem Workspace.bind_apply {α β : Type} (first : StateM Workspace α) (next : α → StateM Workspace β) (w : Workspace) :
    (first >>= next) w = next (first w).1 (first w).2 := rfl

/-- The text at a path is the document of a file. -/
def Workspace.Holds (w : Workspace) (path : String) (file : SourceFile) : Prop :=
  ∃ document, w.read path = .ok document ∧ SourceFile.ofDocument document = .ok file

/-- Why no file is loaded from a path: the device fails, there is no text, or the text is refused. -/
inductive Device.FailsToLoad (device : Device) (w : Workspace) (path : String) : Error → Prop
  | notRead {fault : FileFault} (h : device.fault? (.read path) = some fault) :
    FailsToLoad device w path (.unreadable path fault)
  | noText {fault : FileFault} (h : w.read path = .error fault) : FailsToLoad device w path (.unreadable path fault)
  | refused {document : String} {error : Error} (read : w.read path = .ok document)
    (h : SourceFile.ofDocument document = .error error) : FailsToLoad device w path error

section Access

variable {device : Device} {input : String} {w : Workspace} {file : SourceFile} {error : Error}

/-- Loading a file gives the text that is read as a document, and changes nothing. -/
theorem loadFile_access (device : Device) (input : String) (w : Workspace) :
    loadFile (Workspace.access device) input w =
      (match device.read w input with
        | .error fault => .error (.unreadable input fault)
        | .ok text => SourceFile.ofDocument text, w) := by
  rw [loadFile, Workspace.bind_apply, Workspace.access_read]
  dsimp only
  cases device.read w input with
  | error fault => rfl
  | ok text => rfl

/-- A document that is read is loaded if it is accepted, and refused otherwise. -/
theorem loadFile_of_read {text : String} (hread : device.read w input = .ok text) :
    loadFile (Workspace.access device) input w = (SourceFile.ofDocument text, w) := by
  rw [loadFile_access, hread]

/-- What is loaded is the file that the text at the path is the document of, and where nothing is loaded there is a
cause. -/
theorem loadFile_cases (device : Device) (input : String) (w : Workspace) :
    (∃ error, loadFile (Workspace.access device) input w = (.error error, w) ∧ device.FailsToLoad w input error) ∨
      ∃ file, loadFile (Workspace.access device) input w = (.ok file, w) ∧ w.Holds input file := by
  rw [loadFile_access, Device.read]
  cases hfault : device.fault? (.read input) with
  | some fault => exact .inl ⟨_, rfl, .notRead hfault⟩
  | none =>
    dsimp only
    cases hread : w.read input with
    | error fault => exact .inl ⟨_, rfl, .noText hread⟩
    | ok document =>
      dsimp only
      cases haccept : SourceFile.ofDocument document with
      | error error => exact .inl ⟨error, rfl, .refused hread haccept⟩
      | ok file => exact .inr ⟨file, rfl, document, hread, haccept⟩

variable (hash)

/-- What cannot be loaded cannot be checked. -/
theorem checkFile_of_load_error (hload : loadFile (Workspace.access device) input w = (.error error, w)) :
    checkFile hash (Workspace.access device) input w = (.error error, w) := by
  rw [checkFile, Workspace.bind_apply, hload]
  rfl

/-- What cannot be loaded cannot be built. -/
theorem buildFile_of_load_error (hload : loadFile (Workspace.access device) input w = (.error error, w))
    (output : Option String) (options : Options) :
    buildFile hash (Workspace.access device) input output options w = (.error error, w) := by
  rw [buildFile, Workspace.bind_apply, hload]
  rfl

/-- Checking a file that was loaded gives the result of resolution, and changes nothing. -/
theorem checkFile_of_load (hload : loadFile (Workspace.access device) input w = (.ok file, w)) :
    checkFile hash (Workspace.access device) input w =
      (match (file.resolve hash).2.2 with
        | some error => .error error
        | none => .ok (.ofFile file), w) := by
  rw [checkFile, Workspace.bind_apply, hload]
  dsimp only
  rcases file.resolve hash with ⟨now, events, _ | error⟩
  · rfl
  · rfl

/-- Building a file that was loaded and does not compile gives the error of compilation. -/
theorem buildFile_of_compile_error (hload : loadFile (Workspace.access device) input w = (.ok file, w))
    {options : Options} (hcompile : (compile hash file options).result = .error error) (output : Option String) :
    buildFile hash (Workspace.access device) input output options w = (.error error, w) := by
  rw [buildFile, Workspace.bind_apply, hload]
  dsimp only
  rw [hcompile]
  rfl

/-- Building a file that was loaded and compiles is replacing the output. -/
theorem buildFile_of_compile (hload : loadFile (Workspace.access device) input w = (.ok file, w)) {options : Options}
    {text : String} (hcompile : (compile hash file options).result = .ok text) (output : Option String) :
    buildFile hash (Workspace.access device) input output options w =
      ((device.replace (outputPath input output) text w).1.map fun _ =>
        ⟨outputPath input output, { Statistics.ofFile file with bytes := text.utf8ByteSize }⟩,
        (device.replace (outputPath input output) text w).2) := by
  rw [buildFile, Workspace.bind_apply, hload]
  dsimp only
  rw [hcompile]
  dsimp only
  rw [Workspace.bind_apply, Workspace.access_replace]
  rcases device.replace (outputPath input output) text w with ⟨_ | _, after⟩
  · rfl
  · rfl

end Access

/-- Resolution is enough for generation. For a document that is accepted: if it resolves, generating from what
resolution leaves gives no error but those of generation's limits, every named type that is rendered takes the tag of a
structure or a union, and every type name of a lowered item that carries a tag carries that of a record; if it does not
resolve, compiling it with resolution gives the same error. For a file of a workspace on any device: if checking it
gives an error, building it with resolution gives the same error and changes nothing; if checking it gives none, it is a
document that compiles up to those limits, and building it gives one of those errors or one of replacing the output. -/
theorem resolution_suffices_for_generation (hash : String → Nat) :
    (∀ text file, SourceFile.ofDocument text = .ok file →
      (∀ now events, file.resolve hash = (now, events, none) →
        (∀ banner error, (generate now banner).2 = .error error → error.isLimit = true) ∧
        (∀ name link, Rendered now (.type (.named name link)) → ∃ kind, (kind = .struct ∨ kind = .union) ∧
          Lowering.typeName now (.named name link) = .ok ⟨.tagged kind name.name, 0⟩) ∧
        ∀ d ∈ Lowering.emissionOrder now, ∀ item, (Lowering.item now d).2 = .ok item →
          ∀ type ∈ item.typeNames, type.TagsRecord) ∧
      ∀ now events error, file.resolve hash = (now, events, some error) → ∀ banner,
        (compile hash file ⟨true, banner⟩).result = .error error) ∧
    ∀ (device : Device) (w : Workspace) (input : String) (output : Option String) (banner : Bool),
      let files := Workspace.access device
      (∀ error, (checkFile hash files input w).1 = .error error →
        buildFile hash files input output ⟨true, banner⟩ w = (.error error, w)) ∧
      ∀ statistics, (checkFile hash files input w).1 = .ok statistics →
        ∃ file, loadFile files input w = (.ok file, w) ∧
          (∀ error, (compile hash file ⟨true, banner⟩).result = .error error → error.isLimit = true) ∧
          ∀ error, (buildFile hash files input output ⟨true, banner⟩ w).1 = .error error →
            error.isLimit = true ∨ ∃ text, (device.replace (outputPath input output) text w).1 = .error error := by
  refine ⟨fun text file hread => ⟨fun now events hresolve => ⟨isLimit_of_generate hread hresolve, ?_, ?_⟩,
    fun now events error hresolve banner => compile_of_resolve_error hresolve banner⟩,
    fun device w input output banner => ?_⟩
  · exact fun name link hrendered => hrendered.tagged (SourceFile.resolved_of_resolve hread hresolve)
  · intro d hd item hitem
    have hyields := item_yields ((SourceFile.resolved_of_resolve hread hresolve).itemLowerable hd)
    rw [hitem] at hyields
    exact hyields
  · intro files
    obtain ⟨fault, hload, -⟩ | ⟨file, hload, text, -, hread⟩ := loadFile_cases device input w
    · rw [checkFile_of_load_error hash hload]
      refine ⟨fun error herror => ?_, by simp⟩
      obtain rfl := Except.error.inj herror
      exact buildFile_of_load_error hash hload output ⟨true, banner⟩
    · rw [checkFile_of_load hash hload]
      rcases hresolve : file.resolve hash with ⟨now, events, _ | error⟩
      · have hcompile := compile_of_resolve hresolve banner
        have hlimit := isLimit_of_generate hread hresolve banner
        rw [← hcompile] at hlimit
        refine ⟨by simp, fun _ _ => ⟨file, hload, hlimit, fun error herror => ?_⟩⟩
        cases hresult : (compile hash file ⟨true, banner⟩).result with
        | error e =>
          rw [buildFile_of_compile_error hash hload hresult] at herror
          exact .inl (Except.error.inj herror ▸ hlimit e hresult)
        | ok produced =>
          rw [buildFile_of_compile hash hload hresult] at herror
          refine .inr ⟨produced, ?_⟩
          cases hreplace : (device.replace (outputPath input output) produced w).1 with
          | error e =>
            rw [hreplace] at herror
            exact congrArg _ (Except.error.inj herror)
          | ok =>
            rw [hreplace] at herror
            cases herror
      · refine ⟨fun e he => ?_, by simp⟩
        obtain rfl := Except.error.inj he
        exact buildFile_of_compile_error hash hload (compile_of_resolve_error hresolve banner) output

/-- A variable of a structure that stands behind it. -/
def forward : SourceFile :=
  let here := Span.nowhere
  ⟨[⟨⟨"origin", here⟩, .mutable (.named ⟨"Point", here⟩ none) none, here, .untouched⟩,
    ⟨⟨"Point", here⟩, .record .struct
      [⟨⟨"x", here⟩, .primitive .i32 here, here⟩, ⟨⟨"y", here⟩, .primitive .i32 here, here⟩], here, .untouched⟩],
    [0, 1]⟩

/-- The document of the variable and its structure. -/
def forwardText : String := (Document.ofSourceFile forward).compact

/-- The document is accepted. -/
theorem ofDocument_forwardText : SourceFile.ofDocument forwardText = .ok forward :=
  SourceFile.ofDocument_of_isTextOf (List.forall_mem_nil _) (by decide) (.inl rfl) (by decide) (by decide)

/-- A workspace with the document. -/
def plotting : Workspace := ⟨["home"], [(["home", "point"], .text forwardText)]⟩

/-- The document is loaded from the workspace. -/
theorem loadFile_plotting :
    loadFile (Workspace.access .reliable) "point" plotting = (.ok forward, plotting) := by
  have hread : Device.reliable.read plotting "point" = .ok forwardText := rfl
  rw [loadFile_of_read hread, ofDocument_forwardText]

/-- The document resolves, and the type of the variable is rendered: it takes the tag of the structure. Checking the
document reports nothing, so that building it can only meet a limit or fail to replace the output. -/
theorem forward_suffices :
    ∃ now events, forward.resolve nameHash = (now, events, none) ∧
      Rendered now (.type (.named ⟨"Point", .nowhere⟩ (some 1))) ∧
      (∃ kind, (kind = .struct ∨ kind = .union) ∧
        Lowering.typeName now (.named ⟨"Point", .nowhere⟩ (some 1)) = .ok ⟨.tagged kind "Point", 0⟩) ∧
      ∃ statistics, (checkFile nameHash (Workspace.access .reliable) "point" plotting).1 = .ok statistics ∧
        ∀ error,
          (buildFile nameHash (Workspace.access .reliable) "point" none ⟨true, false⟩ plotting).1 = .error error →
          error.isLimit = true ∨ ∃ text, (Device.reliable.replace "point.c" text plotting).1 = .error error := by
  obtain ⟨hdocument, hfile⟩ := resolution_suffices_for_generation nameHash
  have hnone : (forward.resolve nameHash).2.2 = none := by decide +kernel
  have hresolve : forward.resolve nameHash = ((forward.resolve nameHash).1, (forward.resolve nameHash).2.1, none) := by
    rw [← hnone]
  have hitem : Rendered (forward.resolve nameHash).1 (.declaration
      ⟨⟨"origin", .nowhere⟩, .mutable (.named ⟨"Point", .nowhere⟩ (some 1)) none, .nowhere, .closed⟩) :=
    .item (List.mem_cons_self : 0 ∈ [0, 1]) rfl
  have hrendered := (hitem.part List.mem_cons_self).part List.mem_cons_self
  have hcheck : (checkFile nameHash (Workspace.access .reliable) "point" plotting).1 = .ok (.ofFile forward) := by
    rw [checkFile_of_load nameHash loadFile_plotting, hnone]
  obtain ⟨-, -, -, hbuild⟩ := (hfile .reliable plotting "point" none false).2 _ hcheck
  exact ⟨_, _, hresolve, hrendered, ((hdocument _ _ ofDocument_forwardText).1 _ _ hresolve).2.1 _ _ hrendered, _,
    hcheck, hbuild⟩

end DeclTree

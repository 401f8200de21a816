import DeclTree.Document.Encode
import DeclTree.Document.Validate
import DeclTree.Proofs.Clearing
import DeclTree.Proofs.JsonText

/-!
# Nodes read back from their documents

The value that a node is written as represents the node without its links and marks: it is read back at every bound that
the depth of the value allows. Records and variants are represented if their parts are, so the proof for a tree follows
its nodes. Floating-point literals are left out, and so are positions that do not fit a word.
-/

namespace DeclTree

/-- Whether the literal is a floating-point number. -/
def Literal.isFloat : Literal → Bool
  | .f32 _ | .f64 _ => true
  | _ => false

mutual

/-- The literals in an expression, from left to right. -/
def Expr.literals : Expr → List Literal
  | .paren inner _ => inner.literals
  | .unary _ operand _ => operand.literals
  | .binary left _ right _ => left.literals ++ right.literals
  | .cast operand _ _ => operand.literals
  | .field object _ _ => object.literals
  | .index object position _ => object.literals ++ position.literals
  | .function _ body _ => body.literals
  | .call callee arguments _ => callee.literals ++ Expr.listLiterals arguments
  | .ident _ => []
  | .literal value _ => [value]
  | .bool _ _ => []
  | .array none _ elements _ => Expr.listLiterals elements
  | .array (some count) _ elements _ => count.literals ++ Expr.listLiterals elements

/-- The literals in expressions. -/
def Expr.listLiterals : List Expr → List Literal
  | [] => []
  | e :: rest => e.literals ++ Expr.listLiterals rest

/-- The literals in a statement. -/
def Stmt.literals : Stmt → List Literal
  | .declaration _ _ => []
  | .increment target _ => target.literals
  | .decrement target _ => target.literals
  | .assign _ target value _ => target.literals ++ value.literals
  | .expr value => value.literals
  | .label _ => []
  | .goto _ => []
  | .returning none _ => []
  | .returning (some value) _ => value.literals

/-- The literals in a scope. -/
def Scope.literals : Scope → List Literal
  | .statement stmt => stmt.literals
  | .block scopes _ => Scope.listLiterals scopes
  | .conditional condition consequent none _ => condition.literals ++ consequent.literals
  | .conditional condition consequent (some alternative) _ =>
    condition.literals ++ consequent.literals ++ alternative.literals
  | .forLoop init condition step body _ => init.literals ++ condition.literals ++ step.literals ++ body.literals
  | .whileLoop condition body _ => condition.literals ++ body.literals
  | .forEach _ iterable body _ => iterable.literals ++ body.literals
  | .matching subject arms _ => subject.literals ++ Scope.armLiterals arms

/-- The literals in scopes. -/
def Scope.listLiterals : List Scope → List Literal
  | [] => []
  | scope :: rest => scope.literals ++ Scope.listLiterals rest

/-- The literals in the cases of a match. -/
def Scope.armLiterals : List (Arm Scope) → List Literal
  | [] => []
  | ⟨_, scopes, _⟩ :: rest => Scope.listLiterals scopes ++ Scope.armLiterals rest

end

/-- The literals in the initial value of a declaration. -/
def DeclKind.literals : DeclKind → List Literal
  | .constant _ value => value.literals
  | .mutable _ (some value) => value.literals
  | .mutable _ none => []
  | .enumeration _ => []
  | .record .. => []
  | .sum _ => []

/-- Every literal in a file, in arena order. -/
def SourceFile.literals (file : SourceFile) : List Literal := file.declarations.flatMap fun d => d.kind.literals

namespace Json

/-- Elements are legible if each of them is. -/
theorem legibleElements_iff (es : List Json) : LegibleElements es ↔ ∀ e ∈ es, e.Legible := by
  induction es with
  | nil => simp [LegibleElements]
  | cons e rest ih => simp [LegibleElements, ih]

/-- Elements are no deeper than a bound if each of them is not. -/
theorem depthElements_le_iff (es : List Json) (d : Nat) : depthElements es ≤ d ↔ ∀ e ∈ es, e.depth ≤ d := by
  induction es with
  | nil => simp [depthElements]
  | cons e rest ih => rw [depthElements, Nat.max_le, ih, List.forall_mem_cons]

/-- An object of fields is legible if the value of each field is. -/
theorem legible_ofFields_iff (fields : List (String × Json)) :
    (ofFields fields).Legible ↔ ∀ v ∈ fields.map (·.2), v.Legible := by
  rw [ofFields, Legible]
  induction fields with
  | nil => simp [LegibleMembers]
  | cons f rest ih => simp only [List.map_cons, LegibleMembers, ih, List.forall_mem_cons, Option.isSome_some, true_and]

/-- Members are no deeper than a bound if the value of each of them is not. -/
theorem depthMembers_le_iff (fields : List (String × Json)) (d : Nat) :
    depthMembers (fields.map fun (name, value) => (some name, value)) ≤ d ↔ ∀ v ∈ fields.map (·.2), v.depth ≤ d := by
  induction fields with
  | nil => simp [depthMembers]
  | cons f rest ih => rw [List.map_cons, depthMembers, Nat.max_le, ih, List.map_cons, List.forall_mem_cons]

end Json

namespace Document

open Json (Decoder ofString ofNat ofInt ofOption ofFields tagged choice)

/-- The value is read as the node at every bound that its depth allows, and all its strings denote texts. -/
structure Represents {α : Type} (decode : Decoder α) (v : Json) (a : α) : Prop where
  legible : v.Legible
  decodes : ∀ d, v.depth ≤ d → decode d v = some a

/-- The parts are read together as the node at every bound that the depths of all of them allow. -/
structure Joins {α : Type} (parts : List Json) (decode : Nat → Option α) (a : α) : Prop where
  legible : ∀ v ∈ parts, v.Legible
  decodes : ∀ d, (∀ v ∈ parts, v.depth ≤ d) → decode d = some a

namespace Joins

variable {α β₁ β₂ β₃ β₄ β₅ : Type} {r₁ : Decoder β₁} {r₂ : Decoder β₂} {r₃ : Decoder β₃} {r₄ : Decoder β₄}
  {r₅ : Decoder β₅} {v₁ v₂ v₃ v₄ v₅ : Json} {b₁ : β₁} {b₂ : β₂} {b₃ : β₃} {b₄ : β₄} {b₅ : β₅}

/-- Nothing is read of no values. -/
theorem pure (a : α) : Joins [] (fun _ => Pure.pure a) a := ⟨by simp, fun _ _ => rfl⟩

/-- One more part is read before the others. -/
theorem bind {parts : List Json} {rest : β₁ → Nat → Option α} {a : α} (h₁ : Represents r₁ v₁ b₁)
    (h : Joins parts (rest b₁) a) : Joins (v₁ :: parts) (fun d => r₁ d v₁ >>= fun b => rest b d) a := by
  refine ⟨List.forall_mem_cons.mpr ⟨h₁.legible, h.legible⟩, fun d hd => ?_⟩
  obtain ⟨hfirst, hrest⟩ := List.forall_mem_cons.mp hd
  simp [h₁.decodes d hfirst, h.decodes d hrest]

/-- What is built from a part that one value represents. -/
theorem one (build : β₁ → α) (h₁ : Represents r₁ v₁ b₁) :
    Joins [v₁] (fun d => do return build (← r₁ d v₁)) (build b₁) :=
  bind h₁ (pure _)

/-- What is built from parts that two values represent. -/
theorem two (build : β₁ → β₂ → α) (h₁ : Represents r₁ v₁ b₁) (h₂ : Represents r₂ v₂ b₂) :
    Joins [v₁, v₂] (fun d => do return build (← r₁ d v₁) (← r₂ d v₂)) (build b₁ b₂) :=
  bind h₁ (one (build b₁) h₂)

/-- What is built from parts that three values represent. -/
theorem three (build : β₁ → β₂ → β₃ → α) (h₁ : Represents r₁ v₁ b₁) (h₂ : Represents r₂ v₂ b₂)
    (h₃ : Represents r₃ v₃ b₃) :
    Joins [v₁, v₂, v₃] (fun d => do return build (← r₁ d v₁) (← r₂ d v₂) (← r₃ d v₃)) (build b₁ b₂ b₃) :=
  bind h₁ (two (build b₁) h₂ h₃)

/-- What is built from parts that four values represent. -/
theorem four (build : β₁ → β₂ → β₃ → β₄ → α) (h₁ : Represents r₁ v₁ b₁) (h₂ : Represents r₂ v₂ b₂)
    (h₃ : Represents r₃ v₃ b₃) (h₄ : Represents r₄ v₄ b₄) :
    Joins [v₁, v₂, v₃, v₄] (fun d => do return build (← r₁ d v₁) (← r₂ d v₂) (← r₃ d v₃) (← r₄ d v₄))
      (build b₁ b₂ b₃ b₄) :=
  bind h₁ (three (build b₁) h₂ h₃ h₄)

/-- What is built from parts that five values represent. -/
theorem five (build : β₁ → β₂ → β₃ → β₄ → β₅ → α) (h₁ : Represents r₁ v₁ b₁) (h₂ : Represents r₂ v₂ b₂)
    (h₃ : Represents r₃ v₃ b₃) (h₄ : Represents r₄ v₄ b₄) (h₅ : Represents r₅ v₅ b₅) :
    Joins [v₁, v₂, v₃, v₄, v₅]
      (fun d => do return build (← r₁ d v₁) (← r₂ d v₂) (← r₃ d v₃) (← r₄ d v₄) (← r₅ d v₅)) (build b₁ b₂ b₃ b₄ b₅) :=
  bind h₁ (four (build b₁) h₂ h₃ h₄ h₅)

/-- A part that nobody reads may follow. -/
theorem passing {parts : List Json} {join : Nat → Option α} {a : α} (h : Joins parts join a) {extra : Json}
    (hextra : extra.Legible) : Joins (parts ++ [extra]) join a := by
  refine ⟨fun v hv => ?_, fun d hd => h.decodes d fun v hv => hd v (List.mem_append_left _ hv)⟩
  rcases List.mem_append.mp hv with hv | hv
  · exact h.legible v hv
  · rw [List.mem_singleton.mp hv]
    exact hextra

/-- Parts that are read alike are read in their order. -/
theorem row {part : Decoder α} {parts : List Json} {nodes : List α} (h : List.Forall₂ (Represents part) parts nodes) :
    Joins parts (fun d => parts.mapM (part d)) nodes := by
  induction h with
  | nil => exact pure []
  | cons hfirst _ ih =>
    refine ⟨List.forall_mem_cons.mpr ⟨hfirst.legible, ih.legible⟩, fun d hd => ?_⟩
    obtain ⟨hdfirst, hdrest⟩ := List.forall_mem_cons.mp hd
    simp [hfirst.decodes d hdfirst, ih.decodes d hdrest]

end Joins

/-- What is read inside one array or object. -/
def inside {α : Type} (join : Nat → Option α) : Decoder α
  | 0, _ => none
  | d + 1, _ => join d

namespace Represents

variable {α β : Type} {decode : Decoder α} {join : Nat → Option α} {a : α}

/-- An object is represented if its fields are read together one level down. -/
theorem record {fields : List (String × Json)} (h : Joins (fields.map (·.2)) join a)
    (hdecode : ∀ d, decode (d + 1) (ofFields fields) = join d) : Represents decode (ofFields fields) a := by
  refine ⟨(Json.legible_ofFields_iff fields).mpr h.legible, fun d hd => ?_⟩
  rw [ofFields, Json.depth] at hd
  cases d with
  | zero => simp at hd
  | succ d =>
    rw [hdecode]
    exact h.decodes d ((Json.depthMembers_le_iff fields d).mp (Nat.le_of_succ_le_succ hd))

/-- An array is represented if its elements are read together one level down. -/
theorem elements {parts : List Json} (h : Joins parts join a) (hdecode : ∀ d, decode (d + 1) (.array parts) = join d) :
    Represents decode (.array parts) a := by
  refine ⟨(Json.legibleElements_iff parts).mpr h.legible, fun d hd => ?_⟩
  rw [Json.depth] at hd
  cases d with
  | zero => simp at hd
  | succ d =>
    rw [hdecode]
    exact h.decodes d ((Json.depthElements_le_iff parts d).mp (Nat.le_of_succ_le_succ hd))

/-- Nodes in a row are represented by the array of their values. -/
theorem list {part : Decoder β} {decode : Decoder (List β)} {parts : List Json} {nodes : List β}
    (h : List.Forall₂ (Represents part) parts nodes)
    (hdecode : ∀ d, decode (d + 1) (.array parts) = parts.mapM (part d)) : Represents decode (.array parts) nodes :=
  elements (.row h) hdecode

/-- A variant is represented if its content is; the content is an array or an object, so it is not read at no level. -/
theorem variant {tag : String} {content : Json} {part : Decoder β} {b : β} (build : β → α)
    (h : Represents part content b) (hzero : part 0 content = none)
    (hdecode : ∀ d, decode (d + 2) (tagged tag content) = do return build (← part (d + 1) content)) :
    Represents decode (tagged tag content) (build b) := by
  refine ⟨(Json.legible_ofFields_iff _).mpr (by simpa using h.legible), fun d hd => ?_⟩
  have hcontent : content.depth + 1 ≤ d := by simpa [tagged, ofFields, Json.depth, Json.depthMembers] using hd
  rcases d with _ | _ | d
  · simp at hcontent
  · -- The object of the variant takes the only level, and nothing is left for the content.
    have hsome := h.decodes 0 (Nat.le_of_succ_le_succ hcontent)
    rw [hzero] at hsome
    simp at hsome
  · simp [hdecode, h.decodes (d + 1) (Nat.le_of_succ_le_succ hcontent)]

/-- A variant with fields is represented if its fields are read together two levels down. -/
theorem fields {tag : String} {fields : List (String × Json)} (h : Joins (fields.map (·.2)) join a)
    (hdecode : ∀ d, decode (d + 2) (tagged tag (ofFields fields)) = join d) :
    Represents decode (tagged tag (ofFields fields)) a := by
  have hcontent : Represents (inside join) (ofFields fields) a := record h fun _ => rfl
  exact variant id hcontent rfl fun d => by simp [hdecode, inside]

/-- A variant with parts is represented if its parts are read together two levels down. -/
theorem tuple {tag : String} {parts : List Json} (h : Joins parts join a)
    (hdecode : ∀ d, decode (d + 2) (tagged tag (.array parts)) = join d) :
    Represents decode (tagged tag (.array parts)) a := by
  have hcontent : Represents (inside join) (.array parts) a := elements h fun _ => rfl
  exact variant id hcontent rfl fun d => by simp [hdecode, inside]

/-- A node that may be absent is read where it is present. -/
theorem nullable {v : Json} (h : Represents decode v a) (hnull : ∀ d, decode d .null = none) :
    Represents (fun d => Json.nullable (decode d)) v (some a) := by
  refine ⟨h.legible, fun d hd => ?_⟩
  have hv := h.decodes d hd
  rw [Json.nullable, hv, Option.map_some]
  rintro rfl
  simp [hnull d] at hv

/-- Null represents that there is nothing. -/
theorem absent (decode : Decoder α) : Represents (fun d => Json.nullable (decode d)) .null none :=
  ⟨trivial, fun _ _ => rfl⟩

end Represents

/-- A natural number is read back if it is not too great. -/
theorem nat?_ofNat {n greatest : Nat} (h : n ≤ greatest) : (ofNat n).nat? greatest = some n := by
  simp [ofNat, Json.nat?, Json.int?, Numeral.toInt?_ofNat, h]

/-- An integer is read back if it lies between its bounds. -/
theorem int?_ofInt {n least greatest : Int} (hleast : least ≤ n) (hgreatest : n ≤ greatest) :
    (ofInt n).int? least greatest = some n := by
  simp [ofInt, Json.int?, Numeral.toInt?_ofInt, hleast, hgreatest]

/-- A coordinate is written as a number of at most 32 bits. -/
theorem represents_coordinate (n : UInt32) : Represents (fun _ => coordinate) (ofNat n.toNat) n := by
  refine ⟨trivial, fun _ _ => ?_⟩
  rw [coordinate, nat?_ofNat (Nat.le_sub_one_of_lt n.toNat_lt_size), Option.map_some, UInt32.ofNat_toNat]

/-- A position is written as a number, and read back if it has at most 64 bits. -/
theorem represents_declId {id : DeclId} (h : id ≤ greatestId) : Represents (fun _ => declId) (ofNat id) id :=
  ⟨trivial, fun _ _ => nat?_ofNat h⟩

/-- A text is written as a string. -/
theorem represents_text (s : String) : Represents (fun _ => Json.text?) (ofString s) s := ⟨rfl, fun _ _ => rfl⟩

/-- A truth value is written as itself. -/
theorem represents_bool (b : Bool) : Represents (fun _ => Json.bool?) (.bool b) b := ⟨trivial, fun _ _ => rfl⟩

/-- A span is written as its four coordinates. -/
theorem represents_span (s : Span) : Represents span (ofSpan s) s :=
  .record (.four Span.mk (represents_coordinate s.line) (represents_coordinate s.column)
    (represents_coordinate s.endLine) (represents_coordinate s.endColumn)) fun _ => rfl

/-- An identifier is written as its name and its span. -/
theorem represents_ident (i : Ident) : Represents ident (ofIdent i) i :=
  .record (.two Ident.mk (represents_text i.name) (represents_span i.span)) fun _ => rfl

/-- A choice is represented by its name if no other choice before it has the name. -/
theorem represents_choice {α : Type} {key : α → String} {choices : List α} {a : α}
    (h : choices.find? (key · == key a) = some a) : Represents (choice key choices) (ofString (key a)) a :=
  ⟨rfl, fun _ _ => h⟩

/-- A primitive type is written as its key, and no other one has that key. -/
theorem represents_primitive (p : Primitive) : Represents primitive (ofPrimitive p) p :=
  represents_choice (by cases p <;> rfl)

/-- A unary operator is written as its key, and no other one has that key. -/
theorem represents_unaryOp (op : UnaryOp) : Represents (choice UnaryOp.key UnaryOp.all) (ofString op.key) op :=
  represents_choice (by cases op <;> rfl)

/-- A binary operator is written as its key, and no other one has that key. -/
theorem represents_binaryOp (op : BinaryOp) : Represents (choice BinaryOp.key BinaryOp.all) (ofString op.key) op :=
  represents_choice (by cases op <;> rfl)

/-- An assignment operator is written as its key, and no other one has that key. -/
theorem represents_assignOp (op : AssignOp) : Represents (choice AssignOp.key AssignOp.all) (ofString op.key) op :=
  represents_choice (by cases op <;> rfl)

/-- A link is written legibly, also when it is absent. -/
theorem legible_ofOption_ofNat (link : Option DeclId) : (ofOption ofNat link).Legible := by
  cases link with
  | none => trivial
  | some target => trivial

/-- A signature is read back if its parameters and its result are. -/
theorem represents_signature_of (signature : Signature TypeExpr)
    (hparams : List.Forall₂ (Represents slot) (ofSlots signature.params) (TypeExpr.clearedSlots signature.params))
    (hresult : Represents type (ofType signature.result) signature.result.cleared) :
    Represents Document.signature (ofSignature signature) signature.cleared :=
  .record (.three Signature.mk (.list hparams fun _ => rfl) hresult (represents_span signature.span)) fun _ => rfl

mutual

/-- A type is read back without its links. -/
theorem represents_type : ∀ t : TypeExpr, Represents type (ofType t) t.cleared
  | .primitive p s => .tuple (.two TypeExpr.primitive (represents_primitive p) (represents_span s)) fun _ => rfl
  | .pointer base s => .tuple (.two TypeExpr.pointer (represents_type base) (represents_span s)) fun _ => rfl
  | .nullable base s => .tuple (.two TypeExpr.nullable (represents_type base) (represents_span s)) fun _ => rfl
  | .array element s => .tuple (.two TypeExpr.array (represents_type element) (represents_span s)) fun _ => rfl
  | .named name link =>
    .fields ((Joins.one (TypeExpr.named · none) (represents_ident name)).passing (legible_ofOption_ofNat link))
      fun _ => rfl
  | .function ⟨params, result, s⟩ =>
    .variant TypeExpr.function
      (represents_signature_of ⟨params, result, s⟩ (represents_slots params) (represents_type result)) rfl fun _ => rfl

/-- Members or parameters are read back without their links. -/
theorem represents_slots : ∀ ss : List (Slot TypeExpr),
    List.Forall₂ (Represents slot) (ofSlots ss) (TypeExpr.clearedSlots ss)
  | [] => .nil
  | ⟨name, type, s⟩ :: rest =>
    .cons (.record (.three Slot.mk (represents_ident name) (represents_type type) (represents_span s)) fun _ => rfl)
      (represents_slots rest)

end

/-- A signature is read back without links. -/
theorem represents_signature (signature : Signature TypeExpr) :
    Represents Document.signature (ofSignature signature) signature.cleared :=
  represents_signature_of signature (represents_slots signature.params) (represents_type signature.result)

/-- Null is not a type. -/
theorem type_null (d : Nat) : type d .null = none := by rcases d with _ | _ | d <;> rfl

/-- A type that may be absent is read back without links. -/
theorem represents_optionType (t : Option TypeExpr) :
    Represents (fun d => Json.nullable (type d)) (ofOption ofType t) (t.map TypeExpr.cleared) := by
  cases t with
  | none => exact .absent type
  | some t => exact (represents_type t).nullable type_null

/-- A member of a sum is read back without links. -/
theorem represents_sumSlot (slot : Slot (Option TypeExpr)) :
    Represents sumSlot (ofSumSlot slot) { slot with type := slot.type.map TypeExpr.cleared } :=
  .record (.three Slot.mk (represents_ident slot.name) (represents_optionType slot.type) (represents_span slot.span))
    fun _ => rfl

/-- What a document keeps of literals and positions: no literal is a floating-point number, and each position fits a
word. -/
structure Storable (literals : List Literal) (ids : List DeclId) : Prop where
  exact : ∀ l ∈ literals, l.isFloat = false
  fits : ∀ id ∈ ids, id ≤ greatestId

/-- Two rows can be stored together if each can. -/
theorem storable_append {l₁ l₂ : List Literal} {i₁ i₂ : List DeclId} :
    Storable (l₁ ++ l₂) (i₁ ++ i₂) ↔ Storable l₁ i₁ ∧ Storable l₂ i₂ := by
  refine ⟨fun h => ⟨⟨fun l hl => h.exact l (by simp [hl]), fun id hid => h.fits id (by simp [hid])⟩,
    ⟨fun l hl => h.exact l (by simp [hl]), fun id hid => h.fits id (by simp [hid])⟩⟩, fun h => ⟨?_, ?_⟩⟩
  · exact fun l hl => (List.mem_append.mp hl).elim (h.1.exact l) (h.2.exact l)
  · exact fun id hid => (List.mem_append.mp hid).elim (h.1.fits id) (h.2.fits id)

/-- A literal is represented if it is read from its value. -/
theorem represents_literal_of {tag : String} {content : Json} {l : Literal} (hlegible : content.Legible)
    (h : ∀ d, literal (d + 1) (tagged tag content) = some l) : Represents literal (tagged tag content) l :=
  .record ⟨by simpa using hlegible, fun _ _ => rfl⟩ h

/-- A literal that is not a floating-point number is read back. -/
theorem represents_literal (l : Literal) (h : l.isFloat = false) : Represents literal (ofLiteral l) l := by
  cases l with
  | string s => exact represents_literal_of rfl fun _ => rfl
  | char n =>
    refine represents_literal_of trivial fun _ => ?_
    have hread := nat?_ofNat (Nat.le_sub_one_of_lt n.toNat_lt_size)
    exact (congrArg (Option.map _) hread).trans (by rw [Option.map_some, UInt8.ofNat_toNat])
  | i8 n =>
    refine represents_literal_of trivial fun _ => ?_
    have hread := int?_ofInt n.minValue_le_toInt n.toInt_le
    exact (congrArg (Option.map _) hread).trans (by rw [Option.map_some, Int8.ofInt_toInt])
  | i16 n =>
    refine represents_literal_of trivial fun _ => ?_
    have hread := int?_ofInt n.minValue_le_toInt n.toInt_le
    exact (congrArg (Option.map _) hread).trans (by rw [Option.map_some, Int16.ofInt_toInt])
  | i32 n =>
    refine represents_literal_of trivial fun _ => ?_
    have hread := int?_ofInt n.minValue_le_toInt n.toInt_le
    exact (congrArg (Option.map _) hread).trans (by rw [Option.map_some, Int32.ofInt_toInt])
  | i64 n =>
    refine represents_literal_of trivial fun _ => ?_
    have hread := int?_ofInt n.minValue_le_toInt n.toInt_le
    exact (congrArg (Option.map _) hread).trans (by rw [Option.map_some, Int64.ofInt_toInt])
  | u8 n =>
    refine represents_literal_of trivial fun _ => ?_
    have hread := nat?_ofNat (Nat.le_sub_one_of_lt n.toNat_lt_size)
    exact (congrArg (Option.map _) hread).trans (by rw [Option.map_some, UInt8.ofNat_toNat])
  | u16 n =>
    refine represents_literal_of trivial fun _ => ?_
    have hread := nat?_ofNat (Nat.le_sub_one_of_lt n.toNat_lt_size)
    exact (congrArg (Option.map _) hread).trans (by rw [Option.map_some, UInt16.ofNat_toNat])
  | u32 n =>
    refine represents_literal_of trivial fun _ => ?_
    have hread := nat?_ofNat (Nat.le_sub_one_of_lt n.toNat_lt_size)
    exact (congrArg (Option.map _) hread).trans (by rw [Option.map_some, UInt32.ofNat_toNat])
  | u64 n =>
    refine represents_literal_of trivial fun _ => ?_
    have hread := nat?_ofNat (Nat.le_sub_one_of_lt n.toNat_lt_size)
    exact (congrArg (Option.map _) hread).trans (by rw [Option.map_some, UInt64.ofNat_toNat])
  | f32 x => simp [Literal.isFloat] at h
  | f64 x => simp [Literal.isFloat] at h

/-- Null is not an expression. -/
theorem expr_null (d : Nat) : expr d .null = none := by rcases d with _ | _ | d <;> rfl

/-- Null is not a scope. -/
theorem scope_null (d : Nat) : scope d .null = none := by rcases d with _ | _ | d <;> rfl

-- A constructor joins its parts in the order in which they are written; that it is so read is by computation.
mutual

/-- An expression is read back without its links. -/
theorem represents_expr : ∀ e : Expr, Storable e.literals e.ids → Represents expr (ofExpr e) e.cleared
  | .paren inner s, h => .fields (.two Expr.paren (represents_expr inner h) (represents_span s)) fun _ => rfl
  | .unary op operand s, h =>
    .fields (.three Expr.unary (represents_unaryOp op) (represents_expr operand h) (represents_span s)) fun _ => rfl
  | .binary left op right s, h => by
    obtain ⟨hleft, hright⟩ := storable_append.mp h
    exact .fields (.four Expr.binary (represents_expr left hleft) (represents_binaryOp op)
      (represents_expr right hright) (represents_span s)) fun _ => rfl
  | .cast operand type s, h =>
    .fields (.three Expr.cast (represents_expr operand h) (represents_type type) (represents_span s)) fun _ => rfl
  | .field object name s, h =>
    .fields (.three Expr.field (represents_expr object h) (represents_ident name) (represents_span s)) fun _ => rfl
  | .index object position s, h => by
    obtain ⟨hobject, hposition⟩ := storable_append.mp h
    exact .fields (.three Expr.index (represents_expr object hobject) (represents_expr position hposition)
      (represents_span s)) fun _ => rfl
  | .function signature body s, h =>
    .fields (.three Expr.function (represents_signature signature) (represents_scope body h) (represents_span s))
      fun _ => rfl
  | .call callee arguments s, h => by
    obtain ⟨hcallee, harguments⟩ := storable_append.mp h
    exact .fields (.three Expr.call (represents_expr callee hcallee)
      (.list (represents_exprs arguments harguments) fun _ => rfl) (represents_span s)) fun _ => rfl
  | .ident name, _ => .variant Expr.ident (represents_ident name) rfl fun _ => rfl
  | .literal value s, h =>
    .fields (.two Expr.literal (represents_literal value (h.exact value (by simp [Expr.literals])))
      (represents_span s)) fun _ => rfl
  | .bool value s, _ => .tuple (.two Expr.bool (represents_bool value) (represents_span s)) fun _ => rfl
  | .array none element elements s, h =>
    .fields (.four Expr.array (.absent expr) (represents_type element)
      (.list (represents_exprs elements h) fun _ => rfl) (represents_span s)) fun _ => rfl
  | .array (some count) element elements s, h => by
    obtain ⟨hcount, helements⟩ := storable_append.mp h
    exact .fields (.four Expr.array ((represents_expr count hcount).nullable expr_null) (represents_type element)
      (.list (represents_exprs elements helements) fun _ => rfl) (represents_span s)) fun _ => rfl

/-- Expressions are read back without their links. -/
theorem represents_exprs : ∀ es : List Expr, Storable (Expr.listLiterals es) (Expr.listIds es) →
    List.Forall₂ (Represents expr) (ofExprs es) (Expr.clearedList es)
  | [], _ => .nil
  | e :: rest, h =>
    .cons (represents_expr e (storable_append.mp h).1) (represents_exprs rest (storable_append.mp h).2)

/-- A statement is read back without its links. -/
theorem represents_stmt : ∀ s : Stmt, Storable s.literals s.ids → Represents stmt (ofStmt s) s.cleared
  | .declaration id s, h =>
    .tuple (.two Stmt.declaration (represents_declId (h.fits id (by simp [Stmt.ids]))) (represents_span s))
      fun _ => rfl
  | .increment target s, h => .tuple (.two Stmt.increment (represents_expr target h) (represents_span s)) fun _ => rfl
  | .decrement target s, h => .tuple (.two Stmt.decrement (represents_expr target h) (represents_span s)) fun _ => rfl
  | .assign op target value s, h => by
    obtain ⟨htarget, hvalue⟩ := storable_append.mp h
    exact .fields (.four Stmt.assign (represents_assignOp op) (represents_expr target htarget)
      (represents_expr value hvalue) (represents_span s)) fun _ => rfl
  | .expr value, h => .variant Stmt.expr (represents_expr value h) rfl fun _ => rfl
  | .label name, _ => .variant Stmt.label (represents_ident name) rfl fun _ => rfl
  | .goto name, _ => .variant Stmt.goto (represents_ident name) rfl fun _ => rfl
  | .returning none s, _ => .fields (.two Stmt.returning (.absent expr) (represents_span s)) fun _ => rfl
  | .returning (some value) s, h =>
    .fields (.two Stmt.returning ((represents_expr value h).nullable expr_null) (represents_span s)) fun _ => rfl

/-- A scope is read back without its links. -/
theorem represents_scope : ∀ s : Scope, Storable s.literals s.ids → Represents scope (ofScope s) s.cleared
  | .statement stmt, h => .variant Scope.statement (represents_stmt stmt h) rfl fun _ => rfl
  | .block scopes s, h =>
    .fields (.two Scope.block (.list (represents_scopes scopes h) fun _ => rfl) (represents_span s)) fun _ => rfl
  | .conditional condition consequent none s, h => by
    obtain ⟨hcondition, hconsequent⟩ := storable_append.mp h
    exact .fields (.four Scope.conditional (represents_expr condition hcondition)
      (represents_scope consequent hconsequent) (.absent scope) (represents_span s)) fun _ => rfl
  | .conditional condition consequent (some alternative) s, h => by
    obtain ⟨hboth, halternative⟩ := storable_append.mp h
    obtain ⟨hcondition, hconsequent⟩ := storable_append.mp hboth
    exact .fields (.four Scope.conditional (represents_expr condition hcondition)
      (represents_scope consequent hconsequent) ((represents_scope alternative halternative).nullable scope_null)
      (represents_span s)) fun _ => rfl
  | .forLoop init condition step body s, h => by
    obtain ⟨hhead, hbody⟩ := storable_append.mp h
    obtain ⟨hstart, hstep⟩ := storable_append.mp hhead
    obtain ⟨hinit, hcondition⟩ := storable_append.mp hstart
    exact .fields (.five Scope.forLoop (represents_stmt init hinit) (represents_expr condition hcondition)
      (represents_stmt step hstep) (represents_scope body hbody) (represents_span s)) fun _ => rfl
  | .whileLoop condition body s, h => by
    obtain ⟨hcondition, hbody⟩ := storable_append.mp h
    exact .fields (.three Scope.whileLoop (represents_expr condition hcondition) (represents_scope body hbody)
      (represents_span s)) fun _ => rfl
  | .forEach element iterable body s, h => by
    obtain ⟨hiterable, hbody⟩ := storable_append.mp h
    exact .fields (.four Scope.forEach (represents_ident element) (represents_expr iterable hiterable)
      (represents_scope body hbody) (represents_span s)) fun _ => rfl
  | .matching subject arms s, h => by
    obtain ⟨hsubject, harms⟩ := storable_append.mp h
    exact .fields (.three Scope.matching (represents_expr subject hsubject)
      (.list (represents_arms arms harms) fun _ => rfl) (represents_span s)) fun _ => rfl

/-- Scopes are read back without their links. -/
theorem represents_scopes : ∀ ss : List Scope, Storable (Scope.listLiterals ss) (Scope.listIds ss) →
    List.Forall₂ (Represents scope) (ofScopes ss) (Scope.clearedList ss)
  | [], _ => .nil
  | s :: rest, h =>
    .cons (represents_scope s (storable_append.mp h).1) (represents_scopes rest (storable_append.mp h).2)

/-- The cases of a match are read back without their links. -/
theorem represents_arms : ∀ arms : List (Arm Scope), Storable (Scope.armLiterals arms) (Scope.armIds arms) →
    List.Forall₂ (Represents arm) (ofArms arms) (Scope.clearedArms arms)
  | [], _ => .nil
  | ⟨name, scopes, s⟩ :: rest, h =>
    .cons (.record (.three Arm.mk (represents_ident name)
      (.list (represents_scopes scopes (storable_append.mp h).1) fun _ => rfl) (represents_span s)) fun _ => rfl)
      (represents_arms rest (storable_append.mp h).2)

end

/-- Nodes that are represented one by one are represented in a row. -/
theorem represents_list {α β : Type} {part : Decoder β} {encode : α → Json} {result : α → β} {nodes : List α}
    (h : ∀ n ∈ nodes, Represents part (encode n) (result n)) :
    Represents (list part) (.array (nodes.map encode)) (nodes.map result) := by
  refine .list ?_ fun _ => rfl
  rw [List.forall₂_map_left_iff, List.forall₂_map_right_iff, List.forall₂_same]
  exact h

/-- The kind of a variable stands one variant further in. -/
theorem Represents.variable {content : Json} {kind : DeclKind} (h : Represents variableKind content kind) :
    Represents declKind (tagged "Var" content) kind :=
  .variant id h rfl fun _ => (bind_pure _).symm

/-- What is declared is read back without its links. -/
theorem represents_declKind (kind : DeclKind) (h : Storable kind.literals kind.ids) :
    Represents declKind (ofDeclKind kind) kind.cleared := by
  cases kind with
  | constant type value =>
    have hcleared : (DeclKind.constant type value).cleared = .constant (type.map TypeExpr.cleared) value.cleared := by
      cases type <;> rfl
    rw [hcleared]
    exact .variable (.fields (.two DeclKind.constant (represents_optionType type) (represents_expr value h))
      fun _ => rfl)
  | mutable type value =>
    cases value with
    | none => exact .variable (.fields (.two DeclKind.mutable (represents_type type) (.absent expr)) fun _ => rfl)
    | some value =>
      exact .variable (.fields (.two DeclKind.mutable (represents_type type)
        ((represents_expr value h).nullable expr_null)) fun _ => rfl)
  | enumeration members =>
    have hmembers := represents_list fun i (_ : i ∈ members) => represents_ident i
    rw [List.map_id'] at hmembers
    exact .fields (.one DeclKind.enumeration hmembers) fun _ => rfl
  | record kind members =>
    have hmembers : Represents slots (.array (ofSlots members)) (TypeExpr.clearedSlots members) :=
      .list (represents_slots members) fun _ => rfl
    cases kind with
    | struct => exact .fields (.one (DeclKind.record .struct) hmembers) fun _ => rfl
    | union => exact .fields (.one (DeclKind.record .union) hmembers) fun _ => rfl
  | sum members =>
    have hmembers := represents_list fun slot (_ : slot ∈ members) => represents_sumSlot slot
    exact .fields (.one DeclKind.sum hmembers) fun _ => rfl

/-- A declaration is read back untouched and without its links. -/
theorem represents_declaration (d : Declaration) (h : Storable d.kind.literals d.kind.ids) :
    Represents declaration (ofDeclaration d) d.cleared :=
  .record ((Joins.three (Declaration.mk · · · .untouched) (represents_ident d.name) (represents_declKind d.kind h)
    (represents_span d.span)).passing rfl) fun _ => rfl

/-- A file is read back with its declarations untouched and without their links. -/
theorem represents_sourceFile (file : SourceFile) (h : Storable file.literals file.ids) :
    Represents sourceFile (ofSourceFile file) file.cleared := by
  have hdeclarations := represents_list fun d (hd : d ∈ file.declarations) =>
    represents_declaration d ⟨fun l hl => h.exact l (List.mem_flatMap.mpr ⟨d, hd, hl⟩),
      fun id hid => h.fits id (List.mem_append_right _ (List.mem_flatMap.mpr ⟨d, hd, hid⟩))⟩
  have hitems := represents_list fun id (hid : id ∈ file.items) =>
    represents_declId (h.fits id (List.mem_append_left _ hid))
  rw [List.map_id'] at hitems
  exact .record (.two SourceFile.mk hdeclarations hitems) fun _ => rfl

end Document

end DeclTree

import SearchSpace.Proofs.Json.Documents
import SearchSpace.Proofs.Json.Restyling

/-!
# Reading ignores presentation

Documents are read from their texts however these are presented: the members of records may come in
any order, among unknown ones, and some of them not at all; records may be written without the names
of their fields, sets with repetitions and in any order, and white space may stand between any two
tokens.

## Main Definitions

* `Catalogue.shape`, `Options.shape` and those of their parts: where the presentation of a document
  is free.
* `Json.IsPresentedAs`: a text presents a document.

## Main Statements

* `Catalogue.ignores`, `Options.ignores` and those of their parts: one step.
* `Json.documents_read_from_presentations`: documents of all kinds, after any number of steps.
-/

namespace SearchSpace

open Json
open Json.Value (IsWritable)
open Relation (ReflTransGen)

/-! ### Shapes of documents -/

/-- What may be left out of a schema or a catalogue. -/
def Json.emptyList : Option Value := some (.array [])

/-- The shape of intervals of both kinds. -/
def Json.intervalShape : Shape :=
  .record [("low", none, .plain), ("high", none, .plain), ("log_scale", none, .plain)]

/-- The shape of a list of values, whose order matters. -/
def ValueList.shape : Shape :=
  .record [("values", none, .plain), ("default_index", none, .plain)]

/-- The shape of a domain. -/
def Domain.shape : Shape :=
  .alternative [("Float", intervalShape), ("Int", intervalShape),
    ("Categorical", ValueList.shape)]

/-- The shape of a parameter. -/
def Parameter.shape : Shape :=
  .record [("name", none, .plain), ("distribution", none, Domain.shape)]

/-- The shape of a condition. -/
def Condition.shape : Shape :=
  .record [("child", none, .plain), ("parent", none, .plain), ("active_values", none, .set)]

/-- The shape of a schema, whose two lists may be left out when they are empty. -/
def Schema.shape : Shape :=
  .record [("class_name", none, .plain), ("params", emptyList, .list Parameter.shape),
    ("conditionals", emptyList, .list Condition.shape)]

/-- The shape of a catalogue, in which everything that is empty may be left out. -/
def Catalogue.shape : Shape :=
  .record [("base", emptyList, .list Schema.shape), ("meta", emptyList, .list Schema.shape),
    ("ensemble", emptyList, .list Schema.shape),
    ("attribute_search", emptyList, .list Schema.shape),
    ("attribute_eval", emptyList, .list Schema.shape)]

/-- The shape of an allow-list. -/
def AllowList.shape : Shape := .alternative [("Only", .set)]

/-- The shape of options, in which everything that is standard may be left out. -/
def Options.shape : Shape :=
  .record [("include_base", some (.bool standard.includeBase), .plain),
    ("include_meta", some (.bool standard.includeWrapper), .plain),
    ("include_ensemble", some (.bool standard.includeEnsemble), .plain),
    ("ensemble_max_size", some (ofUInt64 standard.ensembleMaxSize), .plain),
    ("attribute_selection", some (.bool standard.attributeSelection), .plain),
    ("attribute_time_budget_secs", some (ofUInt64 standard.attributeTimeBudget), .plain),
    ("allow_list", some standard.allow.toJson, AllowList.shape)]

/-! ### One step -/

/-- A list of texts is read as the set of them. -/
theorem NameSet.ofJson?_texts (texts : List String) :
    ofJson? (.array (texts.map .text)) = some (ofList texts) := by
  have listed : IsFaithful (fun texts => .array (texts.map .text)) (Value.list? Value.text?)
      texts :=
    isFaithful_array fun text _ => isFaithful_text text
  exact Option.map_eq_some_iff.mpr ⟨texts, listed.decoded, rfl⟩

theorem NameSet.ignores : Ignores ofJson? .set := by
  intro value restyled step
  cases step with
  | @relist texts others same =>
      have members : ofList texts = ofList others :=
        ext_mem fun text => by rw [mem_toList_ofList, mem_toList_ofList, same]
      rw [ofJson?_texts, ofJson?_texts, members]
      exact .refl _

/-- Intervals are read alike, whatever their bounds are. -/
theorem Json.ignores_interval {α β : Type} (bound? : Value → Option β) (make : β → β → Bool → α) :
    Ignores (fun value => do
      let field ← value.record? ["low", "high", "log_scale"]
      let low ← required bound? (field "low")
      let high ← required bound? (field "high")
      let logScale ← required Value.bool? (field "log_scale")
      return make low high logScale) intervalShape := by
  refine ignores_record (by decide) fun find found kept => ?_
  simp only [FieldsKept, List.forall_mem_cons] at kept
  obtain ⟨low, high, logScale, -⟩ := kept
  exact .bind (low.required ignores_plain) fun _ => .bind (high.required ignores_plain) fun _ =>
    .bind (logScale.required ignores_plain) fun _ => .refl _

theorem RealInterval.ignores : Ignores ofJson? intervalShape :=
  ignores_interval Value.binary64? mk

theorem IntegerInterval.ignores : Ignores ofJson? intervalShape :=
  ignores_interval Value.int64? mk

theorem ValueList.ignores : Ignores ofJson? shape := by
  refine ignores_record (by decide) fun find found kept => ?_
  simp only [FieldsKept, List.forall_mem_cons] at kept
  obtain ⟨values, index, -⟩ := kept
  exact .bind (values.required ignores_plain) fun _ =>
    .bind (index.required ignores_plain) fun _ => .refl _

theorem Domain.ignores : Ignores ofJson? shape := by
  intro value restyled step
  cases step with
  | content known inside =>
      simp only [List.mem_cons, Prod.mk.injEq, List.not_mem_nil, or_false] at known
      rcases known with ⟨rfl, rfl⟩ | ⟨rfl, rfl⟩ | ⟨rfl, rfl⟩
      · exact (RealInterval.ignores _ _ inside).map Domain.real
      · exact (IntegerInterval.ignores _ _ inside).map Domain.integer
      · exact (ValueList.ignores _ _ inside).map Domain.categorical

theorem Parameter.ignores : Ignores ofJson? shape := by
  refine ignores_record (by decide) fun find found kept => ?_
  simp only [FieldsKept, List.forall_mem_cons] at kept
  obtain ⟨name, domain, -⟩ := kept
  exact .bind (name.required ignores_plain) fun _ =>
    .bind (domain.required Domain.ignores) fun _ => .refl _

theorem Condition.ignores : Ignores ofJson? shape := by
  refine ignores_record (by decide) fun find found kept => ?_
  simp only [FieldsKept, List.forall_mem_cons] at kept
  obtain ⟨child, parent, values, -⟩ := kept
  exact .bind (child.required ignores_plain) fun _ =>
    .bind (parent.required ignores_plain) fun _ =>
    .bind (values.required NameSet.ignores) fun _ => .refl _

theorem Schema.ignores : Ignores ofJson? shape := by
  refine ignores_record (by decide) fun find found kept => ?_
  simp only [FieldsKept, List.forall_mem_cons] at kept
  obtain ⟨className, params, conditions, -⟩ := kept
  exact .bind (className.required ignores_plain) fun _ =>
    .bind (params.optional (ignores_list Parameter.ignores) rfl) fun _ =>
    .bind (conditions.optional (ignores_list Condition.ignores) rfl) fun _ => .refl _

theorem Catalogue.ignores : Ignores ofJson? shape := by
  refine ignores_record (by decide) fun find found kept => ?_
  simp only [FieldsKept, List.forall_mem_cons] at kept
  obtain ⟨base, wrapper, ensemble, attributeSearch, attributeEval, -⟩ := kept
  have schemas := ignores_list Schema.ignores
  exact .bind (base.optional schemas rfl) fun _ => .bind (wrapper.optional schemas rfl) fun _ =>
    .bind (ensemble.optional schemas rfl) fun _ =>
    .bind (attributeSearch.optional schemas rfl) fun _ =>
    .bind (attributeEval.optional schemas rfl) fun _ => .refl _

theorem AllowList.ignores : Ignores ofJson? shape := by
  intro value restyled step
  cases step with
  | content known inside =>
      simp only [List.mem_cons, Prod.mk.injEq, List.not_mem_nil, or_false] at known
      obtain ⟨rfl, rfl⟩ := known
      exact (NameSet.ignores _ _ inside).map AllowList.only

theorem Options.ignores : Ignores ofJson? shape := by
  refine ignores_record (by decide) fun find found kept => ?_
  simp only [FieldsKept, List.forall_mem_cons] at kept
  obtain ⟨base, wrapper, ensemble, slots, selection, budget, allow, -⟩ := kept
  exact .bind (base.optional ignores_plain rfl) fun _ =>
    .bind (wrapper.optional ignores_plain rfl) fun _ =>
    .bind (ensemble.optional ignores_plain rfl) fun _ =>
    .bind (slots.optional ignores_plain (uint64?_ofUInt64 _)) fun _ =>
    .bind (selection.optional ignores_plain rfl) fun _ =>
    .bind (budget.optional ignores_plain (uint64?_ofUInt64 _)) fun _ =>
    .bind (allow.optional AllowList.ignores rfl) fun _ => .refl _

/-! ### Any number of steps -/

/-- A text presents a document: the document's value is restyled in any number of steps, and the
tokens of what comes out are spelled with any white space. -/
def Json.IsPresentedAs {α : Type} (shape : Shape) (toJson : α → Value) (document : α)
    (text : String) : Prop :=
  ∃ value, ReflTransGen (Restyles shape) (toJson document) value ∧
    Spells value.tokens text.toList

/-- Whatever white space a restyled value is written with, it presents the document. -/
theorem Json.isPresentedAs_write {α : Type} {shape : Shape} {toJson : α → Value} {document : α}
    {value : Value} {spacing : Spacing} (blank : spacing.IsBlank)
    (steps : ReflTransGen (Restyles shape) (toJson document) value) (writable : value.IsWritable) :
    IsPresentedAs shape toJson document (String.ofList (value.write spacing 0)) :=
  ⟨value, steps, by simpa using Value.spells_tokens_write blank writable 0⟩

theorem Json.IsFaithful.readDocument?_of_presented {α : Type} {shape : Shape} {toJson : α → Value}
    {ofJson? : Value → Option α} {document : α} {text : String}
    (faithful : IsFaithful toJson ofJson? document) (ignores : Ignores ofJson? shape)
    (presented : IsPresentedAs shape toJson document text) :
    readDocument? ofJson? text = some document := by
  obtain ⟨value, steps, spelled⟩ := presented
  rw [readDocument?, Value.read?_of_spells spelled, Option.bind_some]
  exact ignores.read?_of_steps steps document faithful.decoded

/-- **Documents of all kinds are read from every text that presents them.** -/
theorem Json.documents_read_from_presentations :
    (∀ catalogue : Catalogue, AreReadBack catalogue.bounds → ∀ text,
      IsPresentedAs Catalogue.shape Catalogue.toJson catalogue text →
        readDocument? Catalogue.ofJson? text = some catalogue) ∧
    (∀ schema : Schema, AreReadBack schema.bounds → ∀ text,
      IsPresentedAs Schema.shape Schema.toJson schema text →
        readDocument? Schema.ofJson? text = some schema) ∧
    (∀ parameter : Parameter, AreReadBack parameter.bounds → ∀ text,
      IsPresentedAs Parameter.shape Parameter.toJson parameter text →
        readDocument? Parameter.ofJson? text = some parameter) ∧
    (∀ (condition : Condition) (text : String),
      IsPresentedAs Condition.shape Condition.toJson condition text →
        readDocument? Condition.ofJson? text = some condition) ∧
    ∀ (options : Options) (text : String),
      IsPresentedAs Options.shape Options.toJson options text →
        readDocument? Options.ofJson? text = some options := by
  refine ⟨fun catalogue bounds text => ?_, fun schema bounds text => ?_,
    fun parameter bounds text => ?_, fun condition text => ?_, fun options text => ?_⟩
  · exact (Catalogue.isFaithful bounds).readDocument?_of_presented Catalogue.ignores
  · exact (Schema.isFaithful bounds).readDocument?_of_presented Schema.ignores
  · exact (Parameter.isFaithful bounds).readDocument?_of_presented Parameter.ignores
  · exact condition.isFaithful.readDocument?_of_presented Condition.ignores
  · exact options.isFaithful.readDocument?_of_presented Options.ignores

/-- A schema with one parameter and no conditions. -/
def smallSchema : Schema where
  className := "Bagging"
  surface := { params := [smallParameter], conditions := [] }

/-- The interval of that parameter, without names. -/
def styledInterval : Value :=
  .array [ofBinary64 (.ofQuotient false 1 10000000), ofBinary64 (.ofQuotient false 1 10),
    .bool true]

/-- The parameter with an unknown member in front, and its fields in reverse order. -/
def styledParameter : Value :=
  .record [("note", .null), ("distribution", .record [("Float", styledInterval)]),
    ("name", .text "small")]

/-- A schema without names, and without the list that is empty. -/
def styledSchema : Value := .array [.text "Bagging", .array [styledParameter]]

/-- A catalogue without the lists that are empty. -/
def styledCatalogue : Value := .record [("meta", .array [styledSchema])]

/-- A condition without names, with a value that is listed twice. -/
def styledCondition : Value :=
  .array [.text "exponent", .text "kernel", .array (["rbf", "poly", "rbf"].map .text)]

/-- Options without all that is standard. -/
def styledOptions : Value :=
  .record [("ensemble_max_size", ofUInt64 2), ("attribute_selection", .bool true)]

theorem documents_read_from_presentations_styled :
    readDocument? Catalogue.ofJson? styledCatalogue.pretty =
        some (Catalogue.empty.add .wrapper smallSchema) ∧
      readDocument? Schema.ofJson? styledSchema.compact = some smallSchema ∧
      readDocument? Parameter.ofJson? styledParameter.compact = some smallParameter ∧
      readDocument? Condition.ofJson? styledCondition.pretty =
        some ⟨"exponent", "kernel", .ofList ["poly", "rbf"]⟩ ∧
      readDocument? Options.ofJson? styledOptions.pretty =
        some { Options.standard with ensembleMaxSize := 2, attributeSelection := true } := by
  have bounds : AreReadBack smallParameter.bounds := by
    unfold AreReadBack
    decide +kernel
  have parameterSteps :
      ReflTransGen (Restyles Parameter.shape) smallParameter.toJson styledParameter :=
    .head (@Restyles.member _ [_] [] _ _ _ _ _ (.tail _ (.head _))
      (.content (.head _) (.dropNames List.prefix_rfl))) <|
    .head (.permute (List.Perm.swap ..)) <|
    .single (@Restyles.addMember _ [] _ "note" (by decide) .null)
  have schemaSteps : ReflTransGen (Restyles Schema.shape) smallSchema.toJson styledSchema :=
    .trans (parameterSteps.lift _ fun _ _ inside => @Restyles.member _ [_] _ _ _ _ _ _
      (.tail _ (.head _)) (@Restyles.item _ [] [] _ _ inside)) <|
    .head (@Restyles.leaveOut _ [_, _] [] _ _ _ (.tail _ (.tail _ (.head _)))) <|
    .single (@Restyles.dropNames _ [("class_name", _), ("params", _)] (by decide))
  have catalogueSteps : ReflTransGen (Restyles Catalogue.shape)
      (Catalogue.empty.add .wrapper smallSchema).toJson styledCatalogue :=
    .trans (schemaSteps.lift _ fun _ _ inside => @Restyles.member _ [_] _ _ _ _ _ _
      (.tail _ (.head _)) (@Restyles.item _ [] [] _ _ inside)) <|
    .head (@Restyles.leaveOut _ [] _ _ _ _ (.head _)) <|
    .head (@Restyles.leaveOut _ [_] _ _ _ _ (List.mem_of_getElem? (i := 2) rfl)) <|
    .head (@Restyles.leaveOut _ [_] _ _ _ _ (List.mem_of_getElem? (i := 3) rfl)) <|
    .single (@Restyles.leaveOut _ [_] _ _ _ _ (List.mem_of_getElem? (i := 4) rfl))
  have sameValues : ∀ value,
      value ∈ (NameSet.ofList ["poly", "rbf"]).toList ↔ value ∈ ["rbf", "poly", "rbf"] := by
    simp [or_comm]
  have conditionSteps : ReflTransGen (Restyles Condition.shape)
      (Condition.toJson ⟨"exponent", "kernel", .ofList ["poly", "rbf"]⟩) styledCondition :=
    .head (@Restyles.dropNames _ [("child", _), ("parent", _), ("active_values", _)]
      List.prefix_rfl) <|
    .single (@Restyles.position _ [_, _] [] _ _ _ _ _ rfl (.relist sameValues))
  have optionsSteps : ReflTransGen (Restyles Options.shape) (Options.toJson
      { Options.standard with ensembleMaxSize := 2, attributeSelection := true }) styledOptions :=
    .head (@Restyles.leaveOut _ [] _ _ _ _ (.head _)) <|
    .head (@Restyles.leaveOut _ [] _ _ _ _ (.tail _ (.head _))) <|
    .head (@Restyles.leaveOut _ [] _ _ _ _ (.tail _ (.tail _ (.head _)))) <|
    .head (@Restyles.leaveOut _ [_, _] _ _ _ _ (List.mem_of_getElem? (i := 5) rfl)) <|
    .single (@Restyles.leaveOut _ [_, _] _ _ _ _ (List.mem_of_getElem? (i := 6) rfl))
  have low := (isFaithful_ofBinary64 (bounds _ (.head _)).1 (bounds _ (.head _)).2).writable
  have high := (isFaithful_ofBinary64 (bounds _ (.tail _ (.head _))).1
    (bounds _ (.tail _ (.head _))).2).writable
  have interval : styledInterval.IsWritable := by
    simp [styledInterval, low, high, IsWritable.array, IsWritable.bool]
  have parameter : styledParameter.IsWritable := by
    simp [styledParameter, interval, IsWritable.record, IsWritable.null, IsWritable.text]
  have schema : styledSchema.IsWritable := by
    simp [styledSchema, parameter, IsWritable.array, IsWritable.text]
  have catalogue : styledCatalogue.IsWritable := by
    simp [styledCatalogue, schema, IsWritable.array, IsWritable.record]
  have condition : styledCondition.IsWritable := by
    simp [styledCondition, IsWritable.array, IsWritable.text]
  have options : styledOptions.IsWritable := by
    simp [styledOptions, (isFaithful_ofUInt64 2).writable, IsWritable.record, IsWritable.bool]
  obtain ⟨catalogues, schemas, parameters, conditions, allOptions⟩ :=
    Json.documents_read_from_presentations
  exact ⟨catalogues (Catalogue.empty.add .wrapper smallSchema) bounds _
      (isPresentedAs_write Spacing.isBlank_indented catalogueSteps catalogue),
    schemas smallSchema bounds _ (isPresentedAs_write Spacing.isBlank_none schemaSteps schema),
    parameters _ bounds _ (isPresentedAs_write Spacing.isBlank_none parameterSteps parameter),
    conditions _ _ (isPresentedAs_write Spacing.isBlank_indented conditionSteps condition),
    allOptions _ _ (isPresentedAs_write Spacing.isBlank_indented optionsSteps options)⟩

end SearchSpace

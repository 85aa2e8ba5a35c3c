import SearchSpace.Proofs.Json.Numbers
import SearchSpace.Proofs.Json.Reading
import SearchSpace.Proofs.Json.Records
import SearchSpace.Proofs.Store.Replacement
import SearchSpace.Store.Document

/-!
# Documents are read back

Catalogues, options and all their parts are read back from the texts that are written of them, with
and without white space.  Real bounds have to be finite, since no other number has a numeral, and to
be read back from their own texts.

## Main Definitions

* `Json.IsFaithful`: the JSON form of a document can be written and denotes the document.
* `Json.AreReadBack`: what is wanted of the real bounds in a document.
* `Json.RoundTrips`: a document is read back from its texts.

## Main Statements

* `Catalogue.isFaithful`, `Options.isFaithful` and those of their parts.
* `Json.documents_round_trip`: documents of all kinds are read back.

## Design Notes

Faithfulness is put together like the documents: a record is faithful if its fields are, and a list
if its items are.  Nothing is said there about texts, which only matter once for all kinds.
-/

namespace SearchSpace

namespace Json

/-- The JSON form of a document can be written and denotes the document. -/
structure IsFaithful {α : Type} (toJson : α → Value) (ofJson? : Value → Option α) (document : α) :
    Prop where
  writable : (toJson document).IsWritable
  decoded : ofJson? (toJson document) = some document

/-! ### Plain values -/

theorem isFaithful_text (content : String) : IsFaithful Value.text Value.text? content :=
  ⟨.text content, rfl⟩

theorem isFaithful_bool (value : Bool) : IsFaithful Value.bool Value.bool? value :=
  ⟨.bool value, rfl⟩

theorem isFaithful_ofUInt64 (word : UInt64) : IsFaithful ofUInt64 Value.uint64? word :=
  ⟨.number (Numeral.isProper_ofInt _), uint64?_ofUInt64 word⟩

theorem isFaithful_ofInt64 (word : Int64) : IsFaithful ofInt64 Value.int64? word :=
  ⟨.number (Numeral.isProper_ofInt _), int64?_ofInt64 word⟩

theorem isFaithful_ofBinary64 {number : Binary64} (finite : number.isFinite = true)
    (readBack : IsReadBack number) : IsFaithful ofBinary64 Value.binary64? number where
  writable := by
    cases number with
    | nan => exact .null
    | signed negative rank =>
        rw [ofBinary64, if_pos (of_decide_eq_true finite)]
        exact .number (NumeralFormat.isProper_numeral _)
  decoded := binary64?_ofBinary64 finite readBack

/-- Lists are read back if their items are. -/
theorem isFaithful_array {α : Type} {toJson : α → Value} {ofJson? : Value → Option α}
    {documents : List α} (each : ∀ document ∈ documents, IsFaithful toJson ofJson? document) :
    IsFaithful (fun documents => .array (documents.map toJson)) (Value.list? ofJson?)
      documents where
  writable := by
    refine .array fun item member => ?_
    obtain ⟨document, among, rfl⟩ := List.mem_map.mp member
    exact (each document among).writable
  decoded := by
    induction documents with
    | nil => rfl
    | cons document documents ih =>
        have others := ih fun other member => each other (List.mem_cons_of_mem _ member)
        simp only [Value.list?] at others ⊢
        rw [List.map_cons, List.mapM_cons, (each document List.mem_cons_self).decoded, others]
        rfl

/-! ### Records -/

section Fields

variable {α β : Type} {toJson : α → Value} {ofJson? : Value → Option α} {document : α}
variable {field : Option Value}

theorem IsFaithful.required (faithful : IsFaithful toJson ofJson? document)
    (found : field = some (toJson document)) : Json.required ofJson? field = some document := by
  rw [found, Json.required, faithful.decoded]

theorem IsFaithful.optional (faithful : IsFaithful toJson ofJson? document) {default : α}
    (found : field = some (toJson document)) :
    Json.optional default ofJson? field = some document := by
  rw [found, Json.optional, faithful.decoded]

/-- Once one part has been read, the others are. -/
theorem bind_of_eq_some {part : Option α} {next : α → Option β} {value : α} {result : β}
    (read : part = some value) (others : next value = some result) :
    (part >>= next) = some result := by
  rw [read]
  exact others

end Fields

end Json

open Json

/-! ### Documents -/

/-- Sets are read back from the list of their members. -/
theorem NameSet.isFaithful (set : NameSet) : IsFaithful toJson ofJson? set := by
  have listed : IsFaithful (fun names => .array (names.map .text)) (Value.list? Value.text?)
      set.toList :=
    isFaithful_array fun name _ => isFaithful_text name
  refine ⟨listed.writable, ?_⟩
  have decoded := listed.decoded
  simp only [NameSet.toJson, NameSet.ofJson?, decoded, Option.map_some, ofList_toList]

theorem RealInterval.isFaithful {interval : RealInterval}
    (low : IsFaithful ofBinary64 Value.binary64? interval.low)
    (high : IsFaithful ofBinary64 Value.binary64? interval.high) :
    IsFaithful toJson ofJson? interval := by
  have logScale := isFaithful_bool interval.logScale
  constructor
  · refine .record ?_
    simp only [List.forall_mem_cons]
    exact ⟨low.writable, high.writable, logScale.writable, List.forall_mem_nil _⟩
  · exact bind_of_eq_some (record?_record rfl (by decide)) <|
      bind_of_eq_some (low.required rfl) <| bind_of_eq_some (high.required rfl) <|
      bind_of_eq_some (logScale.required rfl) rfl

theorem IntegerInterval.isFaithful (interval : IntegerInterval) :
    IsFaithful toJson ofJson? interval := by
  have low := isFaithful_ofInt64 interval.low
  have high := isFaithful_ofInt64 interval.high
  have logScale := isFaithful_bool interval.logScale
  constructor
  · refine .record ?_
    simp only [List.forall_mem_cons]
    exact ⟨low.writable, high.writable, logScale.writable, List.forall_mem_nil _⟩
  · exact bind_of_eq_some (record?_record rfl (by decide)) <|
      bind_of_eq_some (low.required rfl) <| bind_of_eq_some (high.required rfl) <|
      bind_of_eq_some (logScale.required rfl) rfl

theorem ValueList.isFaithful (choices : ValueList) : IsFaithful toJson ofJson? choices := by
  have values : IsFaithful (fun values => .array (values.map .text)) (Value.list? Value.text?)
      choices.values :=
    isFaithful_array fun value _ => isFaithful_text value
  have index := isFaithful_ofUInt64 choices.defaultIndex
  constructor
  · refine .record ?_
    simp only [List.forall_mem_cons]
    exact ⟨values.writable, index.writable, List.forall_mem_nil _⟩
  · exact bind_of_eq_some (record?_record rfl (by decide)) <|
      bind_of_eq_some (values.required rfl) <| bind_of_eq_some (index.required rfl) rfl

/-- The real bounds that are held by a domain. -/
def Domain.bounds : Domain → List Binary64
  | .real interval => [interval.low, interval.high]
  | .integer _ | .categorical _ => []

/-- All of some numbers are finite and read back from their texts. -/
def Json.AreReadBack (bounds : List Binary64) : Prop :=
  ∀ bound ∈ bounds, bound.isFinite = true ∧ IsReadBack bound

theorem Domain.isFaithful {domain : Domain} (bounds : AreReadBack domain.bounds) :
    IsFaithful toJson ofJson? domain := by
  have alone : ∀ {name : String} {content : Value}, content.IsWritable →
      (Value.record [(name, content)]).IsWritable :=
    fun writable => .record (by simpa using writable)
  cases domain with
  | real interval =>
      obtain ⟨lowFinite, low⟩ := bounds interval.low (by simp [Domain.bounds])
      obtain ⟨highFinite, high⟩ := bounds interval.high (by simp [Domain.bounds])
      have faithful := RealInterval.isFaithful (isFaithful_ofBinary64 lowFinite low)
        (isFaithful_ofBinary64 highFinite high)
      refine ⟨alone faithful.writable, ?_⟩
      simp [toJson, ofJson?, Value.record, Value.alternative?, faithful.decoded]
  | integer interval =>
      have faithful := interval.isFaithful
      refine ⟨alone faithful.writable, ?_⟩
      simp [toJson, ofJson?, Value.record, Value.alternative?, faithful.decoded]
  | categorical choices =>
      have faithful := choices.isFaithful
      refine ⟨alone faithful.writable, ?_⟩
      simp [toJson, ofJson?, Value.record, Value.alternative?, faithful.decoded]

namespace Parameter

/-- The real bounds that are held by a parameter. -/
def bounds (parameter : Parameter) : List Binary64 := parameter.domain.bounds

theorem isFaithful {parameter : Parameter} (bounds : AreReadBack parameter.bounds) :
    IsFaithful toJson ofJson? parameter := by
  have name := isFaithful_text parameter.name
  have domain := Domain.isFaithful bounds
  constructor
  · refine .record ?_
    simp only [List.forall_mem_cons]
    exact ⟨name.writable, domain.writable, List.forall_mem_nil _⟩
  · exact bind_of_eq_some (record?_record rfl (by decide)) <|
      bind_of_eq_some (name.required rfl) <| bind_of_eq_some (domain.required rfl) rfl

end Parameter

theorem Condition.isFaithful (condition : Condition) : IsFaithful toJson ofJson? condition := by
  have child := isFaithful_text condition.child
  have parent := isFaithful_text condition.parent
  have values := condition.enablingValues.isFaithful
  constructor
  · refine .record ?_
    simp only [List.forall_mem_cons]
    exact ⟨child.writable, parent.writable, values.writable, List.forall_mem_nil _⟩
  · exact bind_of_eq_some (record?_record rfl (by decide)) <|
      bind_of_eq_some (child.required rfl) <| bind_of_eq_some (parent.required rfl) <|
      bind_of_eq_some (values.required rfl) rfl

namespace Schema

/-- The real bounds that are held by a schema. -/
def bounds (schema : Schema) : List Binary64 := schema.surface.params.flatMap Parameter.bounds

theorem isFaithful {schema : Schema} (bounds : AreReadBack schema.bounds) :
    IsFaithful toJson ofJson? schema := by
  have params : IsFaithful (fun params => .array (params.map Parameter.toJson))
      (Value.list? Parameter.ofJson?) schema.surface.params :=
    isFaithful_array fun parameter member => Parameter.isFaithful fun bound held =>
      bounds bound (List.mem_flatMap.mpr ⟨parameter, member, held⟩)
  have conditions : IsFaithful (fun conditions => .array (conditions.map Condition.toJson))
      (Value.list? Condition.ofJson?) schema.surface.conditions :=
    isFaithful_array fun condition _ => condition.isFaithful
  have className := isFaithful_text schema.className
  constructor
  · refine .record ?_
    simp only [List.forall_mem_cons]
    exact ⟨className.writable, params.writable, conditions.writable, List.forall_mem_nil _⟩
  · exact bind_of_eq_some (record?_record rfl (by decide)) <|
      bind_of_eq_some (className.required rfl) <| bind_of_eq_some (params.optional rfl) <|
      bind_of_eq_some (conditions.optional rfl) rfl

end Schema

theorem AllowList.isFaithful (allow : AllowList) : IsFaithful toJson ofJson? allow := by
  cases allow with
  | any => exact ⟨.text "Any", rfl⟩
  | only names =>
      have faithful := names.isFaithful
      refine ⟨.record (by simpa using faithful.writable), ?_⟩
      simp [toJson, ofJson?, Value.record, Value.alternative?, faithful.decoded]

namespace Catalogue

/-- The real bounds that are held by a catalogue. -/
def bounds (catalogue : Catalogue) : List Binary64 :=
  Role.all.flatMap fun role => (catalogue.schemas role).flatMap Schema.bounds

theorem isFaithful {catalogue : Catalogue} (bounds : AreReadBack catalogue.bounds) :
    IsFaithful toJson ofJson? catalogue := by
  have schemas : ∀ role ∈ Role.all, IsFaithful (fun schemas => .array (schemas.map Schema.toJson))
      (Value.list? Schema.ofJson?) (catalogue.schemas role) :=
    fun role among => isFaithful_array fun schema member => Schema.isFaithful fun bound held =>
      bounds bound (List.mem_flatMap.mpr
        ⟨role, among, List.mem_flatMap.mpr ⟨schema, member, held⟩⟩)
  have base := schemas .base (by decide)
  have wrapper := schemas .wrapper (by decide)
  have ensemble := schemas .ensemble (by decide)
  have attributeSearch := schemas .attributeSearch (by decide)
  have attributeEval := schemas .attributeEval (by decide)
  constructor
  · refine .record ?_
    simp only [List.forall_mem_cons]
    exact ⟨base.writable, wrapper.writable, ensemble.writable, attributeSearch.writable,
      attributeEval.writable, List.forall_mem_nil _⟩
  · exact bind_of_eq_some (record?_record rfl (by decide)) <|
      bind_of_eq_some (base.optional rfl) <| bind_of_eq_some (wrapper.optional rfl) <|
      bind_of_eq_some (ensemble.optional rfl) <| bind_of_eq_some (attributeSearch.optional rfl) <|
      bind_of_eq_some (attributeEval.optional rfl) rfl

end Catalogue

theorem Options.isFaithful (options : Options) : IsFaithful toJson ofJson? options := by
  have base := isFaithful_bool options.includeBase
  have wrapper := isFaithful_bool options.includeWrapper
  have ensemble := isFaithful_bool options.includeEnsemble
  have slots := isFaithful_ofUInt64 options.ensembleMaxSize
  have selection := isFaithful_bool options.attributeSelection
  have budget := isFaithful_ofUInt64 options.attributeTimeBudget
  have allow := options.allow.isFaithful
  constructor
  · refine .record ?_
    simp only [List.forall_mem_cons]
    exact ⟨base.writable, wrapper.writable, ensemble.writable, slots.writable, selection.writable,
      budget.writable, allow.writable, List.forall_mem_nil _⟩
  · exact bind_of_eq_some (record?_record rfl (by decide)) <|
      bind_of_eq_some (base.optional rfl) <| bind_of_eq_some (wrapper.optional rfl) <|
      bind_of_eq_some (ensemble.optional rfl) <| bind_of_eq_some (slots.optional rfl) <|
      bind_of_eq_some (selection.optional rfl) <| bind_of_eq_some (budget.optional rfl) <|
      bind_of_eq_some (allow.optional rfl) rfl

/-! ### Texts of documents -/

namespace Json

variable {α : Type} {toJson : α → Value} {ofJson? : Value → Option α} {document : α}

/-- The document that a JSON text denotes. -/
def readDocument? (ofJson? : Value → Option α) (text : String) : Option α :=
  (Value.read? text.toList).bind ofJson?

/-- A JSON text written anew: the text of the document that it denotes. -/
def rewritten? (toJson : α → Value) (ofJson? : Value → Option α) (write : Value → String)
    (text : String) : Option String :=
  (readDocument? ofJson? text).map fun document => write (toJson document)

/-- A document is read back from both of its texts, and writing it anew is idempotent. -/
structure RoundTrips (toJson : α → Value) (ofJson? : Value → Option α) (document : α) : Prop where
  compact : readDocument? ofJson? (toJson document).compact = some document
  pretty : readDocument? ofJson? (toJson document).pretty = some document
  /-- A text of the document that is written anew, and then once more, stays the same. -/
  settled : ∀ write ∈ [Value.compact, Value.pretty], ∀ text,
    readDocument? ofJson? text = some document →
      (rewritten? toJson ofJson? write text).bind (rewritten? toJson ofJson? write) =
        rewritten? toJson ofJson? write text

/-- Faithful documents are read back, with any blank spacing. -/
theorem IsFaithful.readDocument?_write (faithful : IsFaithful toJson ofJson? document)
    {spacing : Spacing} (blank : spacing.IsBlank) :
    readDocument? ofJson? (String.ofList ((toJson document).write spacing 0)) = some document := by
  simp [readDocument?, Value.read?_write blank faithful.writable, faithful.decoded]

theorem IsFaithful.roundTrips (faithful : IsFaithful toJson ofJson? document) :
    RoundTrips toJson ofJson? document := by
  have compact : readDocument? ofJson? (toJson document).compact = some document :=
    faithful.readDocument?_write Spacing.isBlank_none
  have pretty : readDocument? ofJson? (toJson document).pretty = some document :=
    faithful.readDocument?_write Spacing.isBlank_indented
  refine ⟨compact, pretty, fun write either text denotes => ?_⟩
  have readBack : readDocument? ofJson? (write (toJson document)) = some document := by
    rcases List.mem_pair.mp either with rfl | rfl
    · exact compact
    · exact pretty
  simp [rewritten?, denotes, readBack]

end Json

/-- A catalogue that was saved is loaded again. -/
theorem Store.loadCatalogue_of_saved {store next : Store} {path : Path} {catalogue : Catalogue}
    (roundTrips : RoundTrips Catalogue.toJson Catalogue.ofJson? catalogue)
    (saved : store.saveCatalogue path catalogue = (.ok (), next)) :
    next.loadCatalogue path = .ok catalogue := by
  have read := read_of_replaced saved
  have denotes := roundTrips.pretty
  simp only [readDocument?] at denotes
  simp only [loadCatalogue, read, denotes]

/-- **Documents of all kinds are read back from their texts**, whatever their strings, words, sets
and lists are, and a catalogue also from the file in which it was saved. -/
theorem Json.documents_round_trip :
    (∀ catalogue : Catalogue, AreReadBack catalogue.bounds →
      RoundTrips Catalogue.toJson Catalogue.ofJson? catalogue ∧
      ∀ (store next : Store) (path : Path), store.saveCatalogue path catalogue = (.ok (), next) →
        next.loadCatalogue path = .ok catalogue) ∧
    (∀ options, RoundTrips Options.toJson Options.ofJson? options) ∧
    (∀ allow, RoundTrips AllowList.toJson AllowList.ofJson? allow) ∧
    (∀ schema : Schema, AreReadBack schema.bounds →
      RoundTrips Schema.toJson Schema.ofJson? schema) ∧
    (∀ condition, RoundTrips Condition.toJson Condition.ofJson? condition) ∧
    (∀ domain : Domain, AreReadBack domain.bounds →
      RoundTrips Domain.toJson Domain.ofJson? domain) ∧
    ∀ parameter : Parameter, AreReadBack parameter.bounds →
      RoundTrips Parameter.toJson Parameter.ofJson? parameter := by
  refine ⟨fun catalogue bounds => ?_, fun options => options.isFaithful.roundTrips,
    fun allow => allow.isFaithful.roundTrips, fun schema bounds => ?_,
    fun condition => condition.isFaithful.roundTrips, fun domain bounds => ?_,
    fun parameter bounds => ?_⟩
  · have roundTrips := (Catalogue.isFaithful bounds).roundTrips
    exact ⟨roundTrips, fun _ _ _ saved => Store.loadCatalogue_of_saved roundTrips saved⟩
  · exact (Schema.isFaithful bounds).roundTrips
  · exact (Domain.isFaithful bounds).roundTrips
  · exact (Parameter.isFaithful bounds).roundTrips

/-- A parameter with bounds that are written with and without a power of ten. -/
def smallParameter : Parameter :=
  ⟨"small", .real ⟨.ofQuotient false 1 10000000, .ofQuotient false 1 10, true⟩⟩

/-- A schema with unusual names and with bounds that are small, large, negative and zero. -/
def unusualSchema : Schema where
  className := "tab\t\x01\"quoted\" \\ é 😀"
  surface := {
    params := [
      smallParameter,
      ⟨"large", .real ⟨.ofRank true 0, .ofQuotient false (Nat.pow 10 300) 1, false⟩⟩,
      ⟨"words", .integer ⟨Int64.minValue, Int64.maxValue, false⟩⟩,
      ⟨"", .categorical ⟨["", "\n"], 7⟩⟩]
    conditions := [⟨"words", "", .ofList ["\n", "", "\n"]⟩] }

/-- The catalogue of that schema. -/
def unusualCatalogue : Catalogue :=
  Catalogue.empty.add .base unusualSchema

theorem documents_round_trip_unusualCatalogue :
    Json.readDocument? Catalogue.ofJson? unusualCatalogue.toJson.pretty = some unusualCatalogue ∧
      (Store.empty.saveCatalogue ⟨[], "catalogue.json"⟩ unusualCatalogue).2.loadCatalogue
        ⟨[], "catalogue.json"⟩ = .ok unusualCatalogue ∧
      Json.readDocument? Schema.ofJson? unusualSchema.toJson.compact = some unusualSchema ∧
      Json.readDocument? Domain.ofJson? smallParameter.domain.toJson.compact =
        some smallParameter.domain ∧
      Json.readDocument? Parameter.ofJson? smallParameter.toJson.compact = some smallParameter := by
  have all : ∀ bounds ∈ [unusualCatalogue.bounds, unusualSchema.bounds, smallParameter.bounds],
      AreReadBack bounds := by
    unfold AreReadBack
    decide +kernel
  have replaced : ∀ text, (Store.empty.replace ⟨[], "catalogue.json"⟩ text).1 = .ok () :=
    fun _ => rfl
  obtain ⟨catalogues, -, -, schemas, -, domains, parameters⟩ := Json.documents_round_trip
  obtain ⟨roundTrips, loads⟩ := catalogues unusualCatalogue (all _ (by simp))
  exact ⟨roundTrips.pretty, loads Store.empty _ _ (Prod.ext (replaced _) rfl),
    (schemas unusualSchema (all _ (by simp))).compact,
    (domains smallParameter.domain (all smallParameter.bounds (by simp))).compact,
    (parameters smallParameter (all _ (by simp))).compact⟩

end SearchSpace

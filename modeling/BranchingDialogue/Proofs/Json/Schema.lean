import BranchingDialogue.Proofs.Flag.Order
import BranchingDialogue.Proofs.Json.Dialogue

/-! A schema is built from texts, single declarations and other schemas. However that is done, it
holds each flag where it was first declared and as it was last declared, and it is read from its
text as it was written if the numbers in it are. -/

namespace BranchingDialogue

open Json

/-! ## Declarations -/

private theorem FlagType.ofName?_name (flagType : FlagType) :
    ofName? flagType.name = some flagType := by
  cases flagType <;> rfl

private theorem ValueType.ofName?_name (valueType : ValueType) :
    ofName? valueType.name = some valueType := by
  cases valueType <;> rfl

namespace FlagDefinition

variable {definition : FlagDefinition}

def number? (definition : FlagDefinition) : Option Float :=
  match definition.defaultValue with
  | some (.number amount) => some amount
  | _ => none

def fieldSlots (definition : FlagDefinition) : List (String × Option Json) :=
  [("id", some (ofString definition.id)),
    ("name", some (ofString definition.name)),
    ("type", some (ofString definition.flagType.name)),
    ("valueType", definition.valueType.map fun valueType => ofString valueType.name),
    ("defaultValue", definition.defaultValue.map Value.toJson),
    ("category", definition.category.map ofString)]

theorem toJson_eq (definition : FlagDefinition) :
    definition.toJson = .object (record definition.fieldSlots) := by
  simp [toJson, record, fieldSlots, optionalMember]

theorem ofJson?_toJson (definition : FlagDefinition) :
    ofJson? definition.toJson = some definition := by
  have distinct : (definition.fieldSlots.map Prod.fst).Nodup := by simp [fieldSlots]
  have read : definition.toJson.fields fieldNames = some (present definition.fieldSlots) := by
    rw [toJson_eq]
    exact fields_record distinct (by simp [fieldSlots, fieldNames])
  have id : (present definition.fieldSlots).required "id" asString = some definition.id :=
    required_text distinct (by simp [fieldSlots])
  have name : (present definition.fieldSlots).required "name" asString = some definition.name :=
    required_text distinct (by simp [fieldSlots])
  have flagType : (present definition.fieldSlots).required "type"
      (fun value => (asName .direct value).bind FlagType.ofName?) = some definition.flagType := by
    have listed : ("type", some (ofString definition.flagType.name)) ∈ definition.fieldSlots := by
      simp [fieldSlots]
    refine required_present distinct ?_ listed
    exact definition.flagType.ofName?_name
  have valueType : (present definition.fieldSlots).optional "valueType"
      (fun value => (asName .direct value).bind ValueType.ofName?) =
        some definition.valueType := by
    have listed : ("valueType", definition.valueType.map fun valueType =>
        ofString valueType.name) ∈ definition.fieldSlots := by
      simp [fieldSlots]
    refine optional_present distinct ?_ (fun _ => by rintro ⟨⟩) listed
    exact ValueType.ofName?_name
  have defaultValue : (present definition.fieldSlots).optional "defaultValue" Value.ofJson? =
      some definition.defaultValue :=
    optional_present distinct Value.ofJson?_toJson Value.toJson_ne_null (by simp [fieldSlots])
  have category : (present definition.fieldSlots).optional "category" asString =
      some definition.category :=
    optional_text distinct (by simp [fieldSlots])
  simp [ofJson?, read, id, name, flagType, valueType, defaultValue, category]

theorem faithful (lasts : ∀ amount ∈ definition.number?, Survives amount) :
    Faithful 1 definition.toJson := by
  rw [toJson_eq]
  refine .record ?_
  simp only [fieldSlots, List.forall_mem_cons, Option.forall_mem_map, Option.mem_some_iff,
    forall_eq', List.not_mem_nil, false_implies, implies_true, and_true]
  refine ⟨.string _, .string _, .string _, fun _ _ => .string _, fun value isValue => ?_,
    fun _ _ => .string _⟩
  apply Value.faithful
  intro amount isNumber
  apply lasts
  rw [Option.mem_def] at isValue
  rw [number?, isValue, isNumber]
  rfl

end FlagDefinition

namespace FlagSchema

variable {schema : FlagSchema}

/-! ## Texts of schemas -/

def numbers (schema : FlagSchema) : List Float :=
  schema.definitions.filterMap FlagDefinition.number?

/-- A schema that keeps its declarations under their own ids is read from its text. -/
theorem IsKeyed.ofJson_pretty (keyed : schema.IsKeyed)
    (last : ∀ amount ∈ schema.numbers, Survives amount) :
    ofJson schema.toJson.pretty = .ok schema := by
  have document : Faithful 2 schema.toJson := by
    apply Faithful.map
    intro definition declared
    apply FlagDefinition.faithful
    intro amount isNumber
    exact last amount (List.mem_filterMap.mpr ⟨definition, declared, isNumber⟩)
  have decoded : (Json.read schema.toJson.pretty).bind (asList FlagDefinition.ofJson?) =
      some schema.definitions := by
    rw [read_pretty (hasKeys_of_isUsable document.usable), document.same, Option.bind_some]
    exact asList_map FlagDefinition.ofJson?_toJson schema.definitions
  rw [ofJson, decoded]
  dsimp only
  rw [keyed.ofDefinitions_definitions]
  rfl

end FlagSchema

/-! ## Schemas that are built -/

inductive SchemaBuild
  | empty
  | read (text : String)
  | insert (build : SchemaBuild) (definition : FlagDefinition)
  | merge (build other : SchemaBuild)

namespace SchemaBuild

def schema? : SchemaBuild → Option FlagSchema
  | .empty => some .empty
  | .read text => (FlagSchema.ofJson text).toOption
  | .insert build definition => build.schema?.map fun schema => schema.insert definition
  | .merge build other =>
      build.schema?.bind fun schema => other.schema?.map fun added => schema.merge added

def declared : SchemaBuild → List FlagDefinition
  | .empty => []
  | .read text => ((Json.read text).bind (asList FlagDefinition.ofJson?)).getD []
  | .insert build definition => build.declared ++ [definition]
  | .merge build other => build.declared ++ other.declared

private theorem isMadeOf_ofJson {text : String} {schema : FlagSchema}
    (read : FlagSchema.ofJson text = .ok schema) : schema.IsMadeOf (declared (.read text)) := by
  unfold FlagSchema.ofJson at read
  rw [declared]
  cases listed : (Json.read text).bind (asList FlagDefinition.ofJson?) with
  | none =>
      rw [listed] at read
      cases read
  | some definitions =>
      rw [listed] at read
      cases made : FlagSchema.ofDefinitions definitions with
      | error error =>
          simp only [made] at read
          cases read
      | ok other =>
          simp only [made] at read
          cases read
          exact FlagSchema.isMadeOf_of_ofDefinitions made

private theorem isMadeOf_schema? {build : SchemaBuild} {schema : FlagSchema}
    (built : build.schema? = some schema) : schema.IsMadeOf build.declared := by
  induction build generalizing schema with
  | empty =>
      cases built
      exact FlagSchema.isMadeOf_empty
  | read text =>
      rw [schema?] at built
      cases read : FlagSchema.ofJson text with
      | error error =>
          rw [read] at built
          cases built
      | ok other =>
          rw [read] at built
          cases built
          exact isMadeOf_ofJson read
  | insert build definition inductionHypothesis =>
      obtain ⟨before, builtBefore, rfl⟩ := Option.map_eq_some_iff.mp built
      exact (inductionHypothesis builtBefore).insert definition
  | merge build other inductionHypothesis otherHypothesis =>
      obtain ⟨before, builtBefore, merged⟩ := Option.bind_eq_some_iff.mp built
      obtain ⟨added, builtOther, rfl⟩ := Option.map_eq_some_iff.mp merged
      exact (inductionHypothesis builtBefore).merge (otherHypothesis builtOther)

end SchemaBuild

/-- A schema that is built has its flags in the order of their first declarations, as they were last
declared, and is read from its text if its numbers are finite and are read as they were written. A
list of declarations makes a schema of just these if their ids are distinct. Otherwise it is refused
for the first id that repeats an earlier one. -/
theorem schema_ordered_and_read_back :
    (∀ (build : SchemaBuild) (schema : FlagSchema), build.schema? = some schema →
      schema.IsMadeOf build.declared ∧
        ((∀ amount ∈ schema.numbers, amount.isFinite = true) →
          (∀ amount ∈ schema.numbers, amount.isFinite = true → Survives amount) →
          FlagSchema.ofJson schema.toJson.pretty = .ok schema)) ∧
    ∀ definitions : List FlagDefinition,
      ((∃ schema, FlagSchema.ofDefinitions definitions = .ok schema ∧
          schema.definitions = definitions) ↔
        (definitions.map FlagDefinition.id).Nodup) ∧
      ∀ id, FlagSchema.ofDefinitions definitions = .error (.duplicateFlag id) ↔
        FlagSchema.IsFirstRepeated definitions id := by
  constructor
  · intro build schema built
    have made := SchemaBuild.isMadeOf_schema? built
    refine ⟨made, fun finite readBack => made.keyed.ofJson_pretty ?_⟩
    intro amount listed
    exact readBack amount listed (finite amount listed)
  · intro definitions
    refine ⟨?_, fun id => FlagSchema.ofDefinitions_eq_error_iff⟩
    rw [← FlagSchema.exists_ofDefinitions_iff]
    constructor
    · rintro ⟨schema, made, -⟩
      exact ⟨schema, made⟩
    · rintro ⟨schema, made⟩
      exact ⟨schema, made, FlagSchema.definitions_of_ofDefinitions made⟩

/-- A text that declares a flag. -/
def tavernText : String :=
  "[\x7b\"id\":\"gold\",\"name\":\"Gold\",\"type\":\"stat\",\"defaultValue\":1.5\x7d]"

def tavernBuild : SchemaBuild :=
  .merge (.insert (.read tavernText) ⟨"met", "Met", .dialogue, none, none, none⟩)
    (.insert (.insert .empty ⟨"rank", "Rank", .title, some .string, some (.text "Squire"), some ""⟩)
      ⟨"gold", "Coins", .item, some .number, some (.number 2.25), none⟩)

def tavernSchema : FlagSchema :=
  ⟨.ofList
    [("gold", ⟨"gold", "Coins", .item, some .number, some (.number 2.25), none⟩),
      ("met", ⟨"met", "Met", .dialogue, none, none, none⟩),
      ("rank", ⟨"rank", "Rank", .title, some .string, some (.text "Squire"), some ""⟩)]⟩

theorem tavern_ordered_and_read_back :
    tavernBuild.schema? = some tavernSchema ∧ tavernSchema.numbers = [2.25] ∧
      (∀ amount ∈ tavernSchema.numbers, amount.isFinite = true) ∧
      (∀ amount ∈ tavernSchema.numbers, amount.isFinite = true → Survives amount) ∧
      tavernSchema.IsMadeOf tavernBuild.declared ∧
      FlagSchema.ofJson tavernSchema.toJson.pretty = .ok tavernSchema := by
  have built : tavernBuild.schema? = some tavernSchema := by decide +kernel
  have numbers : tavernSchema.numbers = [2.25] := by decide +kernel
  have finite : ∀ amount ∈ tavernSchema.numbers, amount.isFinite = true := by
    rw [numbers]
    decide +kernel
  have readBack : ∀ amount ∈ tavernSchema.numbers, amount.isFinite = true → Survives amount := by
    rw [numbers]
    decide +kernel
  obtain ⟨made, isRead⟩ := schema_ordered_and_read_back.1 tavernBuild tavernSchema built
  exact ⟨built, numbers, finite, readBack, made, isRead finite readBack⟩

end BranchingDialogue

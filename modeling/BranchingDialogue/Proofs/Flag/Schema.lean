import Mathlib.Data.List.Induction
import Mathlib.Data.List.Nodup
import BranchingDialogue.Flag.Store
import BranchingDialogue.Proofs.Keyed.Ordered
import BranchingDialogue.Proofs.Keyed.Sorted

/-! A schema that is made of declarations keeps each of them under its own id. Its defaults then
belong to declared persistent flags, which are the flags whose values go back to the game. -/

namespace BranchingDialogue

theorem OrderedMap.mem_putIn {α : Type} {name : String} {value : α} {entry : String × α}
    {entries : List (String × α)} (member : entry ∈ putIn name value entries) :
    entry = (name, value) ∨ entry ∈ entries := by
  induction entries with
  | nil => simpa [putIn] using member
  | cons head entries inductionHypothesis =>
      obtain ⟨other, old⟩ := head
      rw [putIn] at member
      split at member
      · exact (List.mem_cons.mp member).imp_right (List.mem_cons_of_mem _)
      · rcases List.mem_cons.mp member with isHead | inRest
        · exact Or.inr (isHead ▸ List.mem_cons_self)
        · exact (inductionHypothesis inRest).imp_right (List.mem_cons_of_mem _)

/-! ## Types and defaults -/

theorem ValueType.admits_of_convert {valueType : ValueType} {value converted : Value}
    (conversion : valueType.convert value = some converted) :
    valueType.admits converted = true := by
  cases valueType with
  | boolean =>
      cases value with
      | bool truth => cases conversion; rfl
      | number amount =>
          simp only [convert] at conversion
          split at conversion
          · cases conversion; rfl
          · cases conversion
      | text content =>
          simp only [convert] at conversion
          split at conversion
          · cases conversion; rfl
          · split at conversion
            · cases conversion; rfl
            · cases conversion
  | number =>
      cases value with
      | bool truth => cases conversion; rfl
      | number amount => cases conversion; rfl
      | text content =>
          obtain ⟨amount, -, rfl⟩ := Option.map_eq_some_iff.mp conversion
          rfl
  | string => cases conversion; rfl

namespace FlagDefinition

variable {definition : FlagDefinition} {valueType : ValueType} {value : Value}

/-- The type that the values of a flag are declared to have, if it is persistent. -/
def savedType? (definition : FlagDefinition) : Option ValueType :=
  if definition.isTransient then none else definition.valueType

/-- The default of a flag in its declared type, if it is persistent. -/
def savedDefault? (definition : FlagDefinition) : Option Value :=
  if definition.isTransient then none else definition.typedDefault

theorem admits_of_typedDefault (declared : definition.valueType = some valueType)
    (given : definition.typedDefault = some value) : valueType.admits value = true := by
  unfold typedDefault at given
  cases default : definition.defaultValue with
  | none => simp [default] at given
  | some other =>
      rw [default, declared] at given
      exact ValueType.admits_of_convert given

end FlagDefinition

namespace FlagSchema

variable {schema : FlagSchema} {id : String}

/-! ## Lists of declarations -/

/-- Declarations with distinct ids make a schema that has them in order, under their own ids. -/
theorem exists_ofDefinitions {definitions : List FlagDefinition}
    (distinct : (definitions.map FlagDefinition.id).Nodup) :
    ∃ schema, ofDefinitions definitions = .ok schema ∧
      schema.flags.entries = definitions.map fun definition => (definition.id, definition) := by
  induction definitions using List.reverseRecOn with
  | nil => exact ⟨empty, rfl, rfl⟩
  | append_singleton definitions definition inductionHypothesis =>
      rw [List.map_append, List.map_singleton, List.nodup_append] at distinct
      obtain ⟨distinctBefore, -, apart⟩ := distinct
      obtain ⟨schema, made, entries⟩ := inductionHypothesis distinctBefore
      have names : schema.flags.names = definitions.map FlagDefinition.id := by
        simp [OrderedMap.names, entries]
      have absent : definition.id ∉ schema.flags.names := by
        rw [names]
        exact fun taken => apart _ taken _ (List.mem_singleton_self _) rfl
      have free : schema.contains definition.id = false := by
        rw [← Bool.not_eq_true]
        exact fun taken => absent (OrderedMap.contains_iff.mp taken)
      have added : (schema.insert definition).flags.entries =
          schema.flags.entries ++ [(definition.id, definition)] :=
        OrderedMap.putIn_of_not_mem absent definition
      refine ⟨schema.insert definition, ?_, ?_⟩
      · unfold ofDefinitions at made ⊢
        rw [List.foldlM_append, made]
        simp [bind, Except.bind, free, pure, Except.pure]
      · rw [added, entries, List.map_append, List.map_singleton]

/-- Whether an id is the first in a list of declarations that an earlier declaration has as well. -/
def IsFirstRepeated (definitions : List FlagDefinition) (id : String) : Prop :=
  ∃ before definition after, definitions = before ++ definition :: after ∧
    (before.map FlagDefinition.id).Nodup ∧ definition.id ∈ before.map FlagDefinition.id ∧
    definition.id = id

private theorem exists_isFirstRepeated {definitions : List FlagDefinition}
    (repeats : ¬ (definitions.map FlagDefinition.id).Nodup) :
    ∃ id, IsFirstRepeated definitions id := by
  induction definitions using List.reverseRecOn with
  | nil => exact absurd List.nodup_nil repeats
  | append_singleton definitions last inductionHypothesis =>
      by_cases distinct : (definitions.map FlagDefinition.id).Nodup
      · refine ⟨last.id, definitions, last, [], rfl, distinct, ?_, rfl⟩
        by_contra fresh
        apply repeats
        rw [List.map_append, List.map_singleton, ← List.concat_eq_append]
        exact distinct.concat fresh
      · obtain ⟨id, before, definition, after, rfl, distinctBefore, repeated, named⟩ :=
          inductionHypothesis distinct
        exact ⟨id, before, definition, after ++ [last], by simp, distinctBefore, repeated, named⟩

/-- A declaration whose id is taken by an earlier one is refused. -/
theorem ofDefinitions_of_isFirstRepeated {definitions : List FlagDefinition}
    (repeated : IsFirstRepeated definitions id) :
    ofDefinitions definitions = .error (.duplicateFlag id) := by
  obtain ⟨before, definition, after, rfl, distinct, taken, rfl⟩ := repeated
  obtain ⟨schema, made, entries⟩ := exists_ofDefinitions distinct
  have contained : schema.contains definition.id = true := by
    apply OrderedMap.contains_iff.mpr
    simpa [OrderedMap.names, entries] using taken
  unfold ofDefinitions at made ⊢
  rw [List.foldlM_append, made]
  simp [bind, Except.bind, contained]

private theorem entries_of_ofDefinitions {definitions : List FlagDefinition}
    (made : ofDefinitions definitions = .ok schema) :
    (definitions.map FlagDefinition.id).Nodup ∧
      schema.flags.entries = definitions.map fun definition => (definition.id, definition) := by
  by_cases distinct : (definitions.map FlagDefinition.id).Nodup
  · obtain ⟨other, madeOther, entries⟩ := exists_ofDefinitions distinct
    rw [made] at madeOther
    cases madeOther
    exact ⟨distinct, entries⟩
  · obtain ⟨id, repeated⟩ := exists_isFirstRepeated distinct
    rw [ofDefinitions_of_isFirstRepeated repeated] at made
    cases made

/-- A list of declarations makes a schema exactly when the ids are distinct. -/
theorem exists_ofDefinitions_iff {definitions : List FlagDefinition} :
    (∃ schema, ofDefinitions definitions = .ok schema) ↔
      (definitions.map FlagDefinition.id).Nodup := by
  constructor
  · rintro ⟨schema, made⟩
    exact (entries_of_ofDefinitions made).1
  · intro distinct
    obtain ⟨schema, made, -⟩ := exists_ofDefinitions distinct
    exact ⟨schema, made⟩

theorem ofDefinitions_eq_error_iff {definitions : List FlagDefinition} :
    ofDefinitions definitions = .error (.duplicateFlag id) ↔ IsFirstRepeated definitions id := by
  constructor
  · intro refused
    have repeats : ¬ (definitions.map FlagDefinition.id).Nodup := by
      intro distinct
      obtain ⟨schema, made⟩ := exists_ofDefinitions_iff.mpr distinct
      rw [made] at refused
      cases refused
    obtain ⟨other, repeated⟩ := exists_isFirstRepeated repeats
    rw [ofDefinitions_of_isFirstRepeated repeated] at refused
    cases refused
    exact repeated
  · exact ofDefinitions_of_isFirstRepeated

theorem definitions_of_ofDefinitions {definitions : List FlagDefinition}
    (made : ofDefinitions definitions = .ok schema) : schema.definitions = definitions := by
  rw [FlagSchema.definitions, OrderedMap.values, (entries_of_ofDefinitions made).2, List.map_map]
  exact List.map_id' definitions

/-! ## Declarations under their own ids -/

/-- Whether all declarations of a schema are stored under their own ids. -/
def IsKeyed (schema : FlagSchema) : Prop :=
  ∀ entry ∈ schema.flags.entries, entry.1 = entry.2.id

theorem isKeyed_empty : empty.IsKeyed :=
  List.forall_mem_nil _

theorem IsKeyed.insert (keyed : schema.IsKeyed) (definition : FlagDefinition) :
    (schema.insert definition).IsKeyed := by
  intro entry member
  rcases OrderedMap.mem_putIn member with rfl | stored
  · rfl
  · exact keyed entry stored

theorem isKeyed_of_ofDefinitions {definitions : List FlagDefinition}
    (made : ofDefinitions definitions = .ok schema) : schema.IsKeyed := by
  intro entry listed
  rw [(entries_of_ofDefinitions made).2] at listed
  obtain ⟨definition, -, rfl⟩ := List.mem_map.mp listed
  rfl

theorem IsKeyed.ids_definitions (keyed : schema.IsKeyed) :
    schema.definitions.map FlagDefinition.id = schema.flags.entries.map Prod.fst := by
  unfold definitions OrderedMap.values
  rw [List.map_map]
  exact List.map_congr_left fun entry member => (keyed entry member).symm

/-- A schema is put together again from its declarations. -/
theorem IsKeyed.ofDefinitions_definitions (keyed : schema.IsKeyed) :
    ofDefinitions schema.definitions = .ok schema := by
  have distinct : (schema.definitions.map FlagDefinition.id).Nodup := by
    rw [keyed.ids_definitions]
    exact schema.flags.distinct
  obtain ⟨made, isMade, entries⟩ := exists_ofDefinitions distinct
  have own : schema.definitions.map (fun definition => (definition.id, definition)) =
      schema.flags.entries := by
    unfold definitions OrderedMap.values
    rw [List.map_map]
    apply (List.map_congr_left fun entry member => ?_).trans (List.map_id' _)
    exact Prod.ext (keyed entry member).symm rfl
  have same : made.flags = schema.flags := OrderedMap.ext_entries (entries.trans own)
  cases made
  cases schema
  cases same
  exact isMade

theorem IsKeyed.get?_eq_some_iff (keyed : schema.IsKeyed) {definition : FlagDefinition} :
    schema.get? id = some definition ↔ definition ∈ schema.definitions ∧ definition.id = id := by
  constructor
  · intro found
    have stored := mem_of_lookup found
    exact ⟨List.mem_map_of_mem stored, (keyed _ stored).symm⟩
  · rintro ⟨declared, rfl⟩
    obtain ⟨⟨key, definition⟩, stored, rfl⟩ := List.mem_map.mp declared
    have own : key = definition.id := keyed _ stored
    exact lookup_of_mem schema.flags.distinct (own ▸ stored)

/-! ## Persistent flags -/

/-- A flag that outlives the playthrough is declared, and not as transient. -/
theorem exists_of_isMemoryFlag (saved : schema.isMemoryFlag id = false) :
    ∃ definition, schema.get? id = some definition ∧ definition.isTransient = false := by
  unfold isMemoryFlag at saved
  cases declared : schema.get? id with
  | none => simp [declared] at saved
  | some definition => exact ⟨definition, rfl, by simpa [declared] using saved⟩

def isSaved (schema : FlagSchema) (id : String) : Bool :=
  schema.contains id && !schema.isMemoryFlag id

def savedType? (schema : FlagSchema) (id : String) : Option ValueType :=
  (schema.get? id).bind FlagDefinition.savedType?

theorem savedType?_eq_some_iff {valueType : ValueType} :
    schema.savedType? id = some valueType ↔
      ∃ definition, schema.get? id = some definition ∧ definition.isTransient = false ∧
        definition.valueType = some valueType := by
  simp [savedType?, FlagDefinition.savedType?, Option.bind_eq_some_iff]

theorem IsKeyed.get?_defaults (keyed : schema.IsKeyed) (id : String) :
    schema.defaults.get? id = (schema.get? id).bind FlagDefinition.savedDefault? := by
  let defaultOf (definition : FlagDefinition) : Option (String × Value) :=
    if definition.isTransient then
      none
    else
      definition.typedDefault.map fun value => (definition.id, value)
  have defaultOf_eq_some_iff (definition : FlagDefinition) (name : String) (value : Value) :
      defaultOf definition = some (name, value) ↔
        definition.id = name ∧ definition.savedDefault? = some value := by
    simp only [defaultOf, FlagDefinition.savedDefault?]
    split
    · simp
    · simp [and_comm]
  have distinct : ((schema.definitions.filterMap defaultOf).map Prod.fst).Nodup := by
    have ids : (schema.definitions.map FlagDefinition.id).Nodup := by
      rw [keyed.ids_definitions]
      exact schema.flags.distinct
    refine List.pairwise_map.mpr (List.Pairwise.filterMap _ ?_ (List.pairwise_map.mp ids))
    rintro first second different ⟨firstName, _⟩ firstEntry ⟨secondName, _⟩ secondEntry
    rw [← ((defaultOf_eq_some_iff _ _ _).mp firstEntry).1,
      ← ((defaultOf_eq_some_iff _ _ _).mp secondEntry).1]
    exact different
  have listed : schema.defaults.get? id =
      (schema.definitions.filterMap defaultOf).lookup id :=
    SortedMap.get?_ofList distinct id
  ext value
  rw [listed, lookup_eq_some_iff_mem distinct, List.mem_filterMap, Option.bind_eq_some_iff]
  constructor
  · rintro ⟨definition, declared, entry⟩
    obtain ⟨named, given⟩ := (defaultOf_eq_some_iff _ _ _).mp entry
    exact ⟨definition, keyed.get?_eq_some_iff.mpr ⟨declared, named⟩, given⟩
  · rintro ⟨definition, found, given⟩
    obtain ⟨declared, named⟩ := keyed.get?_eq_some_iff.mp found
    exact ⟨definition, declared, (defaultOf_eq_some_iff _ _ _).mpr ⟨named, given⟩⟩

theorem isSaved_of_default (keyed : schema.IsKeyed)
    (default : (schema.defaults.get? id).isSome = true) : schema.isSaved id = true := by
  rw [keyed.get?_defaults] at default
  cases declared : schema.get? id with
  | none => simp [declared] at default
  | some definition =>
      cases transient : definition.isTransient with
      | true => simp [declared, FlagDefinition.savedDefault?, transient] at default
      | false =>
          have contained : schema.contains id = true :=
            Option.isSome_iff_exists.mpr ⟨definition, declared⟩
          simp [isSaved, contained, isMemoryFlag, declared, transient]

end FlagSchema

namespace Store

variable {schema : FlagSchema} {state : GameState}

theorem get?_gameState (store : Store) (schema : FlagSchema) (id : String) :
    (store.gameState schema).get? id = (store.get? id).filter fun _ => schema.isSaved id :=
  SortedMap.get?_filter _ _ _

/-- A game state that gives values to saved flags only, and to all flags with defaults, is the game
state of the store that starts from it. -/
theorem gameState_ofSchema
    (saved : ∀ id, (state.get? id).isSome = true → schema.isSaved id = true)
    (covers : ∀ id, (schema.defaults.get? id).isSome = true → (state.get? id).isSome = true) :
    (ofSchema schema state).gameState schema = state := by
  refine SortedMap.ext_get? fun id => ?_
  have started : (ofSchema schema state).get? id =
      (state.get? id <|> schema.defaults.get? id) :=
    SortedMap.get?_insertAll schema.defaults state.nodup_names id
  rw [get?_gameState, started]
  cases stored : state.get? id with
  | some value => simp [saved id (by simp [stored])]
  | none =>
      cases default : schema.defaults.get? id with
      | none => rfl
      | some value =>
          have stays := covers id (by simp [default])
          rw [stored] at stays
          cases stays

end Store

end BranchingDialogue

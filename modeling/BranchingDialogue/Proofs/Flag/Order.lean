import BranchingDialogue.Proofs.Flag.Schema

/-! Declarations are put into a schema one after another. Each flag then stands where it was
declared for the first time, as it was declared for the last time. -/

namespace BranchingDialogue.FlagSchema

variable {schema other : FlagSchema} {declared : List FlagDefinition}

/-- Whether a schema is what declarations make that are inserted in order. -/
structure IsMadeOf (schema : FlagSchema) (declared : List FlagDefinition) : Prop where
  keyed : schema.IsKeyed
  distinct : (schema.definitions.map FlagDefinition.id).Nodup
  inOrder : schema.definitions.map FlagDefinition.id = (declared.map FlagDefinition.id).eraseDups
  latest : ∀ id, schema.get? id = declared.reverse.find? fun definition => definition.id = id

private theorem eraseDups_concat (names : List String) (name : String) :
    (names ++ [name]).eraseDups =
      if name ∈ names then names.eraseDups else names.eraseDups ++ [name] := by
  rw [List.eraseDups_append]
  by_cases listed : name ∈ names
  · simp [listed, List.removeAll]
  · simp [listed, List.removeAll, List.eraseDups_cons]

/-- Repetitions among later names do not matter. -/
theorem eraseDups_append_eraseDups (names more : List String) :
    (names ++ more.eraseDups).eraseDups = (names ++ more).eraseDups := by
  induction more using List.reverseRecOn with
  | nil => rfl
  | append_singleton more name inductionHypothesis =>
      rw [← List.append_assoc, eraseDups_concat more, eraseDups_concat (names ++ more)]
      by_cases repeated : name ∈ more
      · rw [if_pos repeated, if_pos (List.mem_append_right _ repeated), inductionHypothesis]
      · rw [if_neg repeated, ← List.append_assoc, eraseDups_concat, inductionHypothesis]
        simp only [List.mem_append, List.mem_eraseDups]

theorem get?_insert (schema : FlagSchema) (definition : FlagDefinition) (id : String) :
    (schema.insert definition).get? id =
      if id = definition.id then some definition else schema.get? id :=
  OrderedMap.get?_insert schema.flags definition.id id definition

theorem isMadeOf_empty : empty.IsMadeOf [] :=
  ⟨isKeyed_empty, List.nodup_nil, rfl, fun _ => rfl⟩

theorem IsMadeOf.insert (made : schema.IsMadeOf declared) (definition : FlagDefinition) :
    (schema.insert definition).IsMadeOf (declared ++ [definition]) := by
  have keyed := made.keyed.insert definition
  have ids : schema.flags.names = (declared.map FlagDefinition.id).eraseDups :=
    made.keyed.ids_definitions.symm.trans made.inOrder
  have listed_iff : definition.id ∈ schema.flags.names ↔
      definition.id ∈ declared.map FlagDefinition.id := by
    rw [ids, List.mem_eraseDups]
  refine ⟨keyed, ?_, ?_, fun id => ?_⟩
  · rw [keyed.ids_definitions]
    exact (schema.insert definition).flags.distinct
  · have inserted : (schema.insert definition).definitions.map FlagDefinition.id =
        (schema.flags.insert definition.id definition).names := keyed.ids_definitions
    rw [inserted, OrderedMap.names_insert, List.map_append, List.map_singleton, eraseDups_concat,
      ← ids, if_congr listed_iff rfl rfl]
  · rw [get?_insert, made.latest, List.reverse_append, List.reverse_singleton,
      List.singleton_append, List.find?_cons]
    by_cases same : id = definition.id
    · simp [same]
    · simp [same, Ne.symm same]

/-- The schemas that declarations make are closed under more declarations. -/
theorem IsMadeOf.foldl_insert (made : schema.IsMadeOf declared) (more : List FlagDefinition) :
    (more.foldl FlagSchema.insert schema).IsMadeOf (declared ++ more) := by
  induction more generalizing schema declared with
  | nil =>
      rw [List.append_nil]
      exact made
  | cons definition more inductionHypothesis =>
      have next := inductionHypothesis (made.insert definition)
      rwa [List.append_assoc] at next

private theorem foldl_insert_of_ofDefinitions (made : ofDefinitions declared = .ok schema) :
    declared.foldl insert empty = schema := by
  unfold ofDefinitions at made
  generalize empty = start at made ⊢
  induction declared generalizing start with
  | nil =>
      cases made
      rfl
  | cons definition declared inductionHypothesis =>
      rw [List.foldlM_cons] at made
      split at made
      · cases made
      · exact inductionHypothesis (start.insert definition) made

theorem isMadeOf_of_ofDefinitions (made : ofDefinitions declared = .ok schema) :
    schema.IsMadeOf declared := by
  rw [← foldl_insert_of_ofDefinitions made]
  exact isMadeOf_empty.foldl_insert declared

/-- The declarations of another schema are inserted in their order. -/
theorem IsKeyed.merge_eq (keyed : other.IsKeyed) (schema : FlagSchema) :
    schema.merge other = other.definitions.foldl FlagSchema.insert schema := by
  have rest (entries : List (String × FlagDefinition)) (start : FlagSchema)
      (own : ∀ entry ∈ entries, entry.1 = entry.2.id) :
      (⟨start.flags.insertAll entries⟩ : FlagSchema) =
        (entries.map Prod.snd).foldl FlagSchema.insert start := by
    induction entries generalizing start with
    | nil => rfl
    | cons entry entries inductionHypothesis =>
        obtain ⟨name, definition⟩ := entry
        obtain ⟨first, others⟩ := List.forall_mem_cons.mp own
        obtain rfl : name = definition.id := first
        exact inductionHypothesis (start.insert definition) others
  exact rest other.flags.entries schema keyed

theorem IsMadeOf.merge {more : List FlagDefinition} (made : schema.IsMadeOf declared)
    (otherMade : other.IsMadeOf more) : (schema.merge other).IsMadeOf (declared ++ more) := by
  have merged : (schema.merge other).IsMadeOf (declared ++ other.definitions) := by
    rw [otherMade.keyed.merge_eq]
    exact made.foldl_insert other.definitions
  have own : other.IsMadeOf other.definitions :=
    isMadeOf_of_ofDefinitions otherMade.keyed.ofDefinitions_definitions
  refine ⟨merged.keyed, merged.distinct, ?_, fun id => ?_⟩
  · rw [merged.inOrder, List.map_append, List.map_append, otherMade.inOrder,
      eraseDups_append_eraseDups]
  · rw [merged.latest, List.reverse_append, List.reverse_append, List.find?_append,
      List.find?_append, ← own.latest, ← otherMade.latest]

end BranchingDialogue.FlagSchema

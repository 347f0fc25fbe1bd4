import BranchingDialogue.Play.Content
import BranchingDialogue.Proofs.Flag.Schema

/-! What an assignment or a raise does to a flag is decided by the declaration of the flag.
Undeclared flags, transient flags and persistent flags without a type take every value as it is. A
persistent flag with a type takes values of this type only, unless a value cannot be converted. -/

namespace BranchingDialogue

/-- A raised flag gets a value of its declared type. -/
theorem FlagDefinition.admits_raisedValue {definition : FlagDefinition} {valueType : ValueType}
    (declared : definition.valueType = some valueType) (current : Option Value) :
    valueType.admits (definition.raisedValue current) = true := by
  unfold raisedValue
  rw [declared]
  cases valueType with
  | boolean => rfl
  | number => cases current with
    | none => rfl
    | some value => cases value <;> rfl
  | string =>
      cases given : definition.typedDefault with
      | some value => exact admits_of_typedDefault declared given
      | none => cases current with
        | none => rfl
        | some value => cases value <;> rfl

namespace Store

variable {schema : FlagSchema} {flag : String} {definition : FlagDefinition}

/-! ## What a store holds after a change -/

@[simp]
theorem get?_set (store : Store) (flag : String) (value : Value) (asked : String) :
    (store.set flag value).get? asked = if asked = flag then some value else store.get? asked :=
  SortedMap.get?_insert store.values flag asked value

@[simp]
theorem get?_remember (store : Store) (flag asked : String) :
    (store.remember flag).get? asked = store.get? asked := rfl

@[simp]
theorem get?_forget (store : Store) (flag asked : String) :
    (store.forget flag).get? asked = store.get? asked := rfl

@[simp]
theorem remembers_set (store : Store) (flag : String) (value : Value) (asked : String) :
    (store.set flag value).remembers asked = store.remembers asked := rfl

@[simp]
theorem remembers_remember (store : Store) (flag asked : String) :
    (store.remember flag).remembers asked = (asked == flag || store.remembers asked) := by
  unfold remember remembers SortedMap.contains
  rw [SortedMap.get?_insert]
  by_cases same : asked = flag <;> simp [same]

@[simp]
theorem remembers_forget (store : Store) (flag asked : String) :
    (store.forget flag).remembers asked = (asked != flag && store.remembers asked) := by
  unfold forget remembers SortedMap.contains
  rw [SortedMap.get?_erase]
  by_cases same : asked = flag <;> simp [same]

/-! ## Assignments -/

theorem assign_of_undeclared (undeclared : schema.get? flag = none) (store : Store)
    (value : Value) : store.assign schema flag value = (store.set flag value, []) := by
  simp [assign, undeclared]

/-- A transient flag is remembered as long as its value counts as set. -/
theorem assign_of_transient (declared : schema.get? flag = some definition)
    (transient : definition.isTransient = true) (store : Store) (value : Value) :
    store.assign schema flag value =
      ((if value.isTruthy then store.remember flag else store.forget flag).set flag value, []) := by
  simp [assign, declared, transient]

theorem assign_of_untyped (declared : schema.get? flag = some definition)
    (persistent : definition.isTransient = false) (untyped : definition.valueType = none)
    (store : Store) (value : Value) :
    store.assign schema flag value = (store.set flag value, []) := by
  simp [assign, declared, persistent, untyped]

/-- A persistent flag with a type gets a value of this type, or a warning tells that it did not. -/
theorem assign_of_typed {valueType : ValueType} (declared : schema.get? flag = some definition)
    (persistent : definition.isTransient = false) (typed : definition.valueType = some valueType)
    (value : Value) :
    ∃ stored warnings,
      (∀ store : Store, store.assign schema flag value = (store.set flag stored, warnings)) ∧
        (valueType.admits stored = true ∨ FlagWarning.commandFallback flag value ∈ warnings) := by
  cases admitted : valueType.admits value with
  | true =>
      exact ⟨value, [], fun store => by simp [assign, declared, persistent, typed, admitted],
        Or.inl admitted⟩
  | false =>
      cases conversion : valueType.convert value with
      | some converted =>
          exact ⟨converted, [.typeCoerced flag value converted], fun store => by
            simp [assign, declared, persistent, typed, admitted, conversion],
            Or.inl (ValueType.admits_of_convert conversion)⟩
      | none =>
          exact ⟨.bool true, [.commandFallback flag value], fun store => by
            simp [assign, declared, persistent, typed, admitted, conversion],
            Or.inr List.mem_cons_self⟩

/-! ## Raises -/

theorem raise_of_memory (memory : schema.isMemoryFlag flag = true) (store : Store) :
    (store.raise schema [flag]).1 = store.remember flag := by
  simp only [raise, List.filter_cons, memory]
  rfl

theorem raise_of_persistent (declared : schema.get? flag = some definition)
    (persistent : definition.isTransient = false) (store : Store) :
    (store.raise schema [flag]).1 =
      store.set flag (definition.raisedValue (store.get? flag)) := by
  have memory : schema.isMemoryFlag flag = false := by
    simp [FlagSchema.isMemoryFlag, declared, persistent]
  simp [raise, memory, GameState.raise, GameState.raiseOne, declared, replaceValues, set, get?]

end Store

end BranchingDialogue

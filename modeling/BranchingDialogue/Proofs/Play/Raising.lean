import Mathlib.Logic.Function.Iterate
import BranchingDialogue.Proofs.Play.FlagChange

/-! A list of flags is raised one after another. Each flag is changed by its own raises only, and
what it becomes depends on how often it is listed and on its declaration. So the order of the list
has no part in it. -/

namespace BranchingDialogue

def Value.number? : Value → Option Float
  | .number amount => some amount
  | _ => none

/-! ## Declared values -/

namespace FlagDefinition

variable {definition : FlagDefinition}

/-- The number that raises of a flag count on from: its current number, else its default, else
zero. -/
def countBase (definition : FlagDefinition) (current : Option Value) : Float :=
  ((current.bind Value.number?).or (definition.typedDefault.bind Value.number?)).getD 0.0

/-- The text that a raised flag gets: its default, else its current text, else its name. -/
def raisedText (definition : FlagDefinition) (current : Option Value) : String :=
  ((definition.typedDefault.bind Value.text?).or (current.bind Value.text?)).getD definition.name

private theorem raisedValue_of_number (typed : definition.valueType = some .number)
    (current : Option Value) :
    definition.raisedValue current = .number (definition.countBase current + 1.0) := by
  have default : definition.typedDefault.elim 0.0 Value.toNumber =
      (definition.typedDefault.bind Value.number?).getD 0.0 := by
    cases given : definition.typedDefault with
    | none => rfl
    | some value =>
        have admitted := admits_of_typedDefault typed given
        cases value with
        | number amount => rfl
        | bool truth => cases admitted
        | text content => cases admitted
  unfold raisedValue countBase
  rw [typed]
  rcases current with _ | (truth | amount | content)
  · simp [default]
  · simp [default, Value.number?]
  · simp [Value.number?]
  · simp [default, Value.number?]

private theorem raisedValue_of_string (typed : definition.valueType = some .string)
    (current : Option Value) :
    definition.raisedValue current = .text (definition.raisedText current) := by
  unfold raisedValue raisedText
  rw [typed]
  cases given : definition.typedDefault with
  | some value =>
      have admitted := admits_of_typedDefault typed given
      cases value with
      | text content => rfl
      | bool truth => cases admitted
      | number amount => cases admitted
  | none => rcases current with _ | (truth | amount | content) <;> rfl

/-- The text of a raised flag stays when the flag is raised again. -/
theorem raisedText_raisedText (current : Option Value) :
    definition.raisedText (some (.text (definition.raisedText current))) =
      definition.raisedText current := by
  cases given : definition.typedDefault.bind Value.text? <;> simp [raisedText, given, Value.text?]

end FlagDefinition

def FlagSchema.raisedValue (schema : FlagSchema) (flag : String) (current : Option Value) : Value :=
  match schema.get? flag with
  | none => .bool true
  | some definition => definition.raisedValue current

/-! ## Raised states -/

namespace GameState

/-- What a state is when flags were raised in another one: the other flags are as before, a number is
one more for each time that its flag is listed, and the other values do not count. -/
structure IsRaised (raised : GameState) (schema : FlagSchema) (flags : List String)
    (state : GameState) : Prop where
  unlisted : ∀ flag ∉ flags, raised.get? flag = state.get? flag
  number : ∀ flag ∈ flags, ∀ definition, schema.get? flag = some definition →
    definition.valueType = some .number →
      raised.get? flag = some (.number
        ((fun amount => amount + 1.0)^[flags.count flag] (definition.countBase (state.get? flag))))
  text : ∀ flag ∈ flags, ∀ definition, schema.get? flag = some definition →
    definition.valueType = some .string →
      raised.get? flag = some (.text (definition.raisedText (state.get? flag)))
  other : ∀ flag ∈ flags, (∀ definition, schema.get? flag = some definition →
    definition.valueType = none ∨ definition.valueType = some .boolean) →
      raised.get? flag = some (.bool true)
  typed : ∀ flag ∈ flags, ∀ definition valueType, schema.get? flag = some definition →
    definition.valueType = some valueType →
      ∃ value, raised.get? flag = some value ∧ valueType.admits value = true

variable {schema : FlagSchema} {state : GameState} {flag : String} {definition : FlagDefinition}

private theorem raiseOne_eq (schema : FlagSchema) (state : GameState) (flag : String) :
    raiseOne schema state flag =
      (state.insert flag (schema.raisedValue flag (state.get? flag)),
        if schema.contains flag then [] else [.unknownFlag flag]) := by
  unfold raiseOne FlagSchema.raisedValue FlagSchema.contains OrderedMap.contains
  unfold FlagSchema.get?
  cases schema.flags.get? flag <;> rfl

theorem raise_cons (schema : FlagSchema) (state : GameState) (flag : String)
    (flags : List String) :
    raise schema state (flag :: flags) =
      ((raise schema (raiseOne schema state flag).1 flags).1,
        (raiseOne schema state flag).2 ++ (raise schema (raiseOne schema state flag).1 flags).2) :=
  rfl

/-- A flag is raised as often as it is listed. -/
theorem get?_raise (schema : FlagSchema) (state : GameState) (flags : List String)
    (flag : String) :
    (raise schema state flags).1.get? flag =
      (fun current => some (schema.raisedValue flag current))^[flags.count flag]
        (state.get? flag) := by
  induction flags generalizing state with
  | nil => rfl
  | cons first flags inductionHypothesis =>
      rw [raise_cons, inductionHypothesis, raiseOne_eq, SortedMap.get?_insert, List.count_cons]
      by_cases same : flag = first
      · subst same
        simp [Function.iterate_succ_apply]
      · simp [same, Ne.symm same]

/-- Each undeclared flag is reported whenever it is listed. -/
theorem warnings_raise (schema : FlagSchema) (state : GameState) (flags : List String) :
    (raise schema state flags).2 =
      (flags.filter fun flag => !schema.contains flag).map .unknownFlag := by
  induction flags generalizing state with
  | nil => rfl
  | cons first flags inductionHypothesis =>
      rw [raise_cons, inductionHypothesis, raiseOne_eq]
      cases declared : schema.contains first <;> simp [declared]

private theorem raise_append (schema : FlagSchema) (state : GameState) (flags later : List String) :
    raise schema state (flags ++ later) =
      ((raise schema (raise schema state flags).1 later).1,
        (raise schema state flags).2 ++ (raise schema (raise schema state flags).1 later).2) := by
  induction flags generalizing state with
  | nil => rfl
  | cons first flags inductionHypothesis =>
      rw [List.cons_append, raise_cons, inductionHypothesis, raise_cons, List.append_assoc]

/-! ## Repeated raises -/

private theorem exists_count_eq {flags : List String} (listed : flag ∈ flags) :
    ∃ times, flags.count flag = times + 1 :=
  Nat.exists_eq_add_one.mpr (List.count_pos_iff.mpr listed)

private theorem get?_raise_of_number {flags : List String} (listed : flag ∈ flags)
    (declared : schema.get? flag = some definition)
    (typed : definition.valueType = some .number) :
    (raise schema state flags).1.get? flag = some (.number
      ((fun amount => amount + 1.0)^[flags.count flag]
        (definition.countBase (state.get? flag)))) := by
  have step (current : Option Value) : some (schema.raisedValue flag current) =
      some (Value.number (definition.countBase current + 1.0)) := by
    rw [FlagSchema.raisedValue, declared]
    exact congrArg some (definition.raisedValue_of_number typed current)
  -- From the first raise on, every raise adds one to a number.
  have counts : Function.Semiconj (fun amount => some (Value.number amount))
      (fun amount => amount + 1.0) (fun current => some (schema.raisedValue flag current)) :=
    fun amount => (step (some (.number amount))).symm
  obtain ⟨times, count⟩ := exists_count_eq listed
  rw [get?_raise, count, Function.iterate_succ_apply, Function.iterate_succ_apply, step]
  exact (counts.iterate_right times _).symm

/-- A value that stays when the flag is raised again is that of the first raise. -/
theorem get?_raise_of_stays {flags : List String} (listed : flag ∈ flags)
    (stays : schema.raisedValue flag (some (schema.raisedValue flag (state.get? flag))) =
      schema.raisedValue flag (state.get? flag)) :
    (raise schema state flags).1.get? flag = some (schema.raisedValue flag (state.get? flag)) := by
  obtain ⟨times, count⟩ := exists_count_eq listed
  rw [get?_raise, count, Function.iterate_succ_apply]
  exact Function.iterate_fixed (congrArg some stays) times

/-- A listed flag has a value of a raise. -/
theorem exists_get?_raise {flags : List String} (listed : flag ∈ flags) :
    ∃ current, (raise schema state flags).1.get? flag =
      some (schema.raisedValue flag current) := by
  obtain ⟨times, count⟩ := exists_count_eq listed
  rw [get?_raise, count, Function.iterate_succ_apply']
  exact ⟨_, rfl⟩

private theorem isRaised_raise (schema : FlagSchema) (state : GameState) (flags : List String) :
    IsRaised (raise schema state flags).1 schema flags state where
  unlisted flag absent := by
    rw [get?_raise, List.count_eq_zero.mpr absent]
    rfl
  number flag listed definition declared typed := get?_raise_of_number listed declared typed
  text flag listed definition declared typed := by
    have given (current : Option Value) :
        schema.raisedValue flag current = .text (definition.raisedText current) := by
      rw [FlagSchema.raisedValue, declared]
      exact definition.raisedValue_of_string typed current
    rw [get?_raise_of_stays listed, given]
    rw [given, given, definition.raisedText_raisedText]
  other flag listed untyped := by
    have given (current : Option Value) : schema.raisedValue flag current = .bool true := by
      unfold FlagSchema.raisedValue
      cases declared : schema.get? flag with
      | none => rfl
      | some definition =>
          rcases untyped definition declared with typed | typed <;>
            simp [FlagDefinition.raisedValue, typed]
    rw [get?_raise_of_stays listed, given]
    rw [given, given]
  typed flag listed definition valueType declared typed := by
    obtain ⟨current, given⟩ := @exists_get?_raise schema state _ _ listed
    refine ⟨_, given, ?_⟩
    rw [FlagSchema.raisedValue, declared]
    exact definition.admits_raisedValue typed current

end GameState

/-! ## Raised flags of a store -/

namespace Store

variable {schema : FlagSchema}

/-- The flags that are raised in the values of a store are declared, so that there is no warning. -/
theorem warnings_raise_eq_nil (store : Store) (schema : FlagSchema) (flags : List String) :
    (store.raise schema flags).2 = [] := by
  have declared : ∀ flag ∈ flags.filter fun flag => !schema.isMemoryFlag flag,
      schema.contains flag = true := by
    intro flag member
    have persistent : schema.isMemoryFlag flag = false := by
      simpa using (List.mem_filter.mp member).2
    obtain ⟨definition, found, -⟩ := FlagSchema.exists_of_isMemoryFlag persistent
    exact Option.isSome_iff_exists.mpr ⟨definition, found⟩
  have warnings : (store.raise schema flags).2 = _ := GameState.warnings_raise schema _ _
  rw [warnings, List.map_eq_nil_iff, List.filter_eq_nil_iff]
  intro flag member
  simp [declared flag member]

private theorem held_raise_of_not_mem (store : Store) (schema : FlagSchema) {flags : List String}
    {flag : String} (absent : flag ∉ flags) :
    (store.raise schema flags).1.held flag = store.held flag := by
  rw [← runChanges_raises]
  refine held_runChanges_of_ne ?_
  rw [List.forall_mem_map]
  rintro other member rfl
  exact absent member

private theorem raise_perm (store : Store) (schema : FlagSchema) {flags others : List String}
    (order : flags.Perm others) :
    (store.raise schema flags).1 = (store.raise schema others).1 := by
  rw [← runChanges_raises, ← runChanges_raises]
  refine (order.map FlagChange.raise).foldl_eq' ?_ store
  intro first firstMember second secondMember reached
  obtain ⟨flag, -, rfl⟩ := List.mem_map.mp firstMember
  obtain ⟨other, -, rfl⟩ := List.mem_map.mp secondMember
  by_cases same : flag = other
  · rw [same]
  · exact FlagChange.run_comm (by simpa [FlagChange.flag, FlagChange.flags] using same)
      (by simpa [FlagChange.flag, FlagChange.flags] using Ne.symm same)

end Store

/-- Raising flags changes the listed flags only, by the type that each is declared with and as often
as it is listed, and reports the undeclared ones. Lists of flags can be raised in parts. In a store
there is nothing to report, and the order of the flags has no part in it. -/
theorem raise_typed_and_unordered (schema : FlagSchema) (state : GameState) (store : Store)
    (flags later others : List String) :
    let raised := GameState.raise schema state flags
    let both := GameState.raise schema raised.1 later
    raised.1.IsRaised schema flags state ∧
      raised.2 = (flags.filter fun flag => !schema.contains flag).map .unknownFlag ∧
      GameState.raise schema state (flags ++ later) = (both.1, raised.2 ++ both.2) ∧
      (∀ flag ∉ flags, (store.raise schema flags).1.held flag = store.held flag) ∧
      (store.raise schema flags).2 = [] ∧
      (flags.Perm others → (store.raise schema flags).1 = (store.raise schema others).1) :=
  ⟨GameState.isRaised_raise schema state flags, GameState.warnings_raise schema state flags,
    GameState.raise_append schema state flags later,
    fun _ absent => store.held_raise_of_not_mem schema absent,
    store.warnings_raise_eq_nil schema flags, store.raise_perm schema⟩

/-! ## A tourney -/

/-- What a knight can win: gold, which begins at one, and a title. -/
def tourneySchema : FlagSchema :=
  (FlagSchema.empty.insert ⟨"gold", "Gold", .stat, some .number, some (.number 1.0), none⟩).insert
    ⟨"title", "Champion", .title, some .string, none, none⟩

/-- Gold that is won twice is counted on from the default, and the applause, which is not declared, is
reported once for each time. The prizes can be given in another order. -/
theorem raise_tourney :
    let prizes := ["gold", "applause", "title", "gold", "applause"]
    let reordered := ["applause", "applause", "gold", "gold", "title"]
    let raised := GameState.raise tourneySchema .empty prizes
    let store := Store.ofSchema tourneySchema .empty
    prizes.Perm reordered ∧ raised.1.get? "gold" = some (.number 3.0) ∧
      raised.1.get? "title" = some (.text "Champion") ∧
      raised.2 = [.unknownFlag "applause", .unknownFlag "applause"] ∧
      (store.raise tourneySchema prizes).1 = (store.raise tourneySchema reordered).1 := by
  intro prizes reordered raised store
  have order : prizes.Perm reordered := by decide
  obtain ⟨values, warnings, -, -, -, permuted⟩ :=
    raise_typed_and_unordered tourneySchema .empty store prizes [] reordered
  refine ⟨order, ?_, ?_, warnings, permuted order⟩
  · rw [values.number "gold" (by decide) _ rfl rfl]
    decide +kernel
  · exact values.text "title" (by decide) _ rfl rfl

end BranchingDialogue

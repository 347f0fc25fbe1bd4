import BranchingDialogue.Proofs.Play.FlagChange
import BranchingDialogue.Proofs.Play.Journey
import BranchingDialogue.Proofs.Play.SessionStep

/-! The values of a store come from the defaults of the schema, from the game, from commands and
from raised flags. All of them give a persistent flag with a declared type a value of this type, and
where a command has no such value a warning of the session says so. No declared persistent flag is
ever remembered, and one with a default always has a value. -/

namespace BranchingDialogue

/-- Whether the values of persistent flags have the declared types. -/
def GameState.HasTypes (state : GameState) (schema : FlagSchema) : Prop :=
  ∀ flag valueType value, schema.savedType? flag = some valueType →
    state.get? flag = some value → valueType.admits value = true

private theorem FlagSchema.IsKeyed.hasTypes_defaults {schema : FlagSchema}
    (keyed : schema.IsKeyed) : schema.defaults.HasTypes schema := by
  intro flag valueType value declared given
  obtain ⟨definition, found, persistent, typed⟩ := savedType?_eq_some_iff.mp declared
  rw [keyed.get?_defaults, found, Option.bind_some] at given
  have default : definition.typedDefault = some value := by
    simpa [FlagDefinition.savedDefault?, persistent] using given
  exact FlagDefinition.admits_of_typedDefault typed default

theorem GameState.HasTypes.insertAll {schema : FlagSchema} {state other : GameState}
    (types : state.HasTypes schema) (otherTypes : other.HasTypes schema) :
    HasTypes (other.insertAll state.entries) schema := by
  intro flag valueType value declared given
  rw [SortedMap.get?_insertAll other state.nodup_names] at given
  rw [Option.orElse_eq_orElse, Option.orElse_eq_or, Option.or_eq_some_iff] at given
  rcases given with own | ⟨-, inOther⟩
  · exact types flag valueType value declared own
  · exact otherTypes flag valueType value declared inOther

namespace Store

/-- What holds of the flags of a store with the warnings that were given on the way to it: only
memory flags are remembered, flags with defaults have values, and the values of persistent flags
have the declared types unless a warning says that a value could not be converted. -/
structure Typed (schema : FlagSchema) (warnings : List FlagWarning) (store : Store) : Prop where
  memory : ∀ flag, store.remembers flag = true → schema.isMemoryFlag flag = true
  valued : ∀ flag, (schema.defaults.get? flag).isSome = true → (store.get? flag).isSome = true
  typed : ∀ flag valueType value, schema.savedType? flag = some valueType →
    store.get? flag = some value →
      valueType.admits value = true ∨ ∃ refused, FlagWarning.commandFallback flag refused ∈ warnings

variable {store : Store} {schema : FlagSchema} {warnings : List FlagWarning} {flag : String}

private theorem typed_ofSchema {state : GameState} (keyed : schema.IsKeyed)
    (types : state.HasTypes schema) : (ofSchema schema state).Typed schema [] where
  memory _ remembered := by cases remembered
  valued flag listed := (SortedMap.isSome_get?_insertAll _ _ _).mpr (Or.inr listed)
  typed flag valueType value declared given :=
    Or.inl (types.insertAll keyed.hasTypes_defaults flag valueType value declared given)

namespace Typed

theorem append (typed : store.Typed schema warnings) (others : List FlagWarning) :
    store.Typed schema (warnings ++ others) where
  memory := typed.memory
  valued := typed.valued
  typed flag valueType value declared given :=
    (typed.typed flag valueType value declared given).imp_right fun ⟨refused, listed⟩ =>
      ⟨refused, List.mem_append_left _ listed⟩

theorem set (typed : store.Typed schema warnings) {value : Value}
    (fits : ∀ valueType, schema.savedType? flag = some valueType →
      valueType.admits value = true ∨
        ∃ refused, FlagWarning.commandFallback flag refused ∈ warnings) :
    (store.set flag value).Typed schema warnings where
  memory := typed.memory
  valued asked listed := by
    rw [get?_set]
    split
    · rfl
    · exact typed.valued asked listed
  typed asked valueType found declared given := by
    rw [get?_set] at given
    split at given
    · rename_i same
      subst same
      cases given
      exact fits valueType declared
    · exact typed.typed asked valueType found declared given

theorem remember (typed : store.Typed schema warnings)
    (memory : schema.isMemoryFlag flag = true) :
    (store.remember flag).Typed schema warnings where
  memory asked remembered := by
    rw [remembers_remember, Bool.or_eq_true, beq_iff_eq] at remembered
    rcases remembered with rfl | before
    · exact memory
    · exact typed.memory asked before
  valued := typed.valued
  typed := typed.typed

theorem forget (typed : store.Typed schema warnings) (flag : String) :
    (store.forget flag).Typed schema warnings where
  memory asked remembered := by
    rw [remembers_forget, Bool.and_eq_true] at remembered
    exact typed.memory asked remembered.2
  valued := typed.valued
  typed := typed.typed

/-! ## Commands -/

private theorem set_untyped (typed : store.Typed schema warnings)
    (untyped : schema.savedType? flag = none)
    (value : Value) : (store.set flag value).Typed schema warnings :=
  typed.set fun valueType declared => by cases untyped.symm.trans declared

theorem assign (typed : store.Typed schema warnings) (flag : String) (value : Value) :
    (store.assign schema flag value).1.Typed schema
      (warnings ++ (store.assign schema flag value).2) := by
  cases declared : schema.get? flag with
  | none =>
      have untyped : schema.savedType? flag = none := by simp [FlagSchema.savedType?, declared]
      rw [assign_of_undeclared declared, List.append_nil]
      exact typed.set_untyped untyped value
  | some definition =>
      have ownType : schema.savedType? flag = definition.savedType? := by
        simp [FlagSchema.savedType?, declared]
      cases transient : definition.isTransient with
      | true =>
          have memory : schema.isMemoryFlag flag = true := by
            simp [FlagSchema.isMemoryFlag, declared, transient]
          have untyped : schema.savedType? flag = none := by
            simp [ownType, FlagDefinition.savedType?, transient]
          rw [assign_of_transient declared transient, List.append_nil]
          refine set_untyped ?_ untyped value
          split
          · exact typed.remember memory
          · exact typed.forget flag
      | false =>
          have hasType : schema.savedType? flag = definition.valueType := by
            simp [ownType, FlagDefinition.savedType?, transient]
          cases given : definition.valueType with
          | none =>
              rw [assign_of_untyped declared transient given, List.append_nil]
              exact typed.set_untyped (hasType.trans given) value
          | some valueType =>
              obtain ⟨stored, told, assigned, fits⟩ :=
                assign_of_typed declared transient given value
              rw [assigned]
              refine (typed.append told).set fun other otherDeclared => ?_
              cases (hasType.trans given).symm.trans otherDeclared
              exact fits.imp_right fun listed => ⟨value, List.mem_append_right _ listed⟩

theorem runCommand (typed : store.Typed schema warnings) (raw : Script.RawCommand) :
    (store.runCommand schema raw).1.Typed schema
      (warnings ++ (store.runCommand schema raw).2) := by
  unfold Store.runCommand
  split
  · exact typed.append []
  · exact typed.assign _ _

theorem runCommands (typed : store.Typed schema warnings) (raws : List Script.RawCommand) :
    (store.runCommands schema raws).1.Typed schema
      (warnings ++ (store.runCommands schema raws).2) := by
  induction raws generalizing store warnings with
  | nil => exact typed.append []
  | cons raw raws inductionHypothesis =>
      have rest := inductionHypothesis (typed.runCommand raw)
      rwa [List.append_assoc] at rest

/-! ## Raised flags -/

theorem raise (typed : store.Typed schema warnings) (flags : List String) :
    (store.raise schema flags).1.Typed schema warnings := by
  induction flags generalizing store with
  | nil => exact typed
  | cons flag flags inductionHypothesis =>
      rw [raise_cons]
      refine inductionHypothesis ?_
      cases memory : schema.isMemoryFlag flag with
      | true =>
          rw [raise_of_memory memory]
          exact typed.remember memory
      | false =>
          obtain ⟨definition, declared, persistent⟩ := FlagSchema.exists_of_isMemoryFlag memory
          rw [raise_of_persistent declared persistent]
          refine typed.set fun valueType hasType => Or.inl ?_
          obtain ⟨other, declaredToo, -, given⟩ := FlagSchema.savedType?_eq_some_iff.mp hasType
          cases declared.symm.trans declaredToo
          exact definition.admits_raisedValue given _

/-! ## Visits and choices -/

theorem visit (typed : store.Typed schema warnings) (node : Node) :
    (node.visit store schema).2.Typed schema
      (warnings ++ (node.visit store schema).1.warnings) := by
  let outcome (content : Option String) : Store × List FlagWarning :=
    content.elim (store, []) fun content => store.play schema content
  have played (content : Option String) :
      (outcome content).1.Typed schema (warnings ++ (outcome content).2) := by
    cases content with
    | none => exact typed.append []
    | some content => exact typed.runCommands (contentCommands content)
  have raised := (played (node.scene store).content).raise node.entryFlags
  have told := raised.append ((outcome (node.scene store).content).1.raise schema node.entryFlags).2
  rwa [List.append_assoc] at told

theorem take (typed : store.Typed schema warnings) (choice : Choice) :
    (choice.take store schema).1.Typed schema (warnings ++ (choice.take store schema).2) :=
  (typed.raise choice.flags).append _

end Typed

end Store

/-! ## Sessions -/

namespace Session

/-- What holds of the flags of a session at any time, and of the flags that it starts with. -/
structure HasTypedFlags (schema : FlagSchema) (session : Session) : Prop where
  sameSchema : session.schema = schema
  now : session.store.Typed schema session.warnings
  atStart : session.store.reset.Typed schema []

variable {schema : FlagSchema} {session next : Session}

/-- One step keeps the flags typed. -/
theorem HasTypedFlags.step (step : session.Step next) (typed : session.HasTypedFlags schema) :
    next.HasTypedFlags schema := by
  obtain ⟨rfl, now, atStart⟩ := typed
  cases step with
  | @enter id node unseen here stored =>
      refine ⟨rfl, now.visit node, ?_⟩
      have sameStart : (session.enter node).store.reset = session.store.reset := by
        simp [enter, Store.reset]
      rwa [sameStart]
  | follow seen speech => exact ⟨rfl, now, atStart⟩
  | @take visit choice seen visible =>
      refine ⟨rfl, now.take choice, ?_⟩
      have sameStart : (session.take choice).store.reset = session.store.reset := by
        simp [take, Store.reset]
      exact sameStart ▸ atStart
  | restart => exact ⟨rfl, atStart, atStart⟩

/-- Whatever is done in a session that starts from a game state with the declared types, only
transient and undeclared flags are remembered, every persistent flag with a default has a value, and
every value of a persistent flag with a type has this type, unless a warning tells of a value that
could not be stored in this flag. -/
theorem flags_typed_after {tree : DialogueTree} {schema : FlagSchema} {state : GameState}
    {start : Option String} {session : Session} (keyed : schema.IsKeyed)
    (types : state.HasTypes schema) (built : build tree schema state start = .ok session)
    (operations : List Operation) :
    let played := session.after operations
    (∀ flag definition, played.store.remembers flag = true →
        schema.get? flag = some definition → definition.flagType = .dialogue) ∧
      (∀ flag definition, schema.get? flag = some definition → definition.isTransient = false →
        definition.typedDefault.isSome = true → (played.store.get? flag).isSome = true) ∧
      ∀ flag definition valueType value, schema.get? flag = some definition →
        definition.isTransient = false → definition.valueType = some valueType →
          played.store.get? flag = some value →
            valueType.admits value = true ∨
              ∃ refused, FlagWarning.commandFallback flag refused ∈ played.warnings := by
  obtain ⟨-, rfl⟩ := build_eq_ok built
  intro played
  have begun : (begin tree schema (start.getD tree.start)
      (Store.ofSchema schema state)).HasTypedFlags schema :=
    ⟨rfl, Store.typed_ofSchema keyed types, Store.typed_ofSchema keyed types⟩
  obtain ⟨-, ⟨memory, valued, typed⟩, -⟩ : played.HasTypedFlags schema :=
    (steps_after _ operations).keep HasTypedFlags.step begun
  refine ⟨fun flag definition remembered declared => ?_,
    fun flag definition declared persistent default => ?_,
    fun flag definition valueType value declared persistent hasType given => ?_⟩
  · have transient : definition.flagType.isTransient = true := by
      simpa [FlagSchema.isMemoryFlag, FlagDefinition.isTransient, declared] using
        memory flag remembered
    cases flagType : definition.flagType <;> simp_all [FlagType.isTransient]
  · refine valued flag ?_
    rw [keyed.get?_defaults, declared]
    simpa [FlagDefinition.savedDefault?, persistent] using default
  · have savedType := FlagSchema.savedType?_eq_some_iff.mpr
      ⟨definition, declared, persistent, hasType⟩
    exact typed flag valueType value savedType given

end Session

/-! ## A knight -/

/-- A meeting that is forgotten with the playthrough, gold and a title. -/
def knightSchema : FlagSchema :=
  ((FlagSchema.empty.insert ⟨"met", "Met", .dialogue, none, none, none⟩).insert
    ⟨"gold", "Gold", .stat, some .number, some (.number 1.0), none⟩).insert
      ⟨"title", "Title", .title, some .string, some (.text "Squire"), none⟩

/-- A king who promises more gold than a number can say, and counts his knights. -/
def knightTree : DialogueTree :=
  (DialogueTree.bare "court" "Court" "king").withNode
    ((Node.npc "king" "Rise! <<set $met = true>> <<set $gold = plenty>> <<set $title = 7>>").withNext
      "king")

/-- The game so far, with five pieces of gold. -/
def knightState : GameState :=
  SortedMap.ofList [("gold", .number 5.0)]

def knightSession : Session :=
  Session.begin knightTree knightSchema "king" (Store.ofSchema knightSchema knightState)

/-- After the promise the gold is no number, and a warning says so. The title is a text, and the
meeting is remembered. -/
theorem Session.flags_typed_after_knightTree :
    let played := knightSession.after [.look, .restart, .advance]
    knightSchema.IsKeyed ∧ knightState.HasTypes knightSchema ∧
      build knightTree knightSchema knightState none = .ok knightSession ∧
      played.store.get? "gold" = some (.bool true) ∧
      (∃ refused, FlagWarning.commandFallback "gold" refused ∈ played.warnings) ∧
      played.store.remembers "met" = true ∧ (played.store.get? "title").isSome = true := by
  intro played
  have keyed : knightSchema.IsKeyed :=
    ((FlagSchema.isKeyed_empty.insert _).insert _).insert _
  have types : knightState.HasTypes knightSchema := by
    intro flag valueType value declared given
    have listed : (flag, value) ∈ [("gold", Value.number 5.0)] :=
      SortedMap.get?_eq_some_iff.mp given
    obtain ⟨rfl, rfl⟩ : flag = "gold" ∧ value = .number 5.0 := by simpa using listed
    cases declared
    rfl
  have built : build knightTree knightSchema knightState none = .ok knightSession := rfl
  have gold : played.store.get? "gold" = some (.bool true) := by decide +kernel
  obtain ⟨-, valued, typed⟩ := flags_typed_after keyed types built [.look, .restart, .advance]
  have told := typed "gold" _ .number _ rfl rfl rfl gold
  exact ⟨keyed, types, built, gold, told.resolve_left (by decide), by decide +kernel,
    valued "title" _ rfl rfl rfl⟩

end BranchingDialogue

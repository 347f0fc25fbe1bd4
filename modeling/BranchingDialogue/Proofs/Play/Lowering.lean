import BranchingDialogue.Proofs.Play.FlagChange

/-! A flag is set when its value says so or when it is remembered. Commands give values, and raises
remember the flags that live for one playthrough only. A command that lowers a transient flag also
forgets it. It does not do this for an undeclared flag, which is set from its first raise on. -/

namespace BranchingDialogue

open Script

/-- What a playthrough does to its flags: it plays content, and it raises flags. -/
inductive FlagEvent
  | play (content : String)
  | raise (flags : List String)
  deriving DecidableEq

namespace FlagEvent

def run (schema : FlagSchema) (store : Store) : FlagEvent → Store
  | .play content => (store.play schema content).1
  | .raise flags => (store.raise schema flags).1

def changes : FlagEvent → List FlagChange
  | .play content => commandChanges (contentCommands content)
  | .raise flags => flags.map .raise

def raises (event : FlagEvent) (flag : String) : Bool :=
  match event with
  | .play _ => false
  | .raise flags => flags.contains flag

private theorem run_eq_runChanges (schema : FlagSchema) (store : Store) (event : FlagEvent) :
    event.run schema store = runChanges schema store event.changes := by
  cases event with
  | play content => exact (runChanges_commandChanges schema store _).symm
  | raise flags => exact (runChanges_raises schema store flags).symm

private theorem raise_mem_changes_iff {event : FlagEvent} {flag : String} :
    FlagChange.raise flag ∈ event.changes ↔ event.raises flag = true := by
  cases event with
  | play content => simp [changes, raises, commandChanges]
  | raise flags => simp [changes, raises]

end FlagEvent

def runEvents (schema : FlagSchema) (store : Store) (events : List FlagEvent) : Store :=
  events.foldl (FlagEvent.run schema) store

theorem runEvents_eq_runChanges (schema : FlagSchema) (store : Store) (events : List FlagEvent) :
    runEvents schema store events =
      runChanges schema store (events.flatMap FlagEvent.changes) := by
  induction events generalizing store with
  | nil => rfl
  | cons event events inductionHypothesis =>
      rw [List.flatMap_cons, runChanges_append, ← FlagEvent.run_eq_runChanges,
        ← inductionHypothesis]
      rfl

/-! ## What is remembered -/

section Memory

variable {schema : FlagSchema} {store : Store} {flag : String}

/-- A flag that is not declared as transient is remembered by its raise only, and only if it is not
declared at all. No change forgets it. -/
theorem FlagChange.remembers_run_iff
    (lasting : ∀ definition, schema.get? flag = some definition → definition.isTransient = false)
    (change : FlagChange) :
    (change.run schema store).remembers flag = true ↔
      store.remembers flag = true ∨ schema.get? flag = none ∧ change = .raise flag := by
  by_cases own : flag = change.flag
  · subst own
    cases change with
    | raise flag =>
        rw [run, FlagChange.flag]
        cases declared : schema.get? flag with
        | none =>
            have memory : schema.isMemoryFlag flag = true := by
              simp [FlagSchema.isMemoryFlag, declared]
            simp [Store.raise_of_memory memory]
        | some definition =>
            simp [Store.raise_of_persistent declared (lasting definition declared)]
    | assign command =>
        rw [run, FlagChange.flag]
        cases declared : schema.get? command.flag with
        | none => simp [Store.assign_of_undeclared declared]
        | some definition =>
            have persistent := lasting definition declared
            cases typed : definition.valueType with
            | none => simp [Store.assign_of_untyped declared persistent typed]
            | some valueType =>
                obtain ⟨stored, warnings, assigned, -⟩ := Store.assign_of_typed declared persistent
                  typed (command.expression.resolve store)
                simp [assigned]
  · have unchanged : (change.run schema store).remembers flag = store.remembers flag :=
      (Prod.mk.inj (held_run_of_ne own)).2
    have elsewhere : change ≠ .raise flag := fun raised => own (raised ▸ rfl)
    simp [unchanged, elsewhere]

theorem remembers_runChanges_iff
    (lasting : ∀ definition, schema.get? flag = some definition → definition.isTransient = false)
    (changes : List FlagChange) :
    (runChanges schema store changes).remembers flag = true ↔
      store.remembers flag = true ∨ schema.get? flag = none ∧ FlagChange.raise flag ∈ changes := by
  induction changes generalizing store with
  | nil => simp [runChanges]
  | cons change changes inductionHypothesis =>
      have rest := @inductionHypothesis (change.run schema store)
      rw [FlagChange.remembers_run_iff lasting change] at rest
      rw [List.mem_cons, eq_comm (a := FlagChange.raise flag), and_or_left, ← or_assoc]
      exact rest

end Memory

/-! ## Whether a flag is set -/

namespace Store

variable {schema : FlagSchema} {store start left right : Store} {flag content : String}
  {value : Value}

private theorem isSet_congr (same : left.held flag = right.held flag) :
    left.isSet flag = right.isSet flag := by
  obtain ⟨sameValue, sameMemory⟩ := Prod.mk.inj same
  rw [isSet, isSet, sameValue, sameMemory]

/-- A flag that takes values as they are is set by a value that counts as set. By any other value it
is lowered, unless it is remembered and not declared as transient. -/
theorem isSet_assign_iff (untyped : schema.savedType? flag = none) :
    (store.assign schema flag value).1.isSet flag = true ↔
      value.isTruthy = true ∨ store.remembers flag = true ∧
        ∀ definition, schema.get? flag = some definition → definition.isTransient = false := by
  cases declared : schema.get? flag with
  | none => simp [assign_of_undeclared declared, isSet, or_comm]
  | some definition =>
      cases transient : definition.isTransient with
      | true =>
          rw [assign_of_transient declared transient]
          cases truthy : value.isTruthy <;> simp [isSet, truthy, transient]
      | false =>
          have typed : definition.valueType = none := by
            simpa [FlagSchema.savedType?, declared, FlagDefinition.savedType?, transient] using
              untyped
          simp [assign_of_untyped declared transient typed, isSet, or_comm, transient]

end Store

/-- Whether the last command of content that sets a flag gives it a literal. -/
def SetsTo (content : String) (flag : String) (value : Value) : Prop :=
  ∃ earlier later, (contentCommands content).filterMap RawCommand.read =
    earlier ++ ⟨flag, .literal value⟩ :: later ∧ ∀ command ∈ later, flag ≠ command.flag

namespace Store

variable {schema : FlagSchema} {start : Store} {flag content : String} {value : Value}

/-- After content that gives a literal to a flag, the flag is set if the literal counts as set, and
also if the flag is undeclared and was raised before. -/
theorem isSet_play_iff (forgotten : start.remembers flag = false)
    (untyped : schema.savedType? flag = none) (given : SetsTo content flag value)
    (events : List FlagEvent) :
    ((runEvents schema start events).play schema content).1.isSet flag = true ↔
      value.isTruthy = true ∨
        schema.get? flag = none ∧ ∃ event ∈ events, event.raises flag = true := by
  obtain ⟨earlier, later, commands, others⟩ := given
  let changes := events.flatMap FlagEvent.changes ++ earlier.map .assign
  let before := runChanges schema start changes
  have played : ((runEvents schema start events).play schema content).1 =
      runChanges schema (before.assign schema flag value).1 (later.map .assign) := by
    rw [runEvents_eq_runChanges, play, ← runChanges_commandChanges, commandChanges, commands,
      List.map_append, runChanges_append, ← runChanges_append schema start]
    rfl
  have after : ((runEvents schema start events).play schema content).1.isSet flag =
      (before.assign schema flag value).1.isSet flag := by
    rw [played]
    exact isSet_congr (held_runChanges_of_ne (by simpa [FlagChange.flag] using others))
  have raised : FlagChange.raise flag ∈ changes ↔ ∃ event ∈ events, event.raises flag = true := by
    simp [changes, FlagEvent.raise_mem_changes_iff]
  rw [after, isSet_assign_iff untyped]
  refine or_congr_right ?_
  constructor
  · rintro ⟨remembered, lasting⟩
    rw [remembers_runChanges_iff lasting, forgotten, raised] at remembered
    exact remembered.resolve_left Bool.false_ne_true
  · rintro ⟨undeclared, event⟩
    have lasting : ∀ definition, schema.get? flag = some definition →
        definition.isTransient = false := by
      intro definition declared
      cases undeclared.symm.trans declared
    exact ⟨(remembers_runChanges_iff lasting _).mpr (Or.inr ⟨undeclared, raised.mpr event⟩), lasting⟩

/-- Wherever a playthrough stands, content that gives a literal to a flag leaves it set exactly when
the literal counts as set, if the flag takes values as they are and is declared or was not raised.
In the remaining case only literals that count as set behave so. -/
theorem lowers_iff (forgotten : start.remembers flag = false)
    (untyped : schema.savedType? flag = none) (given : SetsTo content flag value)
    (events : List FlagEvent) :
    (((runEvents schema start events).play schema content).1.isSet flag = true ↔
        value.isTruthy = true) ↔
      schema.contains flag = true ∨ value.isTruthy = true ∨
        ∀ event ∈ events, event.raises flag = false := by
  have declared : schema.contains flag = true ↔ ¬schema.get? flag = none :=
    Option.isSome_iff_ne_none
  have unraised : (∀ event ∈ events, event.raises flag = false) ↔
      ¬∃ event ∈ events, event.raises flag = true := by simp
  rw [isSet_play_iff forgotten untyped given events, declared, unraised, or_iff_left_iff_imp,
    and_imp, imp_iff_not_or, imp_iff_not_or, or_comm (a := value.isTruthy = true)]

end Store

/-! ## A rumour -/

/-- The only declared flag tells whether the guard was met. -/
def rumourSchema : FlagSchema :=
  FlagSchema.empty.insert ⟨"met", "Met", .dialogue, none, none, none⟩

/-- What the player meets before the rumour is denied. -/
def rumourEvents : List FlagEvent :=
  [.raise ["met", "rumour"], .play "I saw him. <<set $met = true>>"]

/-- The declared flag is lowered. -/
theorem Store.lowers_met :
    let start := ofSchema rumourSchema .empty
    let denial := "No, it was a rumour. <<set $rumour = true>> <<set $met = false>>"
    start.remembers "met" = false ∧ rumourSchema.savedType? "met" = none ∧
      SetsTo denial "met" (.bool false) ∧
        ((runEvents rumourSchema start rumourEvents).play rumourSchema denial).1.isSet "met" =
          false := by
  intro start denial
  have given : SetsTo denial "met" (.bool false) :=
    ⟨[⟨"rumour", .literal (.bool true)⟩], [], by decide +kernel, by simp⟩
  have law := @lowers_iff rumourSchema start "met" denial (.bool false) rfl rfl given rumourEvents
  refine ⟨rfl, rfl, given, Bool.eq_false_iff.mpr fun set => ?_⟩
  cases (law.mpr (Or.inl rfl)).mp set

/-- The undeclared flag is not, although false does not count as set. -/
theorem Store.rumour_stays_set :
    let start := ofSchema rumourSchema .empty
    let denial := "<<set $rumour = false>>"
    let denied := ((runEvents rumourSchema start rumourEvents).play rumourSchema denial).1
    rumourSchema.savedType? "rumour" = none ∧ SetsTo denial "rumour" (.bool false) ∧
      (Value.bool false).isTruthy = false ∧ denied.get? "rumour" = some (.bool false) ∧
        denied.isSet "rumour" = true :=
  ⟨rfl, ⟨[], [], by decide +kernel, by simp⟩, rfl, by decide +kernel, by decide +kernel⟩

end BranchingDialogue

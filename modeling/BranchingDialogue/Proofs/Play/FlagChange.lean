import BranchingDialogue.Proofs.Play.Assignment
import BranchingDialogue.Proofs.Play.Snapshot

/-! Visiting a node changes flags one after another: the commands of what it plays give values, and
then its flags are raised. A change depends on few flags and changes a single one, so that changes
of unrelated flags commute. -/

namespace BranchingDialogue

open Script

/-- One change of the flags in a store. -/
inductive FlagChange
  | raise (flag : String)
  | assign (command : SetCommand)
  deriving DecidableEq

namespace FlagChange

def flag : FlagChange → String
  | .raise flag => flag
  | .assign command => command.flag

def flags : FlagChange → List String
  | .raise flag => [flag]
  | .assign command => command.flag :: command.expression.sources

/-- Whether the change is that of a command. -/
def isAssign : FlagChange → Bool
  | .raise _ => false
  | .assign _ => true

def run (schema : FlagSchema) (store : Store) : FlagChange → Store
  | .raise flag => (store.raise schema [flag]).1
  | .assign command => (store.assign schema command.flag (command.expression.resolve store)).1

/-- Whether a change can be moved before an earlier one. A command cannot be moved before the raise
of a flag that it sets or reads. -/
def yields : FlagChange → FlagChange → Prop
  | .raise flag, .assign command => flag ∉ (assign command).flags
  | _, _ => True

instance (earlier later : FlagChange) : Decidable (earlier.yields later) := by
  unfold yields
  split <;> infer_instance

theorem flag_mem_flags (change : FlagChange) : change.flag ∈ change.flags := by
  cases change <;> simp [flag, flags]

end FlagChange

def runChanges (schema : FlagSchema) (store : Store) (changes : List FlagChange) : Store :=
  changes.foldl (FlagChange.run schema) store

/-- The changes with those of commands first, otherwise in the same order. -/
def assignsFirst (changes : List FlagChange) : List FlagChange :=
  changes.filter FlagChange.isAssign ++ changes.filter fun change => !change.isAssign

/-! ## Single flags -/

/-- What a store holds for one flag: its value, and whether it is remembered. -/
def Store.held (store : Store) (flag : String) : Option Value × Bool :=
  (store.get? flag, store.remembers flag)

namespace Store

variable {store other left right : Store} {schema : FlagSchema} {flag asked : String}

private theorem ext_held (initial : left.initial = right.initial)
    (same : ∀ flag, left.held flag = right.held flag) : left = right := by
  obtain ⟨leftValues, leftMemory, leftInitial⟩ := left
  obtain ⟨rightValues, rightMemory, rightInitial⟩ := right
  obtain rfl : leftInitial = rightInitial := initial
  obtain rfl : leftValues = rightValues :=
    SortedMap.ext_get? fun flag => (Prod.mk.inj (same flag)).1
  obtain rfl : leftMemory = rightMemory := by
    refine SortedMap.ext_get? fun flag => ?_
    have remembered : (leftMemory.get? flag).isSome = (rightMemory.get? flag).isSome :=
      (Prod.mk.inj (same flag)).2
    cases inLeft : leftMemory.get? flag <;> cases inRight : rightMemory.get? flag <;>
      simp_all
  rfl

@[simp]
theorem held_set (store : Store) (flag : String) (value : Value) (asked : String) :
    (store.set flag value).held asked =
      if asked = flag then (some value, (store.held asked).2) else store.held asked := by
  rw [held, get?_set, remembers_set]
  split <;> rfl

@[simp]
theorem held_remember (store : Store) (flag asked : String) :
    (store.remember flag).held asked =
      if asked = flag then ((store.held asked).1, true) else store.held asked := by
  rw [held, get?_remember, remembers_remember]
  split <;> simp_all [held]

@[simp]
theorem held_forget (store : Store) (flag asked : String) :
    (store.forget flag).held asked =
      if asked = flag then ((store.held asked).1, false) else store.held asked := by
  rw [held, get?_forget, remembers_forget]
  split <;> simp_all [held]

private theorem foldl_remember (store : Store) (flags : List String) :
    flags.foldl remember store =
      { store with
        memory := flags.foldl (fun memory flag => memory.insert flag ()) store.memory } := by
  induction flags generalizing store with
  | nil => rfl
  | cons flag flags inductionHypothesis =>
      rw [List.foldl_cons, inductionHypothesis]
      rfl

theorem raise_cons (store : Store) (schema : FlagSchema) (flag : String) (flags : List String) :
    (store.raise schema (flag :: flags)).1 =
      ((store.raise schema [flag]).1.raise schema flags).1 := by
  simp only [raise, foldl_remember, replaceValues, List.filter_cons, List.filter_nil]
  cases schema.isMemoryFlag flag <;> rfl

/-- A raised flag is remembered, or gets a value that depends on its old one. -/
theorem raise_singleton (schema : FlagSchema) (flag : String) :
    (∀ store, (raise store schema [flag]).1 = store.remember flag) ∨
      ∃ raised : Option Value → Value, ∀ store,
        (raise store schema [flag]).1 = store.set flag (raised (store.get? flag)) := by
  cases memory : schema.isMemoryFlag flag with
  | true => exact Or.inl (raise_of_memory memory)
  | false =>
      obtain ⟨definition, declared, persistent⟩ := FlagSchema.exists_of_isMemoryFlag memory
      exact Or.inr ⟨definition.raisedValue, raise_of_persistent declared persistent⟩

/-- An assigned flag gets a value that depends on the assigned one only. It may be remembered or
forgotten before. -/
theorem assign_cases (schema : FlagSchema) (flag : String) (value : Value) :
    ∃ stored, (∀ store, (assign store schema flag value).1 = store.set flag stored) ∨
      (∀ store, (assign store schema flag value).1 = (store.remember flag).set flag stored) ∨
      ∀ store, (assign store schema flag value).1 = (store.forget flag).set flag stored := by
  cases declared : schema.get? flag with
  | none => exact ⟨value, Or.inl fun store => by rw [assign_of_undeclared declared]⟩
  | some definition =>
      cases transient : definition.isTransient with
      | true =>
          have assigned := fun store : Store => assign_of_transient declared transient store value
          cases truthy : value.isTruthy with
          | true => exact ⟨value, Or.inr (Or.inl fun store => by simp [assigned, truthy])⟩
          | false => exact ⟨value, Or.inr (Or.inr fun store => by simp [assigned, truthy])⟩
      | false =>
          cases typed : definition.valueType with
          | none =>
              exact ⟨value, Or.inl fun store => by rw [assign_of_untyped declared transient typed]⟩
          | some valueType =>
              obtain ⟨stored, _, assigned, -⟩ := assign_of_typed declared transient typed value
              exact ⟨stored, Or.inl fun store => by rw [assigned]⟩

/-- Stores that hold the same for the flags of a right-hand side give it the same value. -/
theorem resolve_congr {expression : SetExpression}
    (agree : ∀ flag ∈ expression.sources, left.held flag = right.held flag) :
    expression.resolve left = expression.resolve right := by
  cases expression with
  | literal value => rfl
  | copy source =>
      obtain ⟨value, remembered⟩ := Prod.mk.inj (agree source List.mem_cons_self)
      simp [SetExpression.resolve, value, remembered]
  | offset source delta =>
      obtain ⟨value, -⟩ := Prod.mk.inj (agree source List.mem_cons_self)
      simp [SetExpression.resolve, value]

end Store

/-! ## Single changes -/

namespace FlagChange

variable {schema : FlagSchema} {store left right : Store} {change first second : FlagChange}

@[simp]
theorem initial_run (schema : FlagSchema) (store : Store) (change : FlagChange) :
    (change.run schema store).initial = store.initial := by
  cases change with
  | raise flag => exact Store.initial_raise store schema [flag]
  | assign command => exact Store.initial_assign store schema command.flag _

theorem held_run_of_ne {asked : String} (other : asked ≠ change.flag) :
    (change.run schema store).held asked = store.held asked := by
  cases change with
  | raise flag =>
      have different : asked ≠ flag := other
      rw [run]
      rcases Store.raise_singleton schema flag with remembered | ⟨raised, given⟩
      · simp [remembered, different]
      · simp [given, different]
  | assign command =>
      have different : asked ≠ command.flag := other
      rw [run]
      obtain ⟨stored, given | given | given⟩ := Store.assign_cases schema command.flag
        (command.expression.resolve store) <;> simp [given, different]

/-- What a change makes of its flag depends on its flags only. -/
theorem held_run_congr (agree : ∀ flag ∈ change.flags, left.held flag = right.held flag) :
    (change.run schema left).held change.flag = (change.run schema right).held change.flag := by
  have own := agree change.flag change.flag_mem_flags
  cases change with
  | raise flag =>
      have same : left.held flag = right.held flag := own
      have value : left.get? flag = right.get? flag := (Prod.mk.inj same).1
      rw [run, run, FlagChange.flag]
      rcases Store.raise_singleton schema flag with remembered | ⟨raised, given⟩
      · simp [remembered, same]
      · simp [given, same, value]
  | assign command =>
      have same : left.held command.flag = right.held command.flag := own
      have resolved : command.expression.resolve left = command.expression.resolve right :=
        Store.resolve_congr fun flag source => agree flag (List.mem_cons_of_mem _ source)
      rw [run, run, FlagChange.flag, resolved]
      obtain ⟨stored, given | given | given⟩ := Store.assign_cases schema command.flag
        (command.expression.resolve right) <;> simp [given, same]

theorem isSome_get?_assign (schema : FlagSchema) (store : Store) (command : SetCommand) :
    (((assign command).run schema store).get? command.flag).isSome = true := by
  rw [run]
  obtain ⟨stored, given | given | given⟩ := Store.assign_cases schema command.flag
    (command.expression.resolve store) <;> simp [given, Store.get?, Store.set]

private theorem isSome_get?_run (schema : FlagSchema) (store : Store) (change : FlagChange)
    {flag : String} (valued : (store.get? flag).isSome = true) :
    ((change.run schema store).get? flag).isSome = true := by
  by_cases own : flag = change.flag
  · subst own
    cases change with
    | raise flag =>
        rw [run]
        rcases Store.raise_singleton schema flag with remembered | ⟨raised, given⟩
        · rw [remembered]
          exact valued
        · rw [given]
          simp [Store.get?, Store.set, FlagChange.flag]
    | assign command => exact isSome_get?_assign schema store command
  · have same : (change.run schema store).get? flag = store.get? flag :=
      (Prod.mk.inj (held_run_of_ne own)).1
    rw [same]
    exact valued

/-- Stores that hold the same for some flags, among them those of a change, still do after it. -/
theorem held_run_of_agree {flags : Set String}
    (agree : ∀ flag ∈ flags, left.held flag = right.held flag)
    (covered : ∀ flag ∈ change.flags, flag ∈ flags) :
    ∀ flag ∈ flags, (change.run schema left).held flag = (change.run schema right).held flag := by
  intro flag listed
  by_cases own : flag = change.flag
  · rw [own]
    exact held_run_congr fun read member => agree read (covered read member)
  · rw [held_run_of_ne own, held_run_of_ne own]
    exact agree flag listed

/-- Two changes commute when neither depends on the flag of the other. -/
theorem run_comm (firstApart : first.flag ∉ second.flags)
    (secondApart : second.flag ∉ first.flags) :
    second.run schema (first.run schema store) = first.run schema (second.run schema store) := by
  have different : first.flag ≠ second.flag := fun same =>
    firstApart (same ▸ second.flag_mem_flags)
  refine Store.ext_held (by simp) fun asked => ?_
  -- What is held for the flag of one change is decided by that change alone, in both orders.
  by_cases askedSecond : asked = second.flag
  · subst askedSecond
    rw [held_run_of_ne different.symm]
    exact held_run_congr fun flag member => held_run_of_ne fun same => firstApart (same ▸ member)
  · rw [held_run_of_ne askedSecond]
    by_cases askedFirst : asked = first.flag
    · subst askedFirst
      exact (held_run_congr fun flag member =>
        held_run_of_ne fun same => secondApart (same ▸ member)).symm
    · rw [held_run_of_ne askedFirst, held_run_of_ne askedFirst, held_run_of_ne askedSecond]

end FlagChange

/-! ## Runs of changes -/

section Runs

variable {schema : FlagSchema} {store : Store} {changes : List FlagChange}

theorem runChanges_append (schema : FlagSchema) (store : Store) (first second : List FlagChange) :
    runChanges schema store (first ++ second) =
      runChanges schema (runChanges schema store first) second :=
  List.foldl_append

theorem Store.held_runChanges_of_ne {flag : String}
    (others : ∀ change ∈ changes, flag ≠ change.flag) :
    (runChanges schema store changes).held flag = store.held flag := by
  induction changes generalizing store with
  | nil => rfl
  | cons change changes inductionHypothesis =>
      obtain ⟨other, rest⟩ := List.forall_mem_cons.mp others
      exact (inductionHypothesis rest).trans (FlagChange.held_run_of_ne other)

theorem isSome_get?_runChanges (schema : FlagSchema) (changes : List FlagChange) {store : Store}
    {flag : String} (valued : (store.get? flag).isSome = true) :
    ((runChanges schema store changes).get? flag).isSome = true := by
  induction changes generalizing store with
  | nil => exact valued
  | cons change changes inductionHypothesis =>
      exact inductionHypothesis (change.isSome_get?_run schema store valued)

theorem held_runChanges_of_agree {flags : Set String} {left right : Store}
    (agree : ∀ flag ∈ flags, left.held flag = right.held flag)
    (covered : ∀ change ∈ changes, ∀ flag ∈ change.flags, flag ∈ flags) :
    ∀ flag ∈ flags,
      (runChanges schema left changes).held flag = (runChanges schema right changes).held flag := by
  induction changes generalizing left right with
  | nil => exact agree
  | cons change changes inductionHypothesis =>
      obtain ⟨first, others⟩ := List.forall_mem_cons.mp covered
      exact inductionHypothesis (FlagChange.held_run_of_agree agree first) others

/-- The raise of a flag can wait for commands that neither set nor read it. -/
theorem run_raise_runChanges {flag : String}
    (apart : ∀ change ∈ changes, change.isAssign = true ∧ flag ∉ change.flags) :
    runChanges schema ((FlagChange.raise flag).run schema store) changes =
      (FlagChange.raise flag).run schema (runChanges schema store changes) := by
  induction changes generalizing store with
  | nil => rfl
  | cons change changes inductionHypothesis =>
      obtain ⟨⟨-, untouched⟩, others⟩ := List.forall_mem_cons.mp apart
      have apartFlag : change.flag ∉ (FlagChange.raise flag).flags := fun member =>
        untouched (List.mem_singleton.mp member ▸ change.flag_mem_flags)
      have swapped : change.run schema ((FlagChange.raise flag).run schema store) =
          (FlagChange.raise flag).run schema (change.run schema store) :=
        FlagChange.run_comm untouched apartFlag
      rw [runChanges, List.foldl_cons, swapped]
      exact inductionHypothesis others

/-- When no command after the raise of a flag sets or reads it, all commands can run first. -/
theorem runChanges_assignsFirst (apart : changes.Pairwise FlagChange.yields) :
    runChanges schema store changes = runChanges schema store (assignsFirst changes) := by
  induction changes generalizing store with
  | nil => rfl
  | cons change changes inductionHypothesis =>
      obtain ⟨headYields, others⟩ := List.pairwise_cons.mp apart
      have rest (start : Store) :
          runChanges schema start changes = runChanges schema start (assignsFirst changes) :=
        inductionHypothesis others
      cases change with
      | assign command => exact rest _
      | raise flag =>
          have untouched : ∀ change ∈ changes.filter FlagChange.isAssign,
              change.isAssign = true ∧ flag ∉ change.flags := by
            intro change member
            obtain ⟨listed, assigns⟩ := List.mem_filter.mp member
            cases change with
            | raise other => cases assigns
            | assign command => exact ⟨rfl, headYields _ listed⟩
          calc runChanges schema store (.raise flag :: changes)
              = runChanges schema ((FlagChange.raise flag).run schema store)
                  (assignsFirst changes) := rest _
            _ = runChanges schema ((FlagChange.raise flag).run schema
                  (runChanges schema store (changes.filter FlagChange.isAssign)))
                    (changes.filter fun change => !change.isAssign) := by
                rw [assignsFirst, runChanges_append, run_raise_runChanges untouched]
            _ = runChanges schema store (assignsFirst (.raise flag :: changes)) := by
                simp [assignsFirst, FlagChange.isAssign, runChanges]

theorem runChanges_raises (schema : FlagSchema) (store : Store) (flags : List String) :
    runChanges schema store (flags.map .raise) = (store.raise schema flags).1 := by
  induction flags generalizing store with
  | nil => simp [runChanges, Store.raise, GameState.raise, Store.replaceValues]
  | cons flag flags inductionHypothesis =>
      rw [Store.raise_cons, ← inductionHypothesis]
      rfl

/-- The changes that commands make. Those without right-hand side make none. -/
def commandChanges (raws : List RawCommand) : List FlagChange :=
  (raws.filterMap RawCommand.read).map .assign

theorem commandChanges_append (first second : List RawCommand) :
    commandChanges (first ++ second) = commandChanges first ++ commandChanges second := by
  simp [commandChanges]

theorem isAssign_of_mem_commandChanges {raws : List RawCommand} {change : FlagChange}
    (member : change ∈ commandChanges raws) : change.isAssign = true := by
  obtain ⟨command, -, rfl⟩ := List.mem_map.mp member
  rfl

theorem runChanges_commandChanges (schema : FlagSchema) (store : Store) (raws : List RawCommand) :
    runChanges schema store (commandChanges raws) = (store.runCommands schema raws).1 := by
  induction raws generalizing store with
  | nil => rfl
  | cons raw raws inductionHypothesis =>
      have next : runChanges schema store (commandChanges (raw :: raws)) =
          runChanges schema (store.runCommand schema raw).1 (commandChanges raws) := by
        unfold Store.runCommand commandChanges
        cases read : raw.read <;> simp [read, runChanges, FlagChange.run]
      rw [next, inductionHypothesis]
      rfl

end Runs

/-! ## Visits -/

namespace Node

def changes (node : Node) (store : Store) : List FlagChange :=
  (node.scene store).content.elim [] (fun content => commandChanges (contentCommands content)) ++
    node.entryFlags.map .raise

/-- The store after a visit is that after its changes. -/
theorem visit_eq_runChanges (node : Node) (store : Store) (schema : FlagSchema) :
    (node.visit store schema).2 = runChanges schema store (node.changes store) := by
  rw [changes, runChanges_append, runChanges_raises]
  unfold visit
  cases played : (node.scene store).content with
  | none => simp [runChanges, played]
  | some content => simp [runChanges_commandChanges, Store.play, played]

end Node

end BranchingDialogue

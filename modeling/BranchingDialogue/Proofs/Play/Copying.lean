import Mathlib.Data.List.Induction
import BranchingDialogue.Proofs.Play.Lowering

/-! A copy gives a flag the value of its source. Whether the source is remembered counts for it only
as long as the source has no value, while a flag is set as soon as it is remembered. So a flag that
was lowered and raised again is set, and a copy of it is not. -/

namespace BranchingDialogue

open Script

/-! ## Raises that last -/

/-- Whether a change can take a flag out of the memory, as the commands for a declared flag do. -/
def FlagChange.canForget (schema : FlagSchema) (flag : String) : FlagChange → Bool
  | .raise _ => false
  | .assign command => command.flag == flag && schema.contains flag

/-- Whether changes raise a flag, and no change after the raise can take it out of the memory. -/
def StaysRaised (schema : FlagSchema) (flag : String) (changes : List FlagChange) : Prop :=
  ∃ earlier later, changes = earlier ++ .raise flag :: later ∧
    ∀ change ∈ later, change.canForget schema flag = false

section Raises

variable {schema : FlagSchema} {start store : Store} {flag : String} {definition : FlagDefinition}
  {changes : List FlagChange}

private theorem staysRaised_append_singleton {change : FlagChange} :
    StaysRaised schema flag (changes ++ [change]) ↔
      change = .raise flag ∨
        StaysRaised schema flag changes ∧ change.canForget schema flag = false := by
  constructor
  · rintro ⟨earlier, later, equality, lasting⟩
    rcases List.eq_nil_or_concat' later with rfl | ⟨between, last, rfl⟩
    · exact Or.inl (List.head_eq_of_cons_eq (List.append_inj' equality rfl).2)
    · rw [← List.cons_append, ← List.append_assoc] at equality
      obtain ⟨changesEq, lastEq⟩ := List.append_inj' equality rfl
      cases lastEq
      obtain ⟨betweenLasting, lastLasting⟩ := List.forall_mem_append.mp lasting
      exact Or.inr ⟨⟨earlier, between, changesEq, betweenLasting⟩,
        lastLasting change List.mem_cons_self⟩
  · rintro (rfl | ⟨⟨earlier, later, rfl, lasting⟩, changeLasting⟩)
    · exact ⟨changes, [], rfl, by simp⟩
    · refine ⟨earlier, later ++ [change], by simp, ?_⟩
      exact List.forall_mem_append.mpr ⟨lasting, by simpa using changeLasting⟩

/-- Nothing takes a flag out of the memory that is not declared. -/
theorem staysRaised_of_undeclared (undeclared : schema.get? flag = none) :
    StaysRaised schema flag changes ↔ FlagChange.raise flag ∈ changes := by
  have absent : schema.contains flag = false := congrArg Option.isSome undeclared
  have kept : ∀ change : FlagChange, change.canForget schema flag = false := by
    rintro (other | command) <;> simp [FlagChange.canForget, absent]
  constructor
  · rintro ⟨earlier, later, rfl, -⟩
    simp
  · intro raised
    obtain ⟨earlier, later, rfl⟩ := List.append_of_mem raised
    exact ⟨earlier, later, rfl, fun change _ => kept change⟩

/-- A change that cannot make a transient flag forgotten leaves its value as it is, and only the raise
of the flag has to do with the memory of it. -/
theorem FlagChange.held_run_of_kept (declared : schema.get? flag = some definition)
    (transient : definition.isTransient = true) {change : FlagChange}
    (kept : change.canForget schema flag = false) :
    (change.run schema store).held flag =
      (store.get? flag, store.remembers flag || change == .raise flag) := by
  have memory : schema.isMemoryFlag flag = true := by
    simp [FlagSchema.isMemoryFlag, declared, transient]
  have contained : schema.contains flag = true := Option.isSome_iff_exists.mpr ⟨_, declared⟩
  cases change with
  | raise other =>
      by_cases own : flag = other
      · subst own
        simp [run, Store.raise_of_memory memory, Store.held]
      · have elsewhere : other ≠ flag := Ne.symm own
        rw [held_run_of_ne own]
        simp [Store.held, elsewhere]
  | assign command =>
      have other : flag ≠ command.flag := by
        rintro rfl
        simp [canForget, contained] at kept
      rw [held_run_of_ne other]
      simp [Store.held]

/-- A command leaves a transient flag remembered exactly when it gives a value that counts as set. -/
theorem FlagChange.remembers_run_of_canForget (declared : schema.get? flag = some definition)
    (transient : definition.isTransient = true) {change : FlagChange}
    (forgets : change.canForget schema flag = true) :
    (change.run schema store).remembers flag =
      ((change.run schema store).get? flag).any Value.isTruthy := by
  cases change with
  | raise other => cases forgets
  | assign command =>
      obtain ⟨rfl, -⟩ : command.flag = flag ∧ schema.contains flag = true := by
        simpa [canForget] using forgets
      rw [run, Store.assign_of_transient declared transient]
      cases truthy : (command.expression.resolve store).isTruthy <;> simp [truthy]

/-- A transient flag with a value that does not count as set is remembered when it was raised after
the last command for it. -/
theorem remembers_runChanges_of_transient (declared : schema.get? flag = some definition)
    (transient : definition.isTransient = true) (forgotten : start.remembers flag = false)
    (lowered : ((runChanges schema start changes).get? flag).any Value.isTruthy = false) :
    (runChanges schema start changes).remembers flag = true ↔ StaysRaised schema flag changes := by
  -- The last change decides, so that changes are added at the end.
  induction changes using List.reverseRecOn with
  | nil => simp [runChanges, forgotten, StaysRaised]
  | append_singleton changes change inductionHypothesis =>
      have last : runChanges schema start (changes ++ [change]) =
          change.run schema (runChanges schema start changes) := runChanges_append _ _ _ _
      rw [last] at lowered ⊢
      rw [staysRaised_append_singleton]
      cases forgets : change.canForget schema flag with
      | true =>
          have noRaise : change ≠ .raise flag := by
            rintro rfl
            cases forgets
          rw [FlagChange.remembers_run_of_canForget declared transient forgets, lowered]
          simp [noRaise]
      | false =>
          obtain ⟨sameValue, memory⟩ :=
            Prod.mk.inj (FlagChange.held_run_of_kept declared transient forgets)
          rw [sameValue] at lowered
          rw [memory, Bool.or_eq_true, inductionHypothesis lowered, beq_iff_eq, or_comm]
          simp

/-- A memory flag with a value that does not count as set is remembered when a raise of it lasts. -/
theorem remembers_runChanges_of_memory (memory : schema.isMemoryFlag flag = true)
    (forgotten : start.remembers flag = false)
    (lowered : ((runChanges schema start changes).get? flag).any Value.isTruthy = false) :
    (runChanges schema start changes).remembers flag = true ↔ StaysRaised schema flag changes := by
  cases declared : schema.get? flag with
  | some definition =>
      have transient : definition.isTransient = true := by
        simpa [FlagSchema.isMemoryFlag, declared] using memory
      exact remembers_runChanges_of_transient declared transient forgotten lowered
  | none =>
      rw [remembers_runChanges_iff (by simp [declared]), staysRaised_of_undeclared declared]
      simp [forgotten, declared]

end Raises

/-! ## Copies -/

namespace Store

variable {schema : FlagSchema} {start store : Store} {copied source content : String}

/-- The copy of a flag is set by the value of the flag, and without a value by its memory. -/
theorem isSet_play_copy (undeclared : schema.get? copied = none)
    (forgotten : store.remembers copied = false)
    (single : (contentCommands content).filterMap RawCommand.read = [⟨copied, .copy source⟩]) :
    (store.play schema content).1.isSet copied =
      (store.get? source).elim (store.remembers source) Value.isTruthy := by
  have played : (store.play schema content).1 =
      (store.assign schema copied ((SetExpression.copy source).resolve store)).1 := by
    rw [play, ← runChanges_commandChanges, commandChanges, single]
    rfl
  rw [played, assign_of_undeclared undeclared]
  cases given : store.get? source <;>
    simp [isSet, forgotten, SetExpression.resolve, given, Value.isTruthy]

/-- Wherever a playthrough stands, content that copies a memory flag into an undeclared flag that is
not remembered leaves the copy set exactly when its source was set before, unless the source has a
value that does not count as set and was raised for good. -/
theorem copies_iff (startsForgotten : start.remembers source = false)
    (memory : schema.isMemoryFlag source = true) (undeclared : schema.get? copied = none)
    (events : List FlagEvent)
    (forgotten : (runEvents schema start events).remembers copied = false)
    (single : (contentCommands content).filterMap RawCommand.read = [⟨copied, .copy source⟩]) :
    let before := runEvents schema start events
    ((before.play schema content).1.isSet copied = true ↔ before.isSet source = true) ↔
      ∀ value, before.get? source = some value → value.isTruthy = false →
        ¬ StaysRaised schema source (events.flatMap FlagEvent.changes) := by
  intro before
  rw [isSet_play_copy undeclared forgotten single, isSet]
  cases given : before.get? source with
  | none => simp [before]
  | some value =>
      cases truthy : value.isTruthy with
      | true => simp [truthy]
      | false =>
          have lowered : ((runChanges schema start (events.flatMap FlagEvent.changes)).get?
              source).any Value.isTruthy = false := by
            rw [← runEvents_eq_runChanges, given, Option.any_some, truthy]
          rw [← remembers_runChanges_of_memory memory startsForgotten lowered,
            ← runEvents_eq_runChanges]
          simp [truthy, before]

end Store

/-! ## A guard who is met again -/

def reminderEvents : List FlagEvent :=
  [.play "Who is he? <<set $met = false>>", .raise ["met"]]

/-- As long as the guard is not forgotten, his flag is copied faithfully. -/
theorem Store.copies_met :
    let start := ofSchema rumourSchema .empty
    let content := "You remember him. <<set $seen = $met>>"
    let before := runEvents rumourSchema start rumourEvents
    start.remembers "met" = false ∧ rumourSchema.isMemoryFlag "met" = true ∧
      rumourSchema.get? "seen" = none ∧ before.remembers "seen" = false ∧
      (contentCommands content).filterMap RawCommand.read = [⟨"seen", .copy "met"⟩] ∧
        (before.play rumourSchema content).1.isSet "seen" = true := by
  intro start content before
  have forgotten : before.remembers "seen" = false := by decide +kernel
  have single : (contentCommands content).filterMap RawCommand.read =
      [⟨"seen", .copy "met"⟩] := by decide +kernel
  have given : before.get? "met" = some (.bool true) := by decide +kernel
  have law := @copies_iff rumourSchema start "seen" "met" content rfl rfl rfl rumourEvents forgotten
    single
  have faithful := law.mpr fun value valueEq falsy => by
    cases given.symm.trans valueEq
    cases falsy
  exact ⟨rfl, rfl, rfl, forgotten, single, faithful.mpr (by decide +kernel)⟩

/-- A flag that was lowered and raised again is set, and its copy is not. -/
theorem Store.copy_of_raised_unset :
    let start := ofSchema rumourSchema .empty
    let content := "<<set $seen = $met>>"
    let before := runEvents rumourSchema start reminderEvents
    rumourSchema.isMemoryFlag "met" = true ∧ rumourSchema.get? "seen" = none ∧
      before.remembers "seen" = false ∧
      (contentCommands content).filterMap RawCommand.read = [⟨"seen", .copy "met"⟩] ∧
      before.isSet "met" = true ∧ (before.play rumourSchema content).1.isSet "seen" = false :=
  ⟨rfl, rfl, by decide +kernel, by decide +kernel, by decide +kernel, by decide +kernel⟩

end BranchingDialogue

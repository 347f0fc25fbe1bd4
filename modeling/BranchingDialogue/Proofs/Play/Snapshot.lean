import BranchingDialogue.Play.Visit

/-! A store remembers the values that it was created with. Nothing that happens in a playthrough
changes this snapshot: raising flags, playing content, visiting nodes and taking choices change only
the values and the memory set. -/

namespace BranchingDialogue

open Script

namespace Store

@[simp]
theorem initial_set (store : Store) (flag : String) (value : Value) :
    (store.set flag value).initial = store.initial :=
  rfl

@[simp]
theorem initial_remember (store : Store) (flag : String) :
    (store.remember flag).initial = store.initial :=
  rfl

@[simp]
theorem initial_forget (store : Store) (flag : String) :
    (store.forget flag).initial = store.initial :=
  rfl

@[simp]
theorem initial_foldl_remember (flags : List String) (store : Store) :
    (flags.foldl remember store).initial = store.initial := by
  induction flags generalizing store with
  | nil => rfl
  | cons flag rest inductionHypothesis =>
      rw [List.foldl_cons, inductionHypothesis, initial_remember]

@[simp]
theorem initial_raise (store : Store) (schema : FlagSchema) (flags : List String) :
    (store.raise schema flags).1.initial = store.initial := by
  simp [raise, replaceValues]

@[simp]
theorem initial_assign (store : Store) (schema : FlagSchema) (flag : String) (value : Value) :
    (store.assign schema flag value).1.initial = store.initial := by
  unfold assign
  split
  · rfl
  · split
    · split <;> rfl
    · split
      · rfl
      · split
        · rfl
        · split <;> rfl

@[simp]
theorem initial_runCommand (store : Store) (schema : FlagSchema) (raw : RawCommand) :
    (store.runCommand schema raw).1.initial = store.initial := by
  unfold runCommand
  split
  · rfl
  · exact initial_assign _ _ _ _

@[simp]
theorem initial_runCommands (schema : FlagSchema) (commands : List RawCommand) (store : Store) :
    (store.runCommands schema commands).1.initial = store.initial := by
  induction commands generalizing store with
  | nil => rfl
  | cons command rest inductionHypothesis =>
      simp only [runCommands]
      rw [inductionHypothesis, initial_runCommand]

@[simp]
theorem initial_play (store : Store) (schema : FlagSchema) (content : String) :
    (store.play schema content).1.initial = store.initial :=
  initial_runCommands schema (contentCommands content) store

end Store

@[simp]
theorem Node.initial_visit (node : Node) (store : Store) (schema : FlagSchema) :
    (node.visit store schema).2.initial = store.initial := by
  simp only [Node.visit, Store.initial_raise]
  cases (node.scene store).content with
  | none => rfl
  | some content => exact Store.initial_play store schema content

@[simp]
theorem Choice.initial_take (choice : Choice) (store : Store) (schema : FlagSchema) :
    (choice.take store schema).1.initial = store.initial :=
  Store.initial_raise store schema choice.flags

end BranchingDialogue

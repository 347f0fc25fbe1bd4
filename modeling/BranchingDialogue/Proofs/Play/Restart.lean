import BranchingDialogue.Proofs.Play.Coherence

/-! A restart undoes all that was done in a session. Its values come from the creation snapshot of
the store, its memory set, its visit and its warnings are empty again, and it stands at its start.
What is done after a restart is therefore answered as in a session that was just built. -/

namespace BranchingDialogue.Session

/-! ## Runs in two parts -/

private theorem after_append (session : Session) (before later : List Operation) :
    session.after (before ++ later) = (session.after before).after later :=
  List.foldl_append

private theorem answers_cons (session : Session) (operation : Operation) (later : List Operation) :
    session.answers (operation :: later) =
      (session.perform operation).1 :: (session.perform operation).2.answers later := rfl

private theorem answers_append (session : Session) (before later : List Operation) :
    session.answers (before ++ later) =
      session.answers before ++ (session.after before).answers later := by
  induction before generalizing session with
  | nil => rfl
  | cons operation before inductionHypothesis =>
      have rest := inductionHypothesis (session.perform operation).2
      rw [List.cons_append, answers_cons, rest, answers_cons]
      rfl

/-! ## Restarts -/

variable {tree : DialogueTree} {schema : FlagSchema} {state : GameState} {start : Option String}
  {session : Session}

/-- A coherent session goes back to where it began. -/
theorem Coherent.restart_eq {id : String} {initial : SortedMap Value}
    (coherent : session.Coherent tree schema id initial) :
    session.restart = begin tree schema id ⟨initial, .empty, initial⟩ := by
  unfold restart Store.reset
  rw [coherent.sameTree, coherent.sameSchema, coherent.sameStart, coherent.created]

/-- A restart gives back the session that was built. -/
theorem restart_after_of_build (built : build tree schema state start = .ok session)
    (operations : List Operation) : (session.after operations).restart = session := by
  obtain ⟨-, sessionEq⟩ := build_eq_ok built
  rw [(coherent_of_build built operations).restart_eq, sessionEq]
  rfl

/-- Operations after a restart are answered as in the session that was built, and they leave it
with the same flags and warnings and at the same place, whatever was done before the restart. -/
theorem replay_after_restart (built : build tree schema state start = .ok session)
    (before later : List Operation) :
    session.answers (before ++ .restart :: later) =
        session.answers before ++ .ok none :: session.answers later ∧
      session.after (before ++ .restart :: later) = session.after later := by
  have restarted : ((session.after before).perform .restart).2 = session :=
    restart_after_of_build built before
  constructor
  · calc session.answers (before ++ .restart :: later)
        = session.answers before ++ (session.after before).answers (.restart :: later) :=
          answers_append session before _
      _ = session.answers before ++ .ok none :: session.answers later := by
          rw [answers_cons, restarted]
          rfl
  · calc session.after (before ++ .restart :: later)
        = (session.after before).after (.restart :: later) := after_append session before _
      _ = ((session.after before).perform .restart).2.after later := rfl
      _ = session.after later := by rw [restarted]

/-- Gold and a paid toll are gone after a restart, and the guard gives the same gold again. -/
theorem replay_after_restart_tollTree :
    let before := [.look, .advance, .choose 0, .choose 1]
    let later := [.advance, .choose 1, .choose 0]
    build tollTree .empty .empty none = .ok tollSession ∧
      (tollSession.after before).isFinished = true ∧
      (tollSession.after before).store.isSet "paid" = true ∧
      tollSession.answers (before ++ .restart :: later) =
        tollSession.answers before ++ .ok none :: tollSession.answers later ∧
      tollSession.after (before ++ .restart :: later) = tollSession.after later ∧
      (tollSession.after later).store.get? "gold" = some (.number 5.0) := by
  intro before later
  have built : build tollTree .empty .empty none = .ok tollSession := rfl
  obtain ⟨answered, reached⟩ := replay_after_restart built before later
  refine ⟨built, ?_, ?_, answered, reached, ?_⟩ <;> decide +kernel

end BranchingDialogue.Session

import BranchingDialogue.Proofs.Play.Coherence

/-! A session refuses an operation for one of three reasons: the dialogue is over, a decision waits
for a choice, or there is no visible choice with the given number. A refusal leaves the session as a
look leaves it, and each reason applies exactly where it should. -/

namespace BranchingDialogue.Session

variable {tree : DialogueTree} {schema : FlagSchema} {start : String} {initial : SortedMap Value}
  {session : Session}

/-- A refused operation leaves the session as a look leaves it. -/
theorem perform_of_refused {operation : Operation} {error : PlayError}
    (refused : (session.perform operation).1 = .error error) :
    (session.perform operation).2 = session.look.2 := by
  cases operation with
  | look => cases refused
  | restart => cases refused
  | advance =>
      change session.advance.1 = _ at refused
      show session.advance.2 = _
      unfold advance at refused ⊢
      cases sight : session.look with
      | mk shown looked =>
          cases shown with
          | none => simp
          | some visit =>
              cases decision : visit.isDecision <;> simp [sight, decision] at refused ⊢
  | choose index =>
      change (session.choose index).1 = _ at refused
      show (session.choose index).2 = _
      unfold choose at refused ⊢
      cases sight : session.look with
      | mk shown looked =>
          cases shown with
          | none => simp
          | some visit =>
              cases picked : visit.choices[index]? <;> simp [sight, picked] at refused ⊢

/-! ## Finished sessions -/

private theorem Coherent.look_of_finished (coherent : session.Coherent tree schema start initial)
    (finished : session.isFinished = true) : session.look = (none, session) := by
  have nowhere : session.current = none := Option.isNone_iff_eq_none.mp finished
  obtain ⟨visit, seen, -⟩ | ⟨-, -, sight⟩ | ⟨_, _, -, here, -⟩ := look_cases session
  · obtain ⟨_, _, _, here, -⟩ := coherent.made visit seen
    cases nowhere.symm.trans here
  · exact sight
  · cases nowhere.symm.trans here

/-- A session in which a look shows nothing refuses to move. -/
theorem refused_of_look (nothing : session.look = (none, session)) :
    session.advance = (.error .finished, session) ∧
      ∀ index, session.choose index = (.error .finished, session) := by
  unfold advance choose
  rw [nothing]
  exact ⟨rfl, fun _ => rfl⟩

/-- Without a restart such a session stays as it is. -/
theorem after_of_look (nothing : session.look = (none, session)) {operations : List Operation}
    (noRestart : .restart ∉ operations) : session.after operations = session := by
  obtain ⟨advanced, chosen⟩ := refused_of_look nothing
  induction operations with
  | nil => rfl
  | cons operation operations inductionHypothesis =>
      obtain ⟨other, others⟩ := not_or.mp fun member =>
        noRestart (List.mem_cons.mpr member)
      have stays : (session.perform operation).2 = session := by
        cases operation with
        | look => exact congrArg Prod.snd nothing
        | advance => exact congrArg Prod.snd advanced
        | choose index => exact congrArg Prod.snd (chosen index)
        | restart => exact absurd rfl other
      show (session.perform operation).2.after operations = session
      rw [stays]
      exact inductionHypothesis others

/-! ## Sessions at a node -/

/-- At a node of the tree a look shows the visit of the node, and its flags. -/
theorem Coherent.exists_look (coherent : session.Coherent tree schema start initial) {id : String}
    {node : Node} (here : session.current = some id) (stored : tree.get? id = some node) :
    ∃ visit looked before, session.look = (some visit, looked) ∧
      node.visit before schema = (visit, looked.store) := by
  obtain ⟨visit, seen, sight⟩ | ⟨-, absent, -⟩ | ⟨_, _, -, hereToo, storedToo, sight⟩ :=
    look_cases session
  · obtain ⟨_, _, before, hereToo, storedToo, visited⟩ := coherent.made visit seen
    cases here.symm.trans hereToo
    cases stored.symm.trans storedToo
    exact ⟨visit, session, before, sight, visited⟩
  · rw [here, Option.bind_some, coherent.sameTree, stored] at absent
    cases absent
  · cases here.symm.trans hereToo
    rw [coherent.sameTree] at storedToo
    cases stored.symm.trans storedToo
    rw [← coherent.sameSchema]
    exact ⟨_, _, session.store, sight, rfl⟩

/-- How a session answers at a node. At a decision it waits for one of the visible choices, and at
any other node it can advance and has no choice. -/
def AnswersAt (node : Node) (session : Session) : Prop :=
  let looked := session.look.2
  match node.choices? with
  | some choices =>
      let visible := choices.filter (Choice.isVisible looked.store)
      session.advance = (.error (.awaitingChoice node.id), looked) ∧
        ∀ index,
          if index < visible.length then
            ∃ next, (session.choose index).1 = .ok next
          else
            session.choose index = (.error (.choiceOutOfRange index visible.length), looked)
  | none =>
      (∃ next, session.advance.1 = .ok next) ∧
        ∀ index, session.choose index = (.error (.choiceOutOfRange index 0), looked)

private theorem Coherent.answersAt (coherent : session.Coherent tree schema start initial)
    {id : String}
    {node : Node} (here : session.current = some id) (stored : tree.get? id = some node) :
    session.AnswersAt node := by
  obtain ⟨visit, looked, before, sight, visited⟩ := coherent.exists_look here stored
  have decision : visit.isDecision = node.choices?.isSome := by
    rw [← node.isDecision_visit before schema, visited]
  have name : visit.node = node.id := by
    rw [← node.node_visit before schema, visited]
  unfold AnswersAt advance choose
  simp only [sight, decision, name]
  cases listed : node.choices? with
  | none =>
      have noChoice : visit.choices = [] := by
        have shown := node.choices_visit before schema
        rw [visited, listed] at shown
        exact shown
      refine ⟨⟨_, rfl⟩, fun index => ?_⟩
      simp [noChoice]
  | some choices =>
      have visible : visit.choices = choices.filter (Choice.isVisible looked.store) :=
        Node.choices_of_visit visited listed
      refine ⟨rfl, fun index => ?_⟩
      rw [← visible]
      split
      · rename_i inRange
        rw [List.getElem?_eq_getElem inRange]
        exact ⟨_, rfl⟩
      · rename_i outOfRange
        rw [List.getElem?_eq_none (Nat.le_of_not_lt outOfRange)]

/-- Whatever was done in a session that was built, each refused operation leaves it as a look does.
When it has finished it refuses to move, and it stays as it is until a restart. At a node of the tree
it answers as the kind of the node asks for. -/
theorem answers_after {tree : DialogueTree} {schema : FlagSchema} {state : GameState}
    {start : Option String} {session : Session}
    (built : build tree schema state start = .ok session) (operations : List Operation) :
    let played := session.after operations
    (∀ operation error, (played.perform operation).1 = .error error →
        (played.perform operation).2 = played.look.2) ∧
      (played.isFinished = true →
        (played.advance = (.error .finished, played) ∧
          ∀ index, played.choose index = (.error .finished, played)) ∧
            ∀ later, .restart ∉ later → played.after later = played) ∧
      ∀ id, played.current = some id →
        ∃ node, tree.get? id = some node ∧ played.AnswersAt node := by
  intro played
  have coherent := coherent_of_build built operations
  refine ⟨fun _ _ => perform_of_refused, fun finished => ?_, fun id here => ?_⟩
  · have nothing : played.look = (none, played) := coherent.look_of_finished finished
    exact ⟨refused_of_look nothing, fun _ noRestart => after_of_look nothing noRestart⟩
  · obtain ⟨node, stored⟩ := Option.isSome_iff_exists.mp (coherent.present id here)
    exact ⟨node, stored, coherent.answersAt here stored⟩

/-- At the question of the guard only the toll can be chosen, and beyond the gate nothing is left. -/
theorem answers_after_tollTree :
    let asked := tollSession.after [.advance]
    let passed := tollSession.after [.advance, .choose 0, .choose 1]
    build tollTree .empty .empty none = .ok tollSession ∧
      asked.advance = (.error (.awaitingChoice "ask"), asked.look.2) ∧
      asked.choose 1 = (.error (.choiceOutOfRange 1 1), asked.look.2) ∧
      passed.isFinished = true ∧ passed.advance = (.error .finished, passed) := by
  intro asked passed
  have built : build tollTree .empty .empty none = .ok tollSession := rfl
  have finished : passed.isFinished = true := by decide +kernel
  obtain ⟨-, -, atNode⟩ := answers_after built [.advance]
  obtain ⟨-, atEnd, -⟩ := answers_after built [.advance, .choose 0, .choose 1]
  obtain ⟨node, stored, answers⟩ := atNode "ask" (by decide +kernel)
  cases stored
  have visible : [payToll, passGate].filter (Choice.isVisible asked.look.2.store) = [payToll] := by
    decide +kernel
  obtain ⟨waits, picks⟩ := answers
  rw [visible] at picks
  exact ⟨built, waits, picks 1, finished, (atEnd finished).1.1⟩

end BranchingDialogue.Session

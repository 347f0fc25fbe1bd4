import Mathlib.Logic.Relation
import BranchingDialogue.Play.Session

/-! Whatever a player does in a session comes down to four steps: the current node is visited, a
visit is left for its target, a visible choice is taken and leads to its target, and the session
goes back to its start. What every step keeps is therefore kept by every run of operations. -/

namespace BranchingDialogue.Session

def enter (session : Session) (node : Node) : Session :=
  let (visit, store) := node.visit session.store session.schema
  { session with store, visited := some visit, warnings := session.warnings ++ visit.warnings }

/-- The session in which a choice has been taken, before it is left for the target of the choice. -/
def take (session : Session) (choice : Choice) : Session :=
  let (store, warnings) := choice.take session.store session.schema
  { session with store, warnings := session.warnings ++ warnings }

/-- One step of a session. -/
inductive Step : Session → Session → Prop
  | enter {session : Session} {id : String} {node : Node} (unseen : session.visited = none)
      (here : session.current = some id) (stored : session.tree.get? id = some node) :
      Step session (session.enter node)
  | follow {session : Session} {visit : Visit} (seen : session.visited = some visit)
      (speech : visit.isDecision = false) : Step session (session.moveTo visit.next)
  | take {session : Session} {visit : Visit} {choice : Choice}
      (seen : session.visited = some visit) (visible : choice ∈ visit.choices) :
      Step session ((session.take choice).moveTo choice.next.live)
  | restart {session : Session} : Step session session.restart

abbrev Steps : Session → Session → Prop :=
  Relation.ReflTransGen Step

variable {session next : Session}

/-- A look shows the visit that was made already, or nothing where no node is, or else visits the
current node. -/
theorem look_cases (session : Session) :
    (∃ visit, session.visited = some visit ∧ session.look = (some visit, session)) ∨
      (session.visited = none ∧ session.current.bind session.tree.get? = none ∧
        session.look = (none, session)) ∨
      ∃ id node, session.visited = none ∧ session.current = some id ∧
        session.tree.get? id = some node ∧
        session.look = ((session.enter node).visited, session.enter node) := by
  unfold look
  cases seen : session.visited with
  | some visit => exact Or.inl ⟨visit, rfl, rfl⟩
  | none =>
      cases found : session.current.bind session.tree.get? with
      | none => exact Or.inr (Or.inl ⟨rfl, rfl, rfl⟩)
      | some node =>
          obtain ⟨id, here, stored⟩ := Option.bind_eq_some_iff.mp found
          exact Or.inr (Or.inr ⟨id, node, rfl, here, stored, rfl⟩)

private theorem visited_of_look {visit : Visit} {looked : Session}
    (sight : session.look = (some visit, looked)) : looked.visited = some visit := by
  obtain ⟨_, seen, equality⟩ | ⟨_, _, equality⟩ | ⟨_, _, _, _, _, equality⟩ := look_cases session
  · cases equality.symm.trans sight
    exact seen
  · cases equality.symm.trans sight
  · cases equality.symm.trans sight
    rfl

/-! ## Operations are made of steps -/

theorem steps_look (session : Session) : session.Steps session.look.2 := by
  obtain ⟨_, _, equality⟩ | ⟨_, _, equality⟩ | ⟨_, _, unseen, here, stored, equality⟩ :=
    look_cases session
  · rw [equality]
  · rw [equality]
  · rw [equality]
    exact .single (.enter unseen here stored)

theorem steps_advance (session : Session) : session.Steps session.advance.2 := by
  have looked := steps_look session
  unfold advance
  cases sight : session.look with
  | mk shown after =>
      rw [sight] at looked
      cases shown with
      | none => exact looked
      | some visit =>
          have seen := visited_of_look sight
          cases decision : visit.isDecision with
          | true =>
              simp only [decision]
              exact looked
          | false =>
              simp only [decision]
              exact (looked.tail (.follow seen decision)).trans (steps_look _)

theorem steps_choose (session : Session) (index : Nat) :
    session.Steps (session.choose index).2 := by
  have looked := steps_look session
  unfold choose
  cases sight : session.look with
  | mk shown after =>
      rw [sight] at looked
      cases shown with
      | none => exact looked
      | some visit =>
          have seen := visited_of_look sight
          cases picked : visit.choices[index]? with
          | none =>
              simp only [picked]
              exact looked
          | some choice =>
              have visible : choice ∈ visit.choices := List.mem_of_getElem? picked
              simp only [picked]
              exact (looked.tail (.take seen visible)).trans (steps_look _)

private theorem steps_perform (session : Session) (operation : Operation) :
    session.Steps (session.perform operation).2 := by
  cases operation with
  | look => exact steps_look session
  | advance => exact steps_advance session
  | choose index => exact steps_choose session index
  | restart => exact .single .restart

theorem steps_after (session : Session) (operations : List Operation) :
    session.Steps (session.after operations) := by
  induction operations generalizing session with
  | nil => exact .refl
  | cons operation operations inductionHypothesis =>
      exact (steps_perform session operation).trans (inductionHypothesis _)

/-! ## Invariants -/

/-- What every step keeps is kept by any number of steps. -/
theorem Steps.keep {Holds : Session → Prop} (steps : session.Steps next)
    (kept : ∀ {before after : Session}, before.Step after → Holds before → Holds after)
    (holds : Holds session) : Holds next := by
  induction steps with
  | refl => exact holds
  | tail _ step inductionHypothesis => exact kept step inductionHypothesis

end BranchingDialogue.Session

import BranchingDialogue.Proofs.Play.Journey
import BranchingDialogue.Proofs.Play.SessionStep

/-! A session that was built stays coherent whatever is done in it: it stands at a node of its tree
or has finished, the visit that it keeps is that of this node, and nothing has changed the flags
since the visit was made. The choices that it shows are therefore those that are visible now. -/

namespace BranchingDialogue

/-! ## Visits of decisions -/

@[simp]
theorem Store.raise_nil (store : Store) (schema : FlagSchema) :
    store.raise schema [] = (store, []) := rfl

namespace Node

variable {node : Node} {store : Store} {schema : FlagSchema} {choices : List Choice}

@[simp]
theorem node_visit (node : Node) (store : Store) (schema : FlagSchema) :
    (node.visit store schema).1.node = node.id := rfl

@[simp]
theorem isDecision_visit (node : Node) (store : Store) (schema : FlagSchema) :
    (node.visit store schema).1.isDecision = node.choices?.isSome := rfl

@[simp]
theorem choices_visit (node : Node) (store : Store) (schema : FlagSchema) :
    (node.visit store schema).1.choices =
      (node.choices?.getD []).filter (Choice.isVisible store) := rfl

/-- A decision changes no flags. -/
theorem store_visit_of_choices (decision : node.choices? = some choices) :
    (node.visit store schema).2 = store := by
  obtain ⟨id, speaker, kind⟩ := node
  cases kind with
  | npc speech => cases decision
  | player _ => rfl
  | conditional blocks => cases decision

/-- The choices that the visit of a decision shows are visible in the store that it leaves. -/
theorem choices_of_visit {visit : Visit} {after : Store}
    (visited : node.visit store schema = (visit, after)) (decision : node.choices? = some choices) :
    visit.choices = choices.filter (Choice.isVisible after) := by
  have sameStore : (node.visit store schema).2 = store := store_visit_of_choices decision
  have shown := node.choices_visit store schema
  rw [visited] at sameStore shown
  rw [shown, decision, ← sameStore]
  rfl

end Node

namespace Session

/-- What holds in a session of a tree and a schema at any time. A visit that the session keeps was
made at the node where it stands, and left the flags as they are. -/
structure Coherent (tree : DialogueTree) (schema : FlagSchema) (start : String)
    (initial : SortedMap Value) (session : Session) : Prop where
  sameTree : session.tree = tree
  sameSchema : session.schema = schema
  sameStart : session.start = start
  created : session.store.initial = initial
  present : ∀ id, session.current = some id → tree.contains id = true
  made : ∀ visit, session.visited = some visit →
    ∃ id node before, session.current = some id ∧ tree.get? id = some node ∧
      node.visit before schema = (visit, session.store)

section

variable {tree : DialogueTree} {schema : FlagSchema} {start : String} {initial : SortedMap Value}
  {session next : Session}

theorem coherent_begin (state : GameState) (present : tree.contains start = true) :
    (begin tree schema start (Store.ofSchema schema state)).Coherent tree schema start
      (Store.ofSchema schema state).initial where
  sameTree := rfl
  sameSchema := rfl
  sameStart := rfl
  created := rfl
  present _ here := Option.some.inj here ▸ present
  made _ seen := by cases seen

/-- A session that was moved is coherent, whatever visit it kept before. -/
theorem coherent_moveTo (sameTree : session.tree = tree) (sameSchema : session.schema = schema)
    (sameStart : session.start = start) (created : session.store.initial = initial)
    (target : Slot) : (session.moveTo target).Coherent tree schema start initial where
  sameTree := sameTree
  sameSchema := sameSchema
  sameStart := sameStart
  created := created
  present id here := by
    obtain ⟨-, stored⟩ := Option.filter_eq_some_iff.mp here
    rwa [sameTree] at stored
  made _ seen := by cases seen

theorem Coherent.step (present : tree.contains start = true) (step : session.Step next)
    (coherent : session.Coherent tree schema start initial) :
    next.Coherent tree schema start initial := by
  obtain ⟨sameTree, sameSchema, sameStart, created, standing, made⟩ := coherent
  cases step with
  | @enter id node unseen here stored =>
      subst sameTree sameSchema
      refine ⟨rfl, rfl, sameStart, (node.initial_visit _ _).trans created, standing, ?_⟩
      intro visit seen
      cases seen
      exact ⟨id, node, session.store, here, stored, rfl⟩
  | @follow visit seen speech =>
      exact coherent_moveTo sameTree sameSchema sameStart created visit.next
  | @take visit choice seen visible =>
      have taken : (session.take choice).tree = tree := sameTree
      exact coherent_moveTo taken sameSchema sameStart ((choice.initial_take _ _).trans created)
        choice.next.live
  | restart =>
      subst sameTree sameSchema sameStart
      exact ⟨rfl, rfl, rfl, created, fun _ here => Option.some.inj here ▸ present, fun _ seen => by
        cases seen⟩

/-- The choices that a coherent session keeps are those that are visible now. -/
theorem Coherent.choices_eq (coherent : session.Coherent tree schema start initial)
    {id : String} {node : Node} {visit : Visit} {choices : List Choice}
    (seen : session.visited = some visit) (here : session.current = some id)
    (stored : tree.get? id = some node) (decision : node.choices? = some choices) :
    visit.choices = choices.filter (Choice.isVisible session.store) := by
  obtain ⟨otherId, other, before, hereToo, storedToo, visited⟩ := coherent.made visit seen
  cases here.symm.trans hereToo
  cases stored.symm.trans storedToo
  exact Node.choices_of_visit visited decision

/-- A session that was built is coherent after any operations. -/
theorem coherent_of_build {state : GameState} {given : Option String}
    (built : build tree schema state given = .ok session) (operations : List Operation) :
    (session.after operations).Coherent tree schema (given.getD tree.start)
      (Store.ofSchema schema state).initial := by
  obtain ⟨present, rfl⟩ := build_eq_ok built
  exact (steps_after _ operations).keep (fun step => Coherent.step present step)
    (coherent_begin state present)

end

/-- Whatever was done in a session that was built, it stands at a node of its tree or has finished,
it keeps a visit of that node only, the choices of a decision that it keeps are those that are
visible now, and the tree, the schema, the start and the first flags are those of the build. -/
theorem coherent_after {tree : DialogueTree} {schema : FlagSchema} {state : GameState}
    {start : Option String} {session : Session}
    (built : build tree schema state start = .ok session) (operations : List Operation) :
    let played := session.after operations
    played.Coherent tree schema (start.getD tree.start) (Store.ofSchema schema state).initial ∧
      ∀ id node visit choices, played.current = some id → tree.get? id = some node →
        played.visited = some visit → node.kind = .player choices →
          visit.choices = choices.filter (Choice.isVisible played.store) := by
  intro played
  have coherent := coherent_of_build built operations
  refine ⟨coherent, fun id node visit choices here stored seen kind => ?_⟩
  have decision : node.choices? = some choices := by simp [Node.choices?, kind]
  exact coherent.choices_eq seen here stored decision

end Session

/-! ## A toll gate -/

/-- The toll can be paid with five pieces of gold and leads back to the question. -/
def payToll : Choice :=
  ⟨"pay", "Pay.", some "ask", some [.compare "gold" .greaterEqual (.number 5.0)], some ["paid"]⟩

/-- Who has paid can pass. No node of the tree is behind the gate. -/
def passGate : Choice :=
  ⟨"pass", "Pass.", some "beyond", some [.isSet "paid"], none⟩

/-- A guard who hands out gold and asks for a toll. -/
def tollTree : DialogueTree :=
  (DialogueTree.bare "gate" "Gate" "greet").withNodes
    [(Node.npc "greet" "Take this. <<set $gold to $gold + 5>>").withNext "ask",
      Node.player "ask" [payToll, passGate]]

/-- The session at the gate with nothing in the purse. -/
def tollSession : Session :=
  Session.begin tollTree .empty "greet" (Store.ofSchema .empty .empty)

/-- Passing the gate is visible once the toll is paid, in a session that has looked at the question
again after a refused choice. -/
theorem Session.coherent_after_tollTree :
    let operations := [.advance, .choose 0, .choose 2]
    let played := tollSession.after operations
    build tollTree .empty .empty none = .ok tollSession ∧ played.current = some "ask" ∧
      played.Coherent tollTree .empty "greet" .empty ∧
      ∀ visit, played.visited = some visit → visit.choices = [payToll, passGate] := by
  intro operations played
  have built : build tollTree .empty .empty none = .ok tollSession := rfl
  have here : played.current = some "ask" := by decide +kernel
  obtain ⟨coherent, visible⟩ := coherent_after built operations
  refine ⟨built, here, coherent, fun visit seen => ?_⟩
  rw [visible "ask" _ visit _ here rfl seen rfl]
  decide +kernel

end BranchingDialogue

import BranchingDialogue.Proofs.Graph.Reachability
import BranchingDialogue.Proofs.Play.Coherence

/-! A session moves along the slots of the nodes that it visits: a speech or a group of blocks leads
to the target of the block that plays or to that of the node, and a choice leads to its own target.
So no session that starts where the tree starts comes to a node that is reported as unreachable. -/

namespace BranchingDialogue

/-! ## Slots that are followed -/

namespace Node

variable {node : Node} {store : Store} {schema : FlagSchema} {target : String}

/-- A group leads to the target of one of its blocks or to the given one. -/
theorem exists_target_of_group {next : Slot} {blocks : List Block} {speaker : Option String}
    (leads : ((Block.select store blocks).elim (⟨speaker, none, none⟩ : Scene)
      (node.sceneOfBlock next)).next = some target) :
    (∃ block ∈ blocks, block.next.live = some target) ∨ next.live = some target := by
  cases selected : Block.select store blocks with
  | none =>
      rw [selected] at leads
      cases leads
  | some block =>
      rw [selected] at leads
      have either : block.next.live.or next.live = some target := by
        simpa [sceneOfBlock] using leads
      rcases Option.or_eq_some_iff.mp either with own | ⟨_, given⟩
      · exact Or.inl ⟨block, List.mem_of_find?_eq_some selected, own⟩
      · exact Or.inr given

/-- The target of a visit is that of a slot of the node. -/
theorem exists_slot_of_visit (leads : (node.visit store schema).1.next = some target) :
    ∃ slot ∈ node.slots, slot.live = some target := by
  change (node.scene store).next = some target at leads
  obtain ⟨id, speaker, kind⟩ := node
  cases kind with
  | npc speech =>
      obtain ⟨content, next, raises, blocks⟩ := speech
      cases blocks with
      | none => exact ⟨next, List.mem_cons_self, leads⟩
      | some blocks =>
          rcases exists_target_of_group leads with ⟨block, listed, own⟩ | given
          · exact ⟨block.next, List.mem_cons_of_mem _ (List.mem_map_of_mem listed), own⟩
          · exact ⟨next, List.mem_cons_self, given⟩
  | player choices => cases leads
  | conditional blocks =>
      rcases exists_target_of_group leads with ⟨block, listed, own⟩ | given
      · exact ⟨block.next, List.mem_map_of_mem listed, own⟩
      · cases given

/-- The target of a visible choice is that of a slot of the node. -/
theorem slot_mem_of_choice {choice : Choice}
    (visible : choice ∈ (node.visit store schema).1.choices) : choice.next ∈ node.slots := by
  rw [choices_visit] at visible
  have listed := List.mem_of_mem_filter visible
  obtain ⟨id, speaker, kind⟩ := node
  cases kind with
  | npc speech => cases listed
  | player choices => exact List.mem_map_of_mem listed
  | conditional blocks => cases listed

end Node

/-! ## Nodes where a session stands -/

namespace Session

/-- Whether a path from a node leads to the node where a session stands. -/
def OnRoute (start : Node) (session : Session) : Prop :=
  ∀ id, session.current = some id →
    ∃ node, session.tree.get? id = some node ∧ session.tree.Leads start node

variable {tree : DialogueTree} {schema : FlagSchema} {state : GameState} {id name : String}
  {initial : SortedMap Value} {start node : Node} {session next : Session}

/-- A session that moves from the node where it stands to the target of a slot stays on its route. -/
theorem onRoute_moveTo {next : Slot} (leads : session.tree.Leads start node)
    (follows : ∀ target, next = some target → ∃ slot ∈ node.slots, slot.live = some target) :
    (session.moveTo next).OnRoute start := by
  intro target moved
  obtain ⟨toTarget, present⟩ := Option.filter_eq_some_iff.mp moved
  obtain ⟨reached, found⟩ := Option.isSome_iff_exists.mp present
  obtain ⟨slot, listed, live⟩ := follows target toTarget
  refine ⟨reached, found, leads.tail ⟨slot, listed, ?_⟩⟩
  rw [DialogueTree.resolve, live]
  exact found

theorem OnRoute.step (step : session.Step next)
    (coherent : session.Coherent tree schema name initial) (begun : tree.get? name = some start)
    (onRoute : session.OnRoute start) : next.OnRoute start := by
  have visitedOn {visit : Visit} (seen : session.visited = some visit) :
      ∃ node before, session.tree.Leads start node ∧ (node.visit before schema).1 = visit := by
    obtain ⟨id, node, before, here, stored, made⟩ := coherent.made visit seen
    obtain ⟨other, otherStored, leads⟩ := onRoute id here
    rw [coherent.sameTree] at otherStored
    cases otherStored.symm.trans stored
    exact ⟨node, before, leads, by rw [made]⟩
  cases step with
  | enter unseen here stored => exact onRoute
  | @follow visit seen speech =>
      obtain ⟨node, before, leads, rfl⟩ := visitedOn seen
      exact onRoute_moveTo leads fun target => Node.exists_slot_of_visit
  | @take visit choice seen visible =>
      obtain ⟨node, before, leads, rfl⟩ := visitedOn seen
      have listed := Node.slot_mem_of_choice visible
      have leadsOn : (session.take choice).tree.Leads start node := leads
      exact onRoute_moveTo leadsOn fun target live => ⟨choice.next, listed, live⟩
  | restart =>
      intro target here
      cases here
      rw [coherent.sameStart]
      exact ⟨start, coherent.sameTree ▸ begun, .refl⟩

/-- A session that starts where the tree starts stays on a route from there. -/
theorem onRoute_after (built : build tree schema state none = .ok session)
    (begun : tree.startNode? = some start) (operations : List Operation) :
    (session.after operations).OnRoute start := by
  obtain ⟨present, rfl⟩ := build_eq_ok built
  have step {before after : Session} (step : before.Step after)
      (both : before.Coherent tree schema tree.start (Store.ofSchema schema state).initial ∧
        before.OnRoute start) :
      after.Coherent tree schema tree.start (Store.ofSchema schema state).initial ∧
        after.OnRoute start :=
    ⟨both.1.step present step, both.2.step step both.1 begun⟩
  have kept := (steps_after _ operations).keep step
    ⟨coherent_begin state present, fun id here => Option.some.inj here ▸ ⟨start, begun, .refl⟩⟩
  exact kept.2

end Session

/-- In a tree whose nodes are stored under their own ids, a node is reported as unreachable if no
chain of live slots leads from the start to it, and only then. A session that starts where the tree
starts never stands at such a node, whatever is done in it. -/
theorem DialogueTree.unreachable_exact_and_avoided {tree : DialogueTree} (ownIds : tree.HasOwnIds)
    (schema : FlagSchema) :
    (∀ start, tree.startNode? = some start → ∀ node ∈ tree.nodeList,
        (⟨some node.id, .unreachable⟩ ∈ tree.lint schema ↔ ¬ tree.Leads start node)) ∧
      ∀ playSchema state session,
        Session.build tree playSchema state none = .ok session →
          ∀ operations id, (session.after operations).current = some id →
            ⟨some id, .unreachable⟩ ∉ tree.lint schema := by
  refine ⟨fun start begun node listed => unreachable_mem_lint_iff ownIds begun listed, ?_⟩
  intro playSchema state session built operations id here
  obtain ⟨present, _⟩ := Session.build_eq_ok built
  obtain ⟨start, begun⟩ := Option.isSome_iff_exists.mp present
  have coherent := Session.coherent_of_build built operations
  obtain ⟨node, stored, leads⟩ := Session.onRoute_after built begun operations id here
  rw [coherent.sameTree] at stored leads
  have listed : node ∈ tree.nodeList := List.mem_map_of_mem (mem_of_lookup stored)
  intro reported
  rw [← ownIds.id_eq stored] at reported
  exact (unreachable_mem_lint_iff ownIds begun listed).mp reported leads

/-- An attic above the toll gate, from which a path leads down. -/
def attic : Node :=
  (Node.npc "attic" "Dust and gold. <<set $gold to 99>>").withNext "greet"

/-- The gate with the attic, to which no path leads up. -/
def atticTree : DialogueTree :=
  tollTree.withNode attic

/-- The attic is reported, and the question to which the guard and its own first answer lead is
not. -/
theorem DialogueTree.unreachable_exact_and_avoided_atticTree :
    let guard := (Node.npc "greet" "Take this. <<set $gold to $gold + 5>>").withNext "ask"
    let session := Session.begin atticTree .empty "greet" (Store.ofSchema .empty .empty)
    let operations := [.advance, .choose 0]
    atticTree.HasOwnIds ∧ atticTree.startNode? = some guard ∧ attic ∈ atticTree.nodeList ∧
      ⟨some "attic", .unreachable⟩ ∈ atticTree.lint .empty ∧ ¬ atticTree.Leads guard attic ∧
      Session.build atticTree .empty .empty none = .ok session ∧
      (session.after operations).current = some "ask" ∧
      ⟨some "ask", .unreachable⟩ ∉ atticTree.lint .empty := by
  intro guard session operations
  have ownIds : atticTree.HasOwnIds := by decide +kernel
  have begun : atticTree.startNode? = some guard := by decide +kernel
  have listed : attic ∈ atticTree.nodeList := List.mem_of_getElem? (i := 2) rfl
  have reported : ⟨some "attic", .unreachable⟩ ∈ atticTree.lint .empty := by decide +kernel
  have built : Session.build atticTree .empty .empty none = .ok session := rfl
  have here : (session.after operations).current = some "ask" := by decide +kernel
  obtain ⟨exactly, avoided⟩ := DialogueTree.unreachable_exact_and_avoided ownIds .empty
  exact ⟨ownIds, begun, listed, reported, (exactly guard begun attic listed).mp reported, built,
    here, avoided _ _ _ built operations "ask" here⟩

end BranchingDialogue

import BranchingDialogue.Proofs.Graph.Repair

/-! A connection gives a target to the slot of a speech or of a choice. It is refused for the first
reason that applies and then changes nothing. Otherwise it changes the one slot it is for, which
leads to the target. Only a target without a name, which can be stored like any other, is not led
to, since a slot with an empty name leads nowhere. -/

namespace BranchingDialogue

/-- The slot that a connection is for: the way out of a speech, or that of a choice. -/
inductive SlotPlace
  | speech (node : String)
  | choice (node : String) (index : Nat)
  deriving DecidableEq

namespace SlotPlace

def node : SlotPlace → String
  | .speech node => node
  | .choice node _ => node

def nodeType : SlotPlace → NodeType
  | .speech _ => .npc
  | .choice _ _ => .player

def position : SlotPlace → Nat
  | .speech _ => 0
  | .choice _ index => index

def edit (target : String) : SlotPlace → Edit
  | .speech node => .connect node target
  | .choice node index => .connectChoice node index target

end SlotPlace

/-- Whether a node is an older one in which the slot at a position has a target. -/
structure Node.IsLinkOf (node old : Node) (position : Nat) (target : String) : Prop where
  besides : node.unlinked = old.unlinked
  present : position < old.slots.length
  slots : node.slots = old.slots.set position (some target)

private theorem Node.isLinkOf_withNext {node : Node} (isSpeech : node.kind.nodeType = .npc)
    (target : String) : (node.withNext target).IsLinkOf node 0 target := by
  obtain ⟨id, speaker, kind⟩ := node
  cases kind with
  | npc speech => exact ⟨rfl, Nat.zero_lt_succ _, rfl⟩
  | player choices => cases isSpeech
  | conditional blocks => cases isSpeech

private theorem Node.isLinkOf_player {node : Node} {choices : List Choice} {index : Nat}
    {choice : Choice}
    (isDecision : node.kind = .player choices) (chosen : choices[index]? = some choice)
    (target : String) :
    { node with kind := .player (choices.set index { choice with next := some target }) }.IsLinkOf
      node index target := by
  obtain ⟨id, speaker, kind⟩ := node
  subst isDecision
  obtain ⟨inside, rfl⟩ := List.getElem?_eq_some_iff.mp chosen
  have listed : index < (choices.map Choice.unlinked).length := by simpa using inside
  have same : (choices.map Choice.unlinked)[index] =
      Choice.unlinked { choices[index] with next := some target } := by
    rw [List.getElem_map]
    rfl
  refine ⟨?_, by simpa [Node.slots] using inside, ?_⟩
  · simp only [Node.unlinked, List.map_set, ← same, List.set_getElem_self]
  · simp only [Node.slots, List.map_set]

namespace DialogueTree

variable {tree : DialogueTree} {place : SlotPlace} {target : String} {node : Node}

/-! ## Refusals -/

/-- Why a connection is refused: for the first of these reasons that applies. -/
def refusal? (tree : DialogueTree) (place : SlotPlace) (target : String) : Option EditError :=
  if tree.get? target = none then
    some (.invalidTarget target)
  else
    match tree.get? place.node with
    | none => some (.unknownNode place.node)
    | some node =>
        if node.kind.nodeType ≠ place.nodeType then
          some (.wrongKind place.node place.nodeType node.kind.nodeType)
        else if node.slots.length ≤ place.position then
          some (.choiceIndex place.node place.position)
        else
          none

private theorem perform_of_missing_target (missing : tree.get? target = none) :
    (tree.perform (place.edit target)).1 = .error (.invalidTarget target) := by
  have absent : tree.contains target = false :=
    Option.isSome_eq_false_iff.mpr (Option.isNone_iff_eq_none.mpr missing)
  cases place with
  | speech source =>
      rw [SlotPlace.edit, perform, connect, absent]
      rfl
  | choice source index =>
      rw [SlotPlace.edit, perform, connectChoice, absent]
      rfl

private theorem decision_of_player {id : String} {choices : List Choice}
    (found : tree.get? id = some node) (isDecision : node.kind = .player choices) :
    tree.decision id = .ok (node, choices) := by
  rw [decision, found]
  simp [Node.choices?, isDecision]

section PresentTarget

variable (present : tree.contains target = true)

include present

private theorem perform_of_missing_node (missing : tree.get? place.node = none) :
    (tree.perform (place.edit target)).1 = .error (.unknownNode place.node) := by
  cases place with
  | speech source =>
      have absent : tree.get? source = none := missing
      rw [SlotPlace.edit, perform, connect, present, absent]
      rfl
  | choice source index =>
      have absent : tree.get? source = none := missing
      rw [SlotPlace.edit, perform, connectChoice, present, decision, absent]
      rfl

private theorem perform_of_other_kind (found : tree.get? place.node = some node)
    (other : node.kind.nodeType ≠ place.nodeType) :
    (tree.perform (place.edit target)).1 =
      .error (.wrongKind place.node place.nodeType node.kind.nodeType) := by
  obtain ⟨id, speaker, kind⟩ := node
  cases place with
  | speech source =>
      have stored : tree.get? source = some ⟨id, speaker, kind⟩ := found
      rw [SlotPlace.edit, perform, connect, present, stored]
      cases kind with
      | npc speech => exact absurd rfl other
      | player choices => rfl
      | conditional blocks => rfl
  | choice source index =>
      have stored : tree.get? source = some ⟨id, speaker, kind⟩ := found
      rw [SlotPlace.edit, perform, connectChoice, present, decision, stored]
      cases kind with
      | npc speech => rfl
      | player choices => exact absurd rfl other
      | conditional blocks => rfl

private theorem perform_of_no_slot (found : tree.get? place.node = some node)
    (suited : node.kind.nodeType = place.nodeType) (beyond : node.slots.length ≤ place.position) :
    (tree.perform (place.edit target)).1 =
      .error (.choiceIndex place.node place.position) := by
  obtain ⟨id, speaker, kind⟩ := node
  cases place with
  | speech source =>
      cases kind with
      | npc speech => cases beyond
      | player choices => cases suited
      | conditional blocks => cases suited
  | choice source index =>
      cases kind with
      | npc speech => cases suited
      | player choices =>
          have unlisted : choices[index]? = none := by
            rw [List.getElem?_eq_none_iff]
            simpa [Node.slots, SlotPlace.position] using beyond
          have stored : tree.get? source = some ⟨id, speaker, .player choices⟩ := found
          rw [SlotPlace.edit, perform, connectChoice, present, decision_of_player stored rfl]
          dsimp only
          rw [unlisted]
          rfl
      | conditional blocks => cases suited

private theorem exists_perform (found : tree.get? place.node = some node)
    (suited : node.kind.nodeType = place.nodeType) (inside : place.position < node.slots.length) :
    ∃ linked : Node, linked.IsLinkOf node place.position target ∧
      tree.perform (place.edit target) = (.ok .done, tree.replaceNode place.node linked) := by
  cases place with
  | speech source =>
      refine ⟨node.withNext target, node.isLinkOf_withNext suited target, ?_⟩
      have stored : tree.get? source = some node := found
      obtain ⟨id, speaker, kind⟩ := node
      rw [SlotPlace.edit, perform, connect, present, stored]
      cases kind with
      | npc speech => rfl
      | player choices => cases suited
      | conditional blocks => cases suited
  | choice source index =>
      obtain ⟨id, speaker, kind⟩ := node
      cases kind with
      | npc speech => cases suited
      | player choices =>
          have listed : index < choices.length := by
            simpa [Node.slots, SlotPlace.position] using inside
          have chosen : choices[index]? = some choices[index] := List.getElem?_eq_getElem listed
          refine ⟨_, Node.isLinkOf_player rfl chosen target, ?_⟩
          have stored : tree.get? source = some ⟨id, speaker, .player choices⟩ := found
          rw [SlotPlace.edit, perform, connectChoice, present, decision_of_player stored rfl]
          dsimp only
          rw [chosen]
          rfl
      | conditional blocks => cases suited

end PresentTarget

/-! ## Connected trees -/

def slotAt (tree : DialogueTree) (place : SlotPlace) : Option Slot :=
  (tree.get? place.node).bind fun node => node.slots[place.position]?

/-- Whether a tree is an older one in which the slot at a place has a target. Nothing else has
changed. -/
structure IsConnectionOf (tree old : DialogueTree) (place : SlotPlace) (target : String) :
    Prop where
  heading : tree.id = old.id ∧ tree.title = old.title ∧ tree.start = old.start
  names : tree.nodes.names = old.nodes.names
  others : ∀ name, name ≠ place.node → tree.get? name = old.get? name
  linked : ∃ node former, tree.get? place.node = some node ∧ old.get? place.node = some former ∧
    node.IsLinkOf former place.position target

private theorem get?_replaceNode (tree : DialogueTree) (id name : String) (node : Node) :
    (tree.replaceNode id node).get? name = if name = id then some node else tree.get? name :=
  OrderedMap.get?_insert tree.nodes id name node

private theorem isConnectionOf_replaceNode {linked : Node}
    (found : tree.get? place.node = some node)
    (isLink : linked.IsLinkOf node place.position target) :
    (tree.replaceNode place.node linked).IsConnectionOf tree place target := by
  refine ⟨⟨rfl, rfl, rfl⟩, ?_, fun name other => ?_, ?_⟩
  · have listed : place.node ∈ tree.nodes.names :=
      OrderedMap.contains_iff.mp (Option.isSome_iff_exists.mpr ⟨node, found⟩)
    rw [replaceNode, OrderedMap.names_insert, if_pos listed]
  · rw [get?_replaceNode, if_neg other]
  · exact ⟨linked, node, by rw [get?_replaceNode, if_pos rfl], found, isLink⟩

variable {edited : DialogueTree}

private theorem IsConnectionOf.slotAt_eq (connected : edited.IsConnectionOf tree place target) :
    edited.slotAt place = some (some target) := by
  obtain ⟨node, former, stored, -, isLink⟩ := connected.linked
  rw [slotAt, stored, Option.bind_some, isLink.slots]
  exact List.getElem?_set_self isLink.present

private theorem IsConnectionOf.contains_eq (connected : edited.IsConnectionOf tree place target)
    (name : String) : edited.contains name = tree.contains name := by
  rw [Bool.eq_iff_iff]
  exact OrderedMap.contains_iff.trans (connected.names ▸ OrderedMap.contains_iff.symm)

/-- The slot that is connected leads to the target if that has a name that is not empty. -/
theorem IsConnectionOf.resolve_iff (connected : edited.IsConnectionOf tree place target)
    (present : tree.contains target = true) :
    ∃ stored, edited.get? target = some stored ∧
      ((edited.slotAt place).bind edited.resolve = some stored ↔ target ≠ "") := by
  rw [← connected.contains_eq] at present
  obtain ⟨stored, found⟩ := Option.isSome_iff_exists.mp present
  refine ⟨stored, found, ?_⟩
  rw [connected.slotAt_eq, Option.bind_some, resolve_some]
  by_cases unnamed : target = ""
  · simp [unnamed]
  · rw [if_neg unnamed]
    exact iff_of_true found unnamed

/-- A connection is refused for the first reason that applies, and the tree stays as it is, or the
one slot it is for is changed. The slot then leads to the node that is stored under the target,
unless the target is the empty name. -/
theorem connection_refused_or_made (tree : DialogueTree) (place : SlotPlace) (target : String) :
    match tree.refusal? place target with
    | some error => tree.perform (place.edit target) = (.error error, tree)
    | none =>
        ∃ edited, tree.perform (place.edit target) = (.ok .done, edited) ∧
          edited.IsConnectionOf tree place target ∧
          ∃ stored, edited.get? target = some stored ∧
            ((edited.slotAt place).bind edited.resolve = some stored ↔ target ≠ "") := by
  have refused {error : EditError}
      (answer : (tree.perform (place.edit target)).1 = .error error) :
      tree.perform (place.edit target) = (.error error, tree) :=
    Prod.ext answer (tree_of_refused answer)
  unfold refusal?
  by_cases missing : tree.get? target = none
  · rw [if_pos missing]
    exact refused (perform_of_missing_target missing)
  have present : tree.contains target = true := Option.isSome_iff_ne_none.mpr missing
  rw [if_neg missing]
  cases found : tree.get? place.node with
  | none => exact refused (perform_of_missing_node present found)
  | some node =>
      dsimp only
      by_cases other : node.kind.nodeType ≠ place.nodeType
      · rw [if_pos other]
        exact refused (perform_of_other_kind present found other)
      have suited := not_not.mp other
      rw [if_neg other]
      by_cases beyond : node.slots.length ≤ place.position
      · rw [if_pos beyond]
        exact refused (perform_of_no_slot present found suited beyond)
      rw [if_neg beyond]
      obtain ⟨linked, isLink, performed⟩ :=
        exists_perform present found suited (Nat.lt_of_not_le beyond)
      have connected := isConnectionOf_replaceNode found isLink
      exact ⟨_, performed, connected, connected.resolve_iff present⟩

/-- An inn with a door and a room that has no name. -/
def namelessInn : DialogueTree :=
  (bare "inn" "The inn" "door").withNodes [.npc "door" "Knock.", .npc "" "Come in."]

/-- The door is connected to the room without a name, and does not lead to it. -/
theorem nameless_room_not_reached :
    ∃ edited, namelessInn.connect "door" "" = (.ok (), edited) ∧
      edited.get? "" = some (.npc "" "Come in.") ∧
      (edited.slotAt (.speech "door")).bind edited.resolve = none :=
  ⟨_, rfl, by decide, by decide⟩

end DialogueTree

end BranchingDialogue

import BranchingDialogue.Proofs.Graph.Edit

/-! The search for the id of a new node or choice ends, at the first number that makes a free name.
A list of choices to which new ones are added, and from which any are removed, then never has an id
twice. It keeps the order in which the choices came, and the last choice stays. -/

namespace BranchingDialogue

/-! ## Lists of choices -/

namespace Choice

variable {choices : List Choice}

private theorem exists_id_blank (node : String) (choices : List Choice) :
    ∃ number, number ≤ 2 * choices.length + 1 ∧
      IsFirstFree (choices.map Choice.id) (node ++ "_choice_") (choices.length + 1) number ∧
      (blank node choices).id = node ++ "_choice_" ++ toString number := by
  have taken_iff (name : String) :
      (choices.any fun choice => choice.id == name) = true ↔ name ∈ choices.map Choice.id := by
    simp
  obtain ⟨number, bound, first, name⟩ :=
    exists_isFirstFree taken_iff (node ++ "_choice_") (choices.length + 1)
  rw [List.length_map] at bound name
  exact ⟨number, by omega, first, name⟩

private theorem id_blank_not_mem (node : String) (choices : List Choice) :
    (blank node choices).id ∉ choices.map Choice.id := by
  obtain ⟨number, -, first, name⟩ := exists_id_blank node choices
  exact name ▸ first.free

end Choice

/-- The edits of a list of choices that bring no choice from elsewhere. -/
inductive ChoiceEdit
  | addBlank (node : String)
  | remove (index : Nat)
  deriving DecidableEq

namespace ChoiceEdit

variable {choices : List Choice}

def isRemoval : ChoiceEdit → Bool
  | .addBlank _ => false
  | .remove _ => true

def brought (choices : List Choice) : ChoiceEdit → List Choice
  | .addBlank node => [.blank node choices]
  | .remove _ => []

def apply (choices : List Choice) : ChoiceEdit → List Choice
  | .addBlank node => Choice.addTo choices (.blank node choices)
  | .remove index => Choice.removeFrom choices index

def broughtByAll (choices : List Choice) : List ChoiceEdit → List Choice
  | [] => []
  | edit :: edits => edit.brought choices ++ broughtByAll (edit.apply choices) edits

def applyAll (choices : List Choice) (edits : List ChoiceEdit) : List Choice :=
  edits.foldl apply choices

/-- What remains of choices and of those that are brought later, in the order in which they came.
At most one is gone for each removal, and one at least is left. -/
structure Remains (left came : List Choice) (removals : Nat) : Prop where
  distinct : (left.map Choice.id).Nodup
  filled : left ≠ []
  inOrder : left.Sublist came
  few : came.length ≤ left.length + removals

private theorem remains_removeFrom (distinct : (choices.map Choice.id).Nodup)
    (filled : choices ≠ [])
    (index : Nat) : Remains (Choice.removeFrom choices index) choices 1 := by
  unfold Choice.removeFrom
  by_cases more : choices.length > 1
  · rw [if_pos more]
    have kept : choices.length ≤ (choices.eraseIdx index).length + 1 := by
      rw [List.length_eraseIdx]
      split <;> omega
    refine ⟨?_, ?_, List.eraseIdx_sublist choices index, kept⟩
    · exact ((List.eraseIdx_sublist choices index).map Choice.id).nodup distinct
    · apply List.ne_nil_of_length_pos
      omega
  · rw [if_neg more]
    exact ⟨distinct, filled, .refl choices, Nat.le_succ _⟩

/-- An edit keeps the ids distinct, and the order. -/
theorem remains_apply (distinct : (choices.map Choice.id).Nodup) (filled : choices ≠ [])
    (edit : ChoiceEdit) :
    Remains (edit.apply choices) (choices ++ edit.brought choices)
      (if edit.isRemoval then 1 else 0) := by
  cases edit with
  | addBlank node =>
      refine ⟨?_, by simp [apply, Choice.addTo], .refl _, Nat.le_refl _⟩
      rw [apply, Choice.addTo, List.map_append, List.map_singleton, ← List.concat_eq_append]
      exact distinct.concat (Choice.id_blank_not_mem node choices)
  | remove index =>
      rw [brought, List.append_nil]
      exact remains_removeFrom distinct filled index

/-- A sequence of edits keeps the ids distinct, and the order. -/
theorem remains_applyAll (distinct : (choices.map Choice.id).Nodup) (filled : choices ≠ [])
    (edits : List ChoiceEdit) :
    Remains (applyAll choices edits) (choices ++ broughtByAll choices edits)
      (edits.countP isRemoval) := by
  induction edits generalizing choices with
  | nil =>
      rw [broughtByAll, List.append_nil]
      exact ⟨distinct, filled, .refl choices, Nat.le_refl _⟩
  | cons edit edits inductionHypothesis =>
      have first := remains_apply distinct filled edit
      have others := inductionHypothesis first.distinct first.filled
      have fewer := first.few
      have fewest := others.few
      rw [broughtByAll, ← List.append_assoc]
      refine ⟨others.distinct, others.filled, ?_, ?_⟩
      · exact others.inOrder.trans (first.inOrder.append_right _)
      · rw [List.countP_cons, applyAll, List.foldl_cons, ← applyAll]
        simp only [List.length_append] at fewer fewest ⊢
        omega

end ChoiceEdit

/-! ## Fresh ids -/

/-- What a new node adds to a tree: an entry at the end, under the first free of the ids from the
number of the nodes on. -/
structure DialogueTree.AddsNode (tree edited : DialogueTree) (id : String) (nodeType : NodeType) :
    Prop where
  found : ∃ number, number ≤ 2 * tree.nodes.size + 1 ∧
    IsFirstFree tree.nodes.names "node_" (tree.nodes.size + 1) number ∧
    id = "node_" ++ toString number
  free : id ∉ tree.nodes.names
  last : ∃ node, node.id = id ∧ node.kind.nodeType = nodeType ∧
    edited.nodes.entries = tree.nodes.entries ++ [(id, node)]

private theorem DialogueTree.addsNode_createNode (tree : DialogueTree) (nodeType : NodeType) :
    tree.AddsNode (tree.createNode nodeType).2 (tree.createNode nodeType).1 nodeType := by
  refine ⟨tree.exists_freshId, tree.freshId_not_mem, ?_⟩
  refine ⟨freshNode tree.freshId nodeType, id_freshNode _ _, ?_, ?_⟩
  · cases nodeType <;> rfl
  · rw [entries_createNode, entryOf, id_freshNode]
    rfl

/-- The searches for the id of a new node and of a new choice end, and find ids that are free. So
the ids of choices stay distinct when new ones are added and others are removed. -/
theorem fresh_ids_stay_distinct :
    (∀ (tree : DialogueTree) (nodeType : NodeType),
      tree.AddsNode (tree.createNode nodeType).2 (tree.createNode nodeType).1 nodeType) ∧
    (∀ (node : String) (choices : List Choice),
      (∃ number, number ≤ 2 * choices.length + 1 ∧
        IsFirstFree (choices.map Choice.id) (node ++ "_choice_") (choices.length + 1) number ∧
        (Choice.blank node choices).id = node ++ "_choice_" ++ toString number) ∧
      (Choice.blank node choices).id ∉ choices.map Choice.id) ∧
    ∀ (choices : List Choice) (edits : List ChoiceEdit),
      (choices.map Choice.id).Nodup → choices ≠ [] →
      ChoiceEdit.Remains (ChoiceEdit.applyAll choices edits)
        (choices ++ ChoiceEdit.broughtByAll choices edits) (edits.countP ChoiceEdit.isRemoval) := by
  refine ⟨DialogueTree.addsNode_createNode, fun node choices => ?_, fun choices edits => ?_⟩
  · exact ⟨Choice.exists_id_blank node choices, Choice.id_blank_not_mem node choices⟩
  · intro distinct filled
    exact ChoiceEdit.remains_applyAll distinct filled edits

/-- A choice whose number is not its place in the list. -/
def tollChoices : List Choice :=
  [⟨"toll_choice_2", "Pay.", some "gate", none, none⟩]

/-- Edits after which a number is free again that was taken before. -/
def tollEdits : List ChoiceEdit :=
  [.addBlank "toll", .remove 0, .remove 0, .addBlank "toll", .addBlank "toll", .remove 7]

theorem toll_ids_stay_distinct :
    (tollChoices.map Choice.id).Nodup ∧ tollChoices ≠ [] ∧
      ChoiceEdit.Remains (ChoiceEdit.applyAll tollChoices tollEdits)
        (tollChoices ++ ChoiceEdit.broughtByAll tollChoices tollEdits)
        (tollEdits.countP ChoiceEdit.isRemoval) := by
  have distinct : (tollChoices.map Choice.id).Nodup := by decide
  have filled : tollChoices ≠ [] := by decide
  exact ⟨distinct, filled, fresh_ids_stay_distinct.2.2 tollChoices tollEdits distinct filled⟩

example :
    (ChoiceEdit.applyAll tollChoices tollEdits).map Choice.id =
      ["toll_choice_3", "toll_choice_2", "toll_choice_4"] := by
  decide +kernel

end BranchingDialogue

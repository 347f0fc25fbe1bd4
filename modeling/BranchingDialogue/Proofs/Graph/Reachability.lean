import Mathlib.Data.List.Nodup
import Mathlib.Data.List.Perm.Subperm
import Mathlib.Logic.Relation
import BranchingDialogue.Proofs.Graph.Lint
import BranchingDialogue.Proofs.Graph.Tree

/-! In a tree whose nodes are stored under their own ids, the search from the start finds the nodes
to which a path of slots leads, and only these. Every node that the search has seen is at the end of
a path, the successors of a seen node are seen too unless the node still waits in the queue, and the
number of nodes bounds the number of those that were taken from the queue. -/

namespace BranchingDialogue.DialogueTree

/-! ## Paths -/

/-- Whether a live slot of one node leads to another one. -/
def Links (tree : DialogueTree) (source target : Node) : Prop :=
  ∃ slot ∈ source.slots, tree.resolve slot = some target

/-- Whether a chain of live slots leads from one node to another one. -/
abbrev Leads (tree : DialogueTree) : Node → Node → Prop :=
  Relation.ReflTransGen tree.Links

variable {tree : DialogueTree} {start node next : Node} {name : String}

private theorem mem_successors_iff : next ∈ tree.successors node ↔ tree.Links node next :=
  List.mem_filterMap

private theorem exists_get?_of_links (linked : tree.Links node next) :
    ∃ name, tree.get? name = some next := by
  obtain ⟨slot, _, resolved⟩ := linked
  obtain ⟨name, _, stored⟩ := Option.bind_eq_some_iff.mp resolved
  exact ⟨name, stored⟩

/-! ## One node of the search -/

/-- The ids seen after nodes that were added, the last one first. -/
def seenAfter (seen : List String) (added : List Node) : List String :=
  (added.map Node.id).reverse ++ seen

private theorem mem_seenAfter_iff {seen : List String} {added : List Node} :
    name ∈ seenAfter seen added ↔ name ∈ seen ∨ ∃ node ∈ added, node.id = name := by
  simp [seenAfter, or_comm]

private theorem length_seenAfter (seen : List String) (added : List Node) :
    (seenAfter seen added).length = added.length + seen.length := by
  simp [seenAfter]

/-- Of some nodes those are added whose ids are new, once for each id. -/
theorem exists_added (nodes : List Node) (seen : List String) (fresh : List Node) :
    ∃ added,
      nodes.foldl (fun (seen, fresh) next =>
          if seen.contains next.id then (seen, fresh) else (next.id :: seen, fresh ++ [next]))
        (seen, fresh) = (seenAfter seen added, fresh ++ added) ∧
      (∀ next ∈ added, next ∈ nodes) ∧
      (∀ next ∈ nodes, next.id ∈ seenAfter seen added) ∧
      (seen.Nodup → (seenAfter seen added).Nodup) := by
  induction nodes generalizing seen fresh with
  | nil => exact ⟨[], by simp [seenAfter], by simp, by simp, by simp [seenAfter]⟩
  | cons first others inductionHypothesis =>
      by_cases known : first.id ∈ seen
      · obtain ⟨added, folded, listed, covered, distinct⟩ := inductionHypothesis seen fresh
        refine ⟨added, ?_, fun next inAdded => List.mem_cons_of_mem _ (listed next inAdded), ?_,
          distinct⟩
        · simpa [known] using folded
        · exact List.forall_mem_cons.mpr ⟨mem_seenAfter_iff.mpr (Or.inl known), covered⟩
      · obtain ⟨added, folded, listed, covered, distinct⟩ :=
          inductionHypothesis (first.id :: seen) (fresh ++ [first])
        have same : seenAfter (first.id :: seen) added = seenAfter seen (first :: added) := by
          simp [seenAfter]
        rw [same] at folded covered distinct
        refine ⟨first :: added, ?_, ?_, ?_, fun unique => ?_⟩
        · simpa [known] using folded
        · exact List.forall_mem_cons.mpr
            ⟨List.mem_cons_self, fun next inAdded => List.mem_cons_of_mem _ (listed next inAdded)⟩
        · refine List.forall_mem_cons.mpr ⟨?_, covered⟩
          exact mem_seenAfter_iff.mpr (Or.inr ⟨first, List.mem_cons_self, rfl⟩)
        · exact distinct (List.nodup_cons.mpr ⟨known, unique⟩)

/-- The new successors of a node are those of its successors whose ids were not seen. -/
theorem exists_newSuccessors (tree : DialogueTree) (seen : List String) (node : Node) :
    ∃ added, tree.newSuccessors seen node = (seenAfter seen added, added) ∧
      (∀ next ∈ added, tree.Links node next) ∧
      (∀ next, tree.Links node next → next.id ∈ seenAfter seen added) ∧
      (seen.Nodup → (seenAfter seen added).Nodup) := by
  obtain ⟨added, folded, listed, covered, distinct⟩ := exists_added (tree.successors node) seen []
  exact ⟨added, folded, fun next inAdded => mem_successors_iff.mp (listed next inAdded),
    fun next linked => covered next (mem_successors_iff.mpr linked), distinct⟩

/-! ## The search -/

/-- What holds of the ids seen and the queue at any time of a search from a node. -/
structure Searched (tree : DialogueTree) (start : Node) (seen : List String)
    (queue : List Node) : Prop where
  distinct : seen.Nodup
  begun : start.id ∈ seen
  reached : ∀ name ∈ seen, ∃ node, tree.get? name = some node ∧ tree.Leads start node
  waiting : ∀ node ∈ queue, node.id ∈ seen ∧ tree.get? node.id = some node
  closed : ∀ name ∈ seen, ∀ node, tree.get? name = some node →
    node ∈ queue ∨ ∀ next, tree.Links node next → next.id ∈ seen

private theorem searched_start (ownIds : tree.HasOwnIds) (stored : tree.get? name = some start) :
    tree.Searched start [start.id] [start] where
  distinct := List.nodup_singleton start.id
  begun := List.mem_singleton_self start.id
  reached := List.forall_mem_singleton.mpr ⟨start, ownIds.get?_id stored, .refl⟩
  waiting := List.forall_mem_singleton.mpr ⟨List.mem_singleton_self _, ownIds.get?_id stored⟩
  closed := List.forall_mem_singleton.mpr fun node found => by
    cases found.symm.trans (ownIds.get?_id stored)
    exact Or.inl (List.mem_singleton_self _)

/-- The search goes on from a node to its new successors. -/
theorem Searched.step (ownIds : tree.HasOwnIds) {seen : List String} {queue added : List Node}
    (searched : tree.Searched start seen (node :: queue))
    (linked : ∀ next ∈ added, tree.Links node next)
    (covered : ∀ next, tree.Links node next → next.id ∈ seenAfter seen added)
    (distinct : (seenAfter seen added).Nodup) :
    tree.Searched start (seenAfter seen added) (queue ++ added) := by
  obtain ⟨nodeSeen, nodeStored⟩ := searched.waiting node List.mem_cons_self
  have nodeReached : tree.Leads start node := by
    obtain ⟨other, stored, leads⟩ := searched.reached _ nodeSeen
    cases stored.symm.trans nodeStored
    exact leads
  have stored : ∀ next ∈ added, tree.get? next.id = some next := by
    intro next inAdded
    obtain ⟨name, found⟩ := exists_get?_of_links (linked next inAdded)
    exact ownIds.get?_id found
  have keep {name : String} (known : name ∈ seen) : name ∈ seenAfter seen added :=
    mem_seenAfter_iff.mpr (Or.inl known)
  have isNew {next : Node} (inAdded : next ∈ added) : next.id ∈ seenAfter seen added :=
    mem_seenAfter_iff.mpr (Or.inr ⟨next, inAdded, rfl⟩)
  refine ⟨distinct, keep searched.begun, ?_, ?_, ?_⟩
  · intro name known
    rcases mem_seenAfter_iff.mp known with before | ⟨next, inAdded, rfl⟩
    · exact searched.reached name before
    · exact ⟨next, stored next inAdded, nodeReached.tail (linked next inAdded)⟩
  · intro next inQueue
    rcases List.mem_append.mp inQueue with before | inAdded
    · obtain ⟨known, found⟩ := searched.waiting next (List.mem_cons_of_mem _ before)
      exact ⟨keep known, found⟩
    · exact ⟨isNew inAdded, stored next inAdded⟩
  · intro name known other found
    rcases mem_seenAfter_iff.mp known with before | ⟨next, inAdded, rfl⟩
    · rcases searched.closed name before other found with inQueue | followed
      · rcases List.mem_cons.mp inQueue with rfl | inRest
        · exact Or.inr covered
        · exact Or.inl (List.mem_append_left _ inRest)
      · exact Or.inr fun next leads => keep (followed next leads)
    · cases found.symm.trans (stored next inAdded)
      exact Or.inl (List.mem_append_right _ inAdded)

/-- No more ids are seen than there are nodes. -/
theorem Searched.length_le {seen : List String} {queue : List Node}
    (searched : tree.Searched start seen queue) : seen.length ≤ tree.nodes.size := by
  have named : seen ⊆ tree.nodes.entries.map Prod.fst := by
    intro name known
    obtain ⟨node, stored, _⟩ := searched.reached name known
    exact List.mem_map_of_mem (mem_of_lookup stored)
  calc seen.length ≤ (tree.nodes.entries.map Prod.fst).length :=
        (searched.distinct.subperm named).length_le
    _ = tree.nodes.size := List.length_map _

/-- A search with room for all nodes that were not taken from the queue yet ends with an empty
queue. -/
theorem Searched.searchFrom (ownIds : tree.HasOwnIds) {fuel : Nat} {seen : List String}
    {queue : List Node} (searched : tree.Searched start seen queue)
    (room : tree.nodes.size + queue.length ≤ fuel + seen.length) :
    tree.Searched start (tree.searchFrom fuel seen queue) [] := by
  induction fuel generalizing seen queue with
  | zero =>
      have bound := searched.length_le
      have empty : queue = [] := List.length_eq_zero_iff.mp (by omega)
      subst empty
      exact searched
  | succ fuel inductionHypothesis =>
      cases queue with
      | nil => exact searched
      | cons node queue =>
          obtain ⟨added, newEq, linked, covered, distinct⟩ :=
            exists_newSuccessors tree seen node
          have next := searched.step ownIds linked covered (distinct searched.distinct)
          have rest := inductionHypothesis next (by
            simp only [length_seenAfter, List.length_append, List.length_cons] at room ⊢
            omega)
          unfold DialogueTree.searchFrom
          rw [newEq]
          exact rest

/-- When the queue is empty, all nodes at the end of a path have been seen. -/
theorem Searched.mem_of_leads (ownIds : tree.HasOwnIds) (stored : tree.get? name = some start)
    {seen : List String} (searched : tree.Searched start seen []) (leads : tree.Leads start node) :
    node.id ∈ seen ∧ tree.get? node.id = some node := by
  induction leads with
  | refl => exact ⟨searched.begun, ownIds.get?_id stored⟩
  | tail _ linked inductionHypothesis =>
      obtain ⟨known, found⟩ := inductionHypothesis
      obtain ⟨nextName, nextStored⟩ := exists_get?_of_links linked
      rcases searched.closed _ known _ found with inQueue | followed
      · cases inQueue
      · exact ⟨followed _ linked, ownIds.get?_id nextStored⟩

/-- The search from the start finds the ids of the nodes to which a path leads, and no others. -/
theorem mem_reachableIds_iff (ownIds : tree.HasOwnIds) (stored : tree.startNode? = some start)
    (found : tree.get? name = some node) :
    node.id ∈ tree.reachableIds ↔ tree.Leads start node := by
  have begun := searched_start ownIds stored
  have searched : tree.Searched start tree.reachableIds [] := by
    unfold reachableIds
    rw [stored]
    exact begun.searchFrom ownIds (by simp)
  constructor
  · intro known
    obtain ⟨other, otherStored, leads⟩ := searched.reached _ known
    cases otherStored.symm.trans (ownIds.get?_id found)
    exact leads
  · intro leads
    exact (searched.mem_of_leads ownIds stored leads).1

/-! ## Reports of unreachable nodes -/

private theorem unreachable_mem_nodeIssues_iff {reachable : List String} :
    .unreachable ∈ tree.nodeIssues reachable node ↔
      tree.contains tree.start = true ∧ node.id ∉ reachable := by
  simp [nodeIssues, danglingIssues, Node.choiceIssues, Node.blockIssues, Node.valueIssues]

/-- A node is reported as unreachable if the tree has a start and no path leads from it to the
node. -/
theorem unreachable_mem_lint_iff {schema : FlagSchema} (ownIds : tree.HasOwnIds)
    (stored : tree.startNode? = some start) (listed : node ∈ tree.nodeList) :
    ⟨some node.id, .unreachable⟩ ∈ tree.lint schema ↔ ¬ tree.Leads start node := by
  have present : tree.contains tree.start = true := Option.isSome_iff_exists.mpr ⟨start, stored⟩
  rw [← mem_reachableIds_iff ownIds stored (ownIds.get?_of_mem listed)]
  constructor
  · intro reported
    obtain ⟨other, _, place, inNode⟩ := (mem_lint_iff rfl (by simp)).mp reported
    rw [Option.some.inj place]
    exact (unreachable_mem_nodeIssues_iff.mp inNode).2
  · intro unseen
    have inNode := unreachable_mem_nodeIssues_iff.mpr ⟨present, unseen⟩
    exact (mem_lint_iff rfl (by simp)).mpr ⟨node, listed, rfl, inNode⟩

end BranchingDialogue.DialogueTree

import BranchingDialogue.Graph.Tree
import BranchingDialogue.Proofs.Keyed.Lookup

/-! Nodes with different ids that are stored one after another keep their order. -/

namespace BranchingDialogue

theorem OrderedMap.putIn_of_not_mem {α : Type} {name : String} {entries : List (String × α)}
    (absent : name ∉ entries.map Prod.fst) (value : α) :
    putIn name value entries = entries ++ [(name, value)] := by
  induction entries with
  | nil => rfl
  | cons entry entries inductionHypothesis =>
      obtain ⟨other, old⟩ := entry
      obtain ⟨different, absentInRest⟩ := not_or.mp fun member => absent (List.mem_cons.mpr member)
      rw [putIn, if_neg fun same => different same.symm, inductionHypothesis absentInRest,
        List.cons_append]

/-- Entries with new names that are inserted one after another keep their order. -/
theorem OrderedMap.entries_insertAll {α : Type} {map : OrderedMap α} {entries : List (String × α)}
    (distinct : (map.entries.map Prod.fst ++ entries.map Prod.fst).Nodup) :
    (map.insertAll entries).entries = map.entries ++ entries := by
  induction entries generalizing map with
  | nil => exact (List.append_nil _).symm
  | cons entry entries inductionHypothesis =>
      obtain ⟨name, value⟩ := entry
      have absent : name ∉ map.entries.map Prod.fst := by
        intro member
        rw [List.nodup_append] at distinct
        exact distinct.2.2 _ member _ (by simp) rfl
      have stored : (map.insert name value).entries = map.entries ++ [(name, value)] :=
        putIn_of_not_mem absent value
      have others : ((map.insert name value).entries.map Prod.fst ++
          entries.map Prod.fst).Nodup := by
        rw [stored]
        simpa using distinct
      calc (map.insertAll ((name, value) :: entries)).entries =
            ((map.insert name value).insertAll entries).entries := rfl
        _ = (map.entries ++ [(name, value)]) ++ entries := by
            rw [inductionHypothesis others, stored]
        _ = map.entries ++ (name, value) :: entries := by simp

theorem OrderedMap.ext_entries {α : Type} {left right : OrderedMap α}
    (entries : left.entries = right.entries) : left = right := by
  cases left
  cases right
  cases entries
  rfl

theorem OrderedMap.ofList_entries {α : Type} (map : OrderedMap α) : ofList map.entries = map := by
  refine ext_entries (entries_insertAll ?_)
  exact map.distinct

namespace DialogueTree

/-- Whether every node is stored under its own id. -/
def HasOwnIds (tree : DialogueTree) : Prop :=
  ∀ entry ∈ tree.nodes.entries, entry.1 = entry.2.id

instance (tree : DialogueTree) : Decidable tree.HasOwnIds :=
  inferInstanceAs (Decidable (∀ entry ∈ tree.nodes.entries, entry.1 = entry.2.id))

/-- A slot leads to the node under its name, unless the name is empty. -/
theorem resolve_some (tree : DialogueTree) (name : String) :
    tree.resolve (some name) = if name = "" then none else tree.get? name := by
  by_cases empty : name = ""
  · rw [if_pos empty, empty]
    rfl
  · have live : Slot.live (some name) = some name := by simp [Slot.live, empty]
    rw [if_neg empty, resolve, live, Option.bind_some]

def entryOf (node : Node) : String × Node :=
  (node.id, node)

private theorem nodes_withNodes (tree : DialogueTree) (nodes : List Node) :
    (tree.withNodes nodes).nodes = tree.nodes.insertAll (nodes.map entryOf) := by
  induction nodes generalizing tree with
  | nil => rfl
  | cons node nodes inductionHypothesis => exact inductionHypothesis (tree.withNode node)

theorem entries_withNodes {tree : DialogueTree} {nodes : List Node}
    (distinct : (tree.nodes.entries.map Prod.fst ++ nodes.map Node.id).Nodup) :
    (tree.withNodes nodes).nodes.entries = tree.nodes.entries ++ nodes.map entryOf := by
  rw [nodes_withNodes]
  refine OrderedMap.entries_insertAll ?_
  rw [List.map_map]
  exact distinct

theorem HasOwnIds.id_eq {tree : DialogueTree} (ownIds : tree.HasOwnIds) {name : String}
    {node : Node} (stored : tree.get? name = some node) : node.id = name :=
  (ownIds _ (mem_of_lookup stored)).symm

theorem HasOwnIds.get?_id {tree : DialogueTree} (ownIds : tree.HasOwnIds) {name : String}
    {node : Node} (stored : tree.get? name = some node) : tree.get? node.id = some node := by
  rwa [ownIds.id_eq stored]

theorem HasOwnIds.get?_of_mem {tree : DialogueTree} (ownIds : tree.HasOwnIds) {node : Node}
    (listed : node ∈ tree.nodeList) : tree.get? node.id = some node := by
  obtain ⟨entry, inEntries, rfl⟩ := List.mem_map.mp listed
  rw [← ownIds entry inEntries]
  exact lookup_of_mem tree.nodes.distinct inEntries

theorem HasOwnIds.contains_iff {tree : DialogueTree} (ownIds : tree.HasOwnIds) {name : String} :
    tree.contains name = true ↔ ∃ node ∈ tree.nodeList, node.id = name := by
  constructor
  · intro present
    obtain ⟨node, found⟩ := Option.isSome_iff_exists.mp present
    have member := mem_of_lookup found
    exact ⟨node, List.mem_map_of_mem member, (ownIds _ member).symm⟩
  · rintro ⟨node, listed, rfl⟩
    exact Option.isSome_iff_exists.mpr ⟨node, ownIds.get?_of_mem listed⟩

theorem heading_withNodes (tree : DialogueTree) (nodes : List Node) :
    (tree.withNodes nodes).id = tree.id ∧ (tree.withNodes nodes).title = tree.title ∧
      (tree.withNodes nodes).start = tree.start := by
  unfold withNodes
  induction nodes generalizing tree with
  | nil => exact ⟨rfl, rfl, rfl⟩
  | cons node nodes inductionHypothesis => exact inductionHypothesis (tree.withNode node)

theorem ext_entries {left right : DialogueTree} (id : left.id = right.id)
    (title : left.title = right.title) (start : left.start = right.start)
    (entries : left.nodes.entries = right.nodes.entries) : left = right := by
  have nodes : left.nodes = right.nodes := OrderedMap.ext_entries entries
  cases left
  cases right
  cases id
  cases title
  cases start
  cases nodes
  rfl

private theorem HasOwnIds.map_id_nodeList {tree : DialogueTree} (ownIds : tree.HasOwnIds) :
    tree.nodeList.map Node.id = tree.nodes.entries.map Prod.fst := by
  unfold nodeList OrderedMap.values
  rw [List.map_map]
  exact List.map_congr_left fun entry member => (ownIds entry member).symm

theorem HasOwnIds.map_entryOf_nodeList {tree : DialogueTree} (ownIds : tree.HasOwnIds) :
    tree.nodeList.map entryOf = tree.nodes.entries := by
  unfold nodeList OrderedMap.values
  rw [List.map_map]
  calc tree.nodes.entries.map (entryOf ∘ Prod.snd) =
        tree.nodes.entries.map fun entry => entry := by
        refine List.map_congr_left fun entry member => ?_
        exact Prod.ext (ownIds entry member).symm rfl
    _ = tree.nodes.entries := List.map_id' _

theorem HasOwnIds.nodup_ids {tree : DialogueTree} (ownIds : tree.HasOwnIds) :
    (tree.nodeList.map Node.id).Nodup := by
  rw [ownIds.map_id_nodeList]
  exact tree.nodes.distinct

/-- A tree is put together again from its nodes when each is stored under its own id. -/
theorem withNodes_nodeList {tree : DialogueTree} (ownIds : tree.HasOwnIds) :
    (bare tree.id tree.title tree.start).withNodes tree.nodeList = tree := by
  have stored := @entries_withNodes (bare tree.id tree.title tree.start) tree.nodeList
    ownIds.nodup_ids
  obtain ⟨id, title, start⟩ := heading_withNodes (bare tree.id tree.title tree.start) tree.nodeList
  refine ext_entries id title start ?_
  rw [stored, ownIds.map_entryOf_nodeList]
  rfl

end DialogueTree

end BranchingDialogue

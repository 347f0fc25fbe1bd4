import BranchingDialogue.Graph.Lint
import BranchingDialogue.Json.Dialogue
import BranchingDialogue.Proofs.Graph.Tree
import BranchingDialogue.Proofs.Json.Record

/-! The document of a tree is decoded to the tree, part by part, and it is read from its text as it
was written if the numbers in it are. So the text of a tree is read as the tree. -/

namespace BranchingDialogue

open Json

/-! ## Values -/

theorem Value.ofJson?_toJson (value : Value) : ofJson? value.toJson = some value := by
  cases value <;> rfl

theorem Value.toJson_ne_null (value : Value) : value.toJson ≠ .null := by
  cases value <;> rintro ⟨⟩

private theorem Operator.ofJson?_name (form : NameForm) (operator : Operator) :
    ofJson? form (ofString operator.jsonName) = some operator := by
  cases operator <;> rfl

/-- A value is faithful if it is no number that does not survive. -/
theorem Value.faithful {value : Value} {level : Nat}
    (survives : ∀ amount, value = .number amount → Survives amount) :
    Faithful level value.toJson := by
  cases value with
  | bool truth => exact .bool truth
  | number amount => exact .real (survives amount rfl)
  | text content => exact .string content

/-! ## Conditions -/

namespace Condition

def number? (condition : Condition) : Option Float :=
  match condition.value with
  | some (.number amount) => some amount
  | _ => none

/-- Whether the number that a condition compares with is read back. -/
def Lasts (condition : Condition) : Prop :=
  ∀ amount ∈ condition.number?, Survives amount

def fieldSlots (condition : Condition) : List (String × Option Json) :=
  [("flag", some (ofString condition.flag)),
    ("operator", some (ofString condition.operator.jsonName)),
    ("value", condition.value.map Value.toJson)]

theorem toJson_eq (condition : Condition) :
    condition.toJson = .object (record condition.fieldSlots) := by
  simp [toJson, record, fieldSlots, optionalMember]

theorem ofJson?_toJson (form : NameForm) (condition : Condition) :
    ofJson? form condition.toJson = some condition := by
  have distinct : (condition.fieldSlots.map Prod.fst).Nodup := by simp [fieldSlots]
  have read : condition.toJson.fields ["flag", "operator", "value"] =
      some (present condition.fieldSlots) := by
    rw [toJson_eq]
    exact fields_record distinct (by simp [fieldSlots])
  have flag : (present condition.fieldSlots).required "flag" asString = some condition.flag :=
    required_text distinct (by simp [fieldSlots])
  have operator : (present condition.fieldSlots).required "operator" (Operator.ofJson? form) =
      some condition.operator :=
    required_present distinct (Operator.ofJson?_name form condition.operator) (by simp [fieldSlots])
  have value : (present condition.fieldSlots).optional "value" Value.ofJson? =
      some condition.value :=
    optional_present distinct Value.ofJson?_toJson Value.toJson_ne_null (by simp [fieldSlots])
  simp [ofJson?, read, flag, operator, value]

theorem Lasts.faithful {condition : Condition} (lasts : condition.Lasts) :
    Faithful 1 condition.toJson := by
  rw [toJson_eq]
  refine .record ?_
  simp only [fieldSlots, List.forall_mem_cons, Option.forall_mem_map, Option.mem_some_iff,
    forall_eq', List.not_mem_nil, false_implies, implies_true, and_true]
  refine ⟨.string _, .string _, fun value isValue => Value.faithful fun amount isNumber => ?_⟩
  refine lasts amount ?_
  rw [Option.mem_def] at isValue
  rw [number?, isValue, isNumber]
  rfl

end Condition

private theorem faithful_conditions {conditions : List Condition}
    (last : ∀ condition ∈ conditions, condition.Lasts) :
    Faithful 2 (.list (conditions.map Condition.toJson)) :=
  .map fun condition listed => (last condition listed).faithful

/-! ## Blocks -/

namespace Block

/-- The conditions of a block, which are left out when there are none. -/
def conditionSlot (block : Block) : Option Json :=
  if block.conditions.isEmpty then none else some (.list (block.conditions.map Condition.toJson))

def fieldSlots (block : Block) : List (String × Option Json) :=
  [("type", some (ofString (kindName block.kind))),
    ("condition", block.conditionSlot),
    ("content", some (ofString block.content)),
    ("speaker", block.speaker.map ofString),
    ("nextNodeId", block.next.map ofString)]

theorem toJson_eq (block : Block) : block.toJson = .object (record block.fieldSlots) := by
  simp [toJson, record, fieldSlots, conditionSlot, optionalMember]

private theorem kindOfName?_kindName (kind : BlockKind) :
    kindOfName? (kindName kind) = some kind := by
  cases kind <;> rfl

theorem ofJson?_toJson (block : Block) : ofJson? block.toJson = some block := by
  have distinct : (block.fieldSlots.map Prod.fst).Nodup := by simp [fieldSlots]
  have read : block.toJson.fields ["type", "condition", "content", "speaker", "nextNodeId"] =
      some (present block.fieldSlots) := by
    rw [toJson_eq]
    exact fields_record distinct (by simp [fieldSlots])
  have kind : (present block.fieldSlots).required "type"
      (fun value => (asName .relaxed value).bind kindOfName?) = some block.kind := by
    refine required_present distinct ?_ List.mem_cons_self
    exact kindOfName?_kindName block.kind
  have conditions : (present block.fieldSlots).withDefault "condition" []
      (asList (Condition.ofJson? .relaxed)) = some block.conditions := by
    refine withDefault_present distinct block.conditionSlot ?_ (by simp [fieldSlots])
    rw [conditionSlot]
    cases block.conditions with
    | nil => rfl
    | cons first others => exact asList_map (Condition.ofJson?_toJson .relaxed) (first :: others)
  have content : (present block.fieldSlots).required "content" asString = some block.content :=
    required_text distinct (by simp [fieldSlots])
  have speaker : (present block.fieldSlots).optional "speaker" asString = some block.speaker :=
    optional_text distinct (by simp [fieldSlots])
  have next : (present block.fieldSlots).optional "nextNodeId" asString = some block.next :=
    optional_text distinct (by simp [fieldSlots])
  simp [ofJson?, read, kind, conditions, content, speaker, next]

theorem faithful {block : Block} (last : ∀ condition ∈ block.conditions, condition.Lasts) :
    Faithful 3 block.toJson := by
  rw [toJson_eq]
  refine .record ?_
  simp only [fieldSlots, List.forall_mem_cons, Option.forall_mem_map, Option.mem_some_iff,
    forall_eq', List.not_mem_nil, false_implies, implies_true, and_true]
  refine ⟨.string _, ?_, .string _, fun speaker _ => .string _, fun next _ => .string _⟩
  intro value written
  rw [conditionSlot] at written
  split at written
  · cases written
  · cases written
    exact faithful_conditions last

end Block

/-! ## Choices -/

namespace Choice

def fieldSlots (choice : Choice) : List (String × Option Json) :=
  [("id", some (ofString choice.id)),
    ("text", some (ofString choice.text)),
    ("nextNodeId", choice.next.map ofString),
    ("conditions", choice.conditions.map fun conditions => .list (conditions.map Condition.toJson)),
    ("setFlags", choice.raises.map ofStrings)]

theorem toJson_eq (choice : Choice) : choice.toJson = .object (record choice.fieldSlots) := by
  simp [toJson, record, fieldSlots, optionalMember]

theorem ofJson?_toJson (form : NameForm) (choice : Choice) :
    ofJson? form choice.toJson = some choice := by
  have distinct : (choice.fieldSlots.map Prod.fst).Nodup := by simp [fieldSlots]
  have read : choice.toJson.fields ["id", "text", "nextNodeId", "conditions", "setFlags"] =
      some (present choice.fieldSlots) := by
    rw [toJson_eq]
    exact fields_record distinct (by simp [fieldSlots])
  have id : (present choice.fieldSlots).required "id" asString = some choice.id :=
    required_text distinct (by simp [fieldSlots])
  have text : (present choice.fieldSlots).required "text" asString = some choice.text :=
    required_text distinct (by simp [fieldSlots])
  have next : (present choice.fieldSlots).optional "nextNodeId" asString = some choice.next :=
    optional_text distinct (by simp [fieldSlots])
  have conditions : (present choice.fieldSlots).optional "conditions"
      (asList (Condition.ofJson? form)) = some choice.conditions :=
    optional_list distinct (Condition.ofJson?_toJson form) (by simp [fieldSlots])
  have raises : (present choice.fieldSlots).optional "setFlags" (asList asString) =
      some choice.raises :=
    optional_texts distinct (by simp [fieldSlots])
  simp [ofJson?, read, id, text, next, conditions, raises]

theorem faithful {choice : Choice} (last : ∀ condition ∈ choice.gate, condition.Lasts) :
    Faithful 3 choice.toJson := by
  rw [toJson_eq]
  refine .record ?_
  simp only [fieldSlots, List.forall_mem_cons, Option.forall_mem_map, Option.mem_some_iff,
    forall_eq', List.not_mem_nil, false_implies, implies_true, and_true]
  refine ⟨.string _, .string _, fun next _ => .string _, fun conditions isGate => ?_,
    fun raises _ => .strings raises⟩
  refine faithful_conditions fun condition listed => last condition ?_
  rw [Option.mem_def] at isGate
  rw [gate, isGate]
  exact listed

end Choice

/-! ## Kinds of nodes -/

namespace NodeKind

/-- The fields that only nodes of a type have. -/
def ownSlots : NodeKind → List (String × Option Json)
  | .npc speech =>
      [("content", some (ofString speech.content)),
        ("nextNodeId", speech.next.map ofString),
        ("setFlags", speech.raises.map ofStrings),
        ("conditionalBlocks", speech.blocks.map fun blocks => .list (blocks.map Block.toJson))]
  | .player choices => [("choices", some (.list (choices.map Choice.toJson)))]
  | .conditional blocks => [("conditionalBlocks", some (.list (blocks.map Block.toJson)))]

/-- The fields of a node that depend on its type. -/
def fieldSlots (kind : NodeKind) : List (String × Option Json) :=
  ("type", some (ofString kind.name)) :: kind.ownSlots

private theorem toMembers_eq (kind : NodeKind) : kind.toMembers = record kind.fieldSlots := by
  cases kind <;> simp [toMembers, record, fieldSlots, ownSlots, name, optionalMember]

private theorem distinct_names (kind : NodeKind) : (kind.fieldSlots.map Prod.fst).Nodup := by
  cases kind <;> simp [fieldSlots, ownSlots]

private theorem distinct_own (kind : NodeKind) : (kind.ownSlots.map Prod.fst).Nodup :=
  (List.nodup_cons.mp kind.distinct_names).2

private theorem typed_present (kind : NodeKind) :
    ∃ typed, knownFields ["type"] (present kind.fieldSlots) = some typed ∧
      typed.required "type" typeOfJson? = some kind.name := by
  refine ⟨_, knownFields_present kind.distinct_names ["type"], ?_⟩
  cases kind <;> rfl

private theorem own_present (kind : NodeKind) {names : List String}
    (same : kind.ownSlots.map Prod.fst = names) :
    knownFields names (present kind.fieldSlots) = some (present kind.ownSlots) := by
  subst same
  have noType : "type" ∉ kind.ownSlots.map Prod.fst := (List.nodup_cons.mp kind.distinct_names).1
  rw [knownFields_present kind.distinct_names, fieldSlots,
    List.filter_cons_of_neg (by simpa using noType)]
  congr 2
  refine List.filter_eq_self.mpr fun slot listed => ?_
  simpa using ⟨slot.2, listed⟩

private theorem ofMembers?_present (kind : NodeKind) :
    ofMembers? (present kind.fieldSlots) = some kind := by
  obtain ⟨typed, typedEq, nameEq⟩ := kind.typed_present
  have distinct := kind.distinct_own
  unfold ofMembers?
  rw [typedEq]
  simp only [Option.bind_eq_bind, Option.bind_some, nameEq]
  cases kind with
  | npc speech =>
      have own : knownFields ["content", "nextNodeId", "setFlags", "conditionalBlocks"]
          (present (npc speech).fieldSlots) = some (present (npc speech).ownSlots) :=
        own_present (npc speech) rfl
      have content : (present (npc speech).ownSlots).withDefault "content" "" asString =
          some speech.content := by
        refine withDefault_present distinct _ ?_ List.mem_cons_self
        rfl
      have next : (present (npc speech).ownSlots).optional "nextNodeId" asString =
          some speech.next :=
        optional_text distinct (by simp [ownSlots])
      have raises : (present (npc speech).ownSlots).optional "setFlags" (asList asString) =
          some speech.raises :=
        optional_texts distinct (by simp [ownSlots])
      have blocks : (present (npc speech).ownSlots).optional "conditionalBlocks"
          (asList Block.ofJson?) = some speech.blocks :=
        optional_list distinct Block.ofJson?_toJson (by simp [ownSlots])
      simp [name, own, content, next, raises, blocks]
  | player choices =>
      have own : knownFields ["choices"] (present (player choices).fieldSlots) =
          some (present (player choices).ownSlots) :=
        own_present (player choices) rfl
      have listed : (present (player choices).ownSlots).withDefault "choices" []
          (asList (Choice.ofJson? .relaxed)) = some choices :=
        withDefault_list distinct (Choice.ofJson?_toJson .relaxed) (by simp [ownSlots])
      simp [name, own, listed]
  | conditional blocks =>
      have own : knownFields ["conditionalBlocks"] (present (conditional blocks).fieldSlots) =
          some (present (conditional blocks).ownSlots) :=
        own_present (conditional blocks) rfl
      have listed : (present (conditional blocks).ownSlots).withDefault "conditionalBlocks" []
          (asList Block.ofJson?) = some blocks :=
        withDefault_list distinct Block.ofJson?_toJson (by simp [ownSlots])
      simp [name, own, listed]

end NodeKind

/-! ## Nodes -/

namespace Node

/-- The fields that every node has. -/
def ownSlots (node : Node) : List (String × Option Json) :=
  [("id", some (ofString node.id)), ("speaker", node.speaker.map ofString)]

/-- The fields of a node. -/
def fieldSlots (node : Node) : List (String × Option Json) :=
  node.ownSlots ++ node.kind.fieldSlots

theorem toJson_eq (node : Node) : node.toJson = .object (record node.fieldSlots) := by
  simp [toJson, record, fieldSlots, ownSlots, optionalMember, NodeKind.toMembers_eq]

/-- The names of the fields that depend on the type are not those of the others. -/
theorem held_name {kind : NodeKind} {slot : String × Option Json}
    (listed : slot ∈ kind.fieldSlots) : slot.1 ≠ "id" ∧ slot.1 ≠ "speaker" := by
  have others : ∀ name ∈ kind.fieldSlots.map Prod.fst, name ≠ "id" ∧ name ≠ "speaker" := by
    cases kind <;> simp [NodeKind.fieldSlots, NodeKind.ownSlots]
  exact others slot.1 (List.mem_map_of_mem listed)

private theorem distinct_own (node : Node) : (node.ownSlots.map Prod.fst).Nodup := by
  simp [ownSlots]

private theorem distinct_names (node : Node) : (node.fieldSlots.map Prod.fst).Nodup := by
  rw [fieldSlots, List.map_append, List.nodup_append]
  refine ⟨node.distinct_own, node.kind.distinct_names, fun first isOwn second isHeld same => ?_⟩
  obtain ⟨slot, listed, rfl⟩ := List.mem_map.mp isHeld
  obtain ⟨noId, noSpeaker⟩ := held_name listed
  simp [ownSlots, same, noId, noSpeaker] at isOwn

private theorem own_present (node : Node) :
    knownFields ["id", "speaker"] (present node.fieldSlots) = some (present node.ownSlots) := by
  have own : node.ownSlots.filter (fun slot => ["id", "speaker"].contains slot.1) =
      node.ownSlots := by
    simp [ownSlots]
  have noOthers : node.kind.fieldSlots.filter
      (fun slot => ["id", "speaker"].contains slot.1) = [] := by
    refine List.filter_eq_nil_iff.mpr fun slot listed => ?_
    simpa using held_name listed
  rw [knownFields_present node.distinct_names, fieldSlots, List.filter_append, own, noOthers,
    List.append_nil]

private theorem held_present (node : Node) :
    (present node.fieldSlots).filter (fun field => field.1 ≠ "id" && field.1 ≠ "speaker") =
      present node.kind.fieldSlots := by
  have noOwn : node.ownSlots.filter (fun slot => slot.1 ≠ "id" && slot.1 ≠ "speaker") = [] := by
    simp [ownSlots]
  have others : node.kind.fieldSlots.filter (fun slot => slot.1 ≠ "id" && slot.1 ≠ "speaker") =
      node.kind.fieldSlots := by
    refine List.filter_eq_self.mpr fun slot listed => ?_
    simpa using held_name listed
  rw [filter_present (fun name => name ≠ "id" && name ≠ "speaker"), fieldSlots, List.filter_append,
    noOwn, others, List.nil_append]

/-- The fields that are held back are faithful if the numbers of the node last. -/
theorem held_faithful {node : Node} (last : ∀ condition ∈ node.conditions, condition.Lasts) :
    ∀ slot ∈ node.kind.fieldSlots, ∀ value ∈ slot.2, Faithful 4 value := by
  have blocksFaithful {blocks : List Block}
      (each : ∀ block ∈ blocks, ∀ condition ∈ block.conditions, condition.Lasts) :
      Faithful 4 (.list (blocks.map Block.toJson)) :=
    .map fun block listed => Block.faithful (each block listed)
  obtain ⟨id, speaker, kind⟩ := node
  cases kind with
  | npc speech =>
      simp only [NodeKind.fieldSlots, NodeKind.ownSlots, List.forall_mem_cons, Option.forall_mem_map,
        Option.mem_some_iff, forall_eq', List.not_mem_nil, false_implies, implies_true, and_true]
      refine ⟨.string _, .string _, fun next _ => .string _, fun raises _ => .strings raises,
        fun blocks isGroup => blocksFaithful fun block listed condition inBlock => last condition ?_⟩
      rw [Option.mem_def] at isGroup
      simp only [conditions, choices?, Node.blocks, blocks?, isGroup, Option.getD_some]
      exact List.mem_flatMap.mpr ⟨block, listed, inBlock⟩
  | player choices =>
      simp only [NodeKind.fieldSlots, NodeKind.ownSlots, List.forall_mem_cons, Option.mem_some_iff,
        forall_eq', List.not_mem_nil, false_implies, implies_true, and_true]
      refine ⟨.string _, .map fun choice listed => Choice.faithful fun condition inGate => ?_⟩
      exact last condition (List.mem_flatMap.mpr ⟨choice, listed, inGate⟩)
  | conditional blocks =>
      simp only [NodeKind.fieldSlots, NodeKind.ownSlots, List.forall_mem_cons, Option.mem_some_iff,
        forall_eq', List.not_mem_nil, false_implies, implies_true, and_true]
      refine ⟨.string _, blocksFaithful fun block listed condition inBlock => ?_⟩
      exact last condition (List.mem_flatMap.mpr ⟨block, listed, inBlock⟩)

theorem faithful {node : Node} (last : ∀ condition ∈ node.conditions, condition.Lasts) :
    Faithful 5 node.toJson := by
  rw [toJson_eq]
  refine .record ?_
  simp only [fieldSlots, ownSlots, List.cons_append, List.nil_append, List.forall_mem_cons,
    Option.forall_mem_map, Option.mem_some_iff, forall_eq']
  exact ⟨.string _, fun speaker _ => .string _, held_faithful last⟩

/-- A node is decoded where its fields have room. -/
theorem ofJson?_toJson {node : Node} (last : ∀ condition ∈ node.conditions, condition.Lasts)
    {room : Nat} (deep : 4 < room) : ofJson? room node.toJson = some node := by
  have id : (present node.ownSlots).required "id" asString = some node.id :=
    required_text node.distinct_own (by simp [ownSlots])
  have speaker : (present node.ownSlots).optional "speaker" asString = some node.speaker :=
    optional_text node.distinct_own (by simp [ownSlots])
  have fits : ((present node.kind.fieldSlots).all fun field =>
      field.2.isUsable && field.2.depth < room) = true := by
    refine List.all_eq_true.mpr fun field listed => ?_
    have faithful := held_faithful last _ (mem_present.mp listed) field.2 rfl
    rw [faithful.usable, Bool.true_and, decide_eq_true_iff]
    exact faithful.shallow.trans_lt deep
  rw [toJson_eq]
  simp only [ofJson?, namedMembers_record, Option.bind_eq_bind, Option.bind_some, own_present,
    held_present, id, speaker, fits, if_true, NodeKind.ofMembers?_present]
  rfl

end Node

/-! ## Trees -/

namespace DialogueTree

def numbers (tree : DialogueTree) : List Float :=
  tree.nodeList.flatMap fun node => node.conditions.filterMap Condition.number?

/-- The nodes of a tree by their names. -/
def nodeSlots (tree : DialogueTree) : List (String × Option Json) :=
  tree.nodes.entries.map fun (key, node) => (key, some node.toJson)

def fieldSlots (tree : DialogueTree) : List (String × Option Json) :=
  [("id", some (ofString tree.id)),
    ("title", some (ofString tree.title)),
    ("startNodeId", some (ofString tree.start)),
    ("nodes", some (.object (record tree.nodeSlots)))]

private theorem record_nodeSlots (tree : DialogueTree) :
    record tree.nodeSlots = tree.nodes.entries.map fun (key, node) => member key node.toJson := by
  rw [record, nodeSlots, List.flatMap_map]
  exact (List.map_eq_flatMap ..).symm

private theorem present_nodeSlots (tree : DialogueTree) :
    present tree.nodeSlots = tree.nodes.entries.map fun (key, node) => (key, node.toJson) := by
  simp [present, nodeSlots, List.filterMap_map]

theorem toJson_eq (tree : DialogueTree) : tree.toJson = .object (record tree.fieldSlots) := by
  rw [toJson, ← record_nodeSlots]
  rfl

variable {tree : DialogueTree}
  (last : ∀ node ∈ tree.nodeList, ∀ condition ∈ node.conditions, condition.Lasts)

include last

/-- The nodes are decoded in their order, each under its own key. -/
theorem nodesOfJson?_nodeSlots :
    nodesOfJson? (.object (record tree.nodeSlots)) = some tree.nodes := by
  have decoded : ∀ entry ∈ tree.nodes.entries,
      Node.ofJson? (nestingLimit - 2) entry.2.toJson = some entry.2 := by
    intro entry listed
    exact Node.ofJson?_toJson (last _ (List.mem_map_of_mem listed)) (by decide)
  rw [nodesOfJson?, namedMembers_record, present_nodeSlots]
  simp only [Option.bind_eq_bind, Option.bind_some]
  rw [mapM_map]
  · exact congrArg some tree.nodes.ofList_entries
  · intro entry listed
    dsimp only
    rw [decoded entry listed]
    rfl

theorem ofJson?_toJson : ofJson? tree.toJson = some tree := by
  have distinct : (tree.fieldSlots.map Prod.fst).Nodup := by simp [fieldSlots]
  have read : tree.toJson.fields ["id", "title", "startNodeId", "nodes"] =
      some (present tree.fieldSlots) := by
    rw [toJson_eq]
    exact fields_record distinct (by simp [fieldSlots])
  have id : (present tree.fieldSlots).required "id" asString = some tree.id :=
    required_text distinct (by simp [fieldSlots])
  have title : (present tree.fieldSlots).required "title" asString = some tree.title :=
    required_text distinct (by simp [fieldSlots])
  have start : (present tree.fieldSlots).required "startNodeId" asString = some tree.start :=
    required_text distinct (by simp [fieldSlots])
  have nodes : (present tree.fieldSlots).withDefault "nodes" .empty nodesOfJson? =
      some tree.nodes :=
    withDefault_present distinct (some (.object (record tree.nodeSlots)))
      (nodesOfJson?_nodeSlots last) (by simp [fieldSlots])
  simp [ofJson?, read, id, title, start, nodes]

theorem faithful : Faithful 7 tree.toJson := by
  rw [toJson_eq]
  refine .record ?_
  simp only [fieldSlots, List.forall_mem_cons, Option.mem_some_iff, forall_eq', List.not_mem_nil,
    false_implies, implies_true, and_true]
  refine ⟨.string _, .string _, .string _, .record ?_⟩
  simp only [nodeSlots, List.forall_mem_map, Option.mem_some_iff, forall_eq']
  exact fun entry listed => (Node.faithful (last _ (List.mem_map_of_mem listed)))

omit last

/-- The text of a tree is read as the tree, node for node and field for field, if the number of each
condition is finite and the text of that number is read as it. -/
theorem read?_toText {tree : DialogueTree}
    (finite : ∀ amount ∈ tree.numbers, amount.isFinite = true)
    (readBack : ∀ amount ∈ tree.numbers, amount.isFinite = true → Survives amount) :
    read? tree.toText = some tree := by
  have last : ∀ node ∈ tree.nodeList, ∀ condition ∈ node.conditions, condition.Lasts := by
    intro node listed condition inNode amount isNumber
    have inTree : amount ∈ tree.numbers :=
      List.mem_flatMap.mpr ⟨node, listed, List.mem_filterMap.mpr ⟨condition, inNode, isNumber⟩⟩
    exact readBack amount inTree (finite amount inTree)
  have document := faithful last
  rw [read?, toText, read_pretty (hasKeys_of_isUsable document.usable), document.same,
    Option.bind_some]
  exact ofJson?_toJson last

def stallBlocks : List Block :=
  [⟨.«if», [.compare "gold" .greaterEqual (.number 1.5)], "Rich!", none, some "shop"⟩,
    ⟨.«else», [], "", some "Mara", some "?"⟩]

/-- The choices in a shop, of which one has empty lists. -/
def stallChoices : List Choice :=
  [⟨"1", "Buy", none, some [], some []⟩,
    ⟨"2", "Leave \\ go", some "door", some [.isSet "met", .compare "name" .equals (.text "Ada")],
      some ["met"]⟩,
    ⟨"2", "", some "", none, none⟩]

/-- A stall with a greeting that is stored under a key of its own, and with lists and targets that
are absent and others that are empty. -/
def stallTree : DialogueTree where
  id := "stall"
  title := "The \"Golden\" Stall"
  start := "door"
  nodes := .ofList
    [("door", ⟨"greeting", some "", .npc ⟨"Hello.\n\tBuy?", some "", some [], some stallBlocks⟩⟩),
      ("shop", .player "shop" stallChoices),
      ("", .conditional "empty" []),
      ("plain", .npc "plain" "")]

theorem read?_toText_stallTree :
    (∀ amount ∈ stallTree.numbers, amount.isFinite = true) ∧
      (∀ amount ∈ stallTree.numbers, amount.isFinite = true → Survives amount) ∧
        read? stallTree.toText = some stallTree := by
  have numbers : stallTree.numbers = [1.5] := by decide +kernel
  have finite : ∀ amount ∈ stallTree.numbers, amount.isFinite = true := by
    rw [numbers]
    decide +kernel
  have readBack : ∀ amount ∈ stallTree.numbers, amount.isFinite = true → Survives amount := by
    rw [numbers]
    decide +kernel
  exact ⟨finite, readBack, read?_toText finite readBack⟩

end DialogueTree

end BranchingDialogue

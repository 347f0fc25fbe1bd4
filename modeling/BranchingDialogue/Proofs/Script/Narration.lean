import BranchingDialogue.Proofs.Script.Survival

/-! Narration is dialogue that nobody speaks. Its lines stand in the script as they are, but for
marks and backslashes, which are escaped. A line that begins like a comment or like a choice, and
one that looks like the end of a section, is not escaped and comes back as something else or not at
all. -/

namespace BranchingDialogue

open Script

/-! ## Trees of narration -/

/-- Whether a text can be a line of narration. -/
@[mk_iff]
structure IsNarration (text : List Char) : Prop where
  filled : text ≠ []
  trimmed : Text.Trimmed text
  oneLine : Text.OneLine text
  plain : List.isPrefixOf ['<', '<'] text = false

instance (text : List Char) : Decidable (IsNarration text) :=
  decidable_of_iff' _ (isNarration_iff text)

/-- Whether a line of narration is taken for nothing else when it stands on its own. -/
@[mk_iff]
structure ReadsAsNarration (text : List Char) : Prop where
  shown : isComment text = false
  noArrow : List.isPrefixOf ['-', '>'] text = false
  inside : text ≠ sectionEnd

instance (text : List Char) : Decidable (ReadsAsNarration text) :=
  decidable_of_iff' _ (readsAsNarration_iff text)

def narrationNode (id : String) (texts : List (List Char)) : Node :=
  .npc id (String.ofList (Text.joinLines texts))

def narrationTree (id title start : String) (texts : List (List Char)) : DialogueTree :=
  (DialogueTree.bare id title start).withNode (narrationNode start texts)

section Tree

variable {id title start : String} {texts : List (List Char)}

private theorem entries_narrationTree :
    (narrationTree id title start texts).nodes.entries = [(start, narrationNode start texts)] :=
  rfl

private theorem startNode?_narrationTree :
    (narrationTree id title start texts).startNode? = some (narrationNode start texts) := by
  show List.lookup start [(start, narrationNode start texts)] = _
  exact List.lookup_cons_self

/-! ## Content -/

private theorem lines_narration (narration : ∀ text ∈ texts, IsNarration text) :
    Text.lines (Text.joinLines texts) = texts :=
  Text.lines_joinLines (fun text listed => (narration text listed).filled)
    fun text listed => (narration text listed).trimmed.isLine (narration text listed).oneLine

/-- Narration is content that is read as content again exactly when each of its lines is. -/
theorem scriptableContent_narration_iff (narration : ∀ text ∈ texts, IsNarration text) :
    ScriptableContent .node none (String.ofList (Text.joinLines texts)) ↔
      ∀ text ∈ texts, ReadsAsNarration text := by
  have lines : Text.lines (String.ofList (Text.joinLines texts)).toList = texts := by
    rw [String.toList_ofList, lines_narration narration]
  constructor
  · intro scriptable text listed
    have isContent := scriptable.lines text (by rwa [lines])
    obtain ⟨shown, noArrow, inside⟩ := isContent.dialogue (narration text listed).plain rfl
    exact ⟨shown, noArrow, inside⟩
  · intro reads
    refine ⟨by rw [lines, String.toList_ofList], fun text listed => ?_⟩
    rw [lines] at listed
    have isNarration := narration text listed
    have readsText := reads text listed
    exact
      { filled := isNarration.filled
        trimmed := isNarration.trimmed
        command := fun markup => absurd markup (by simp [isNarration.plain])
        dialogue := fun _ _ => ⟨readsText.shown, readsText.noArrow, readsText.inside⟩ }

/-! ## Saving -/

/-- A tree of narration is scriptable exactly when its lines are read as narration. -/
theorem scriptable_narrationTree_iff (idLabel : IsLabel id) (titleLabel : IsLabel title)
    (startLabel : IsLabel start) (narration : ∀ text ∈ texts, IsNarration text) :
    (narrationTree id title start texts).Scriptable ↔ ∀ text ∈ texts, ReadsAsNarration text := by
  rw [← scriptableContent_narration_iff narration]
  constructor
  · intro scriptable
    have stored : (start, narrationNode start texts) ∈
        (narrationTree id title start texts).nodes.entries := by
      simp [entries_narrationTree]
    exact (scriptable.nodes _ stored).2.2.content
  · intro content
    have speech : Speech.Scriptable none { content := String.ofList (Text.joinLines texts) } :=
      { content
        speaker := by simp
        next := by simp [Slot.Scriptable]
        raises := by simp [ListedIf]
        blocks := by simp }
    refine ⟨idLabel, titleLabel, ?_, ?_⟩
    · exact Option.isSome_iff_exists.mpr ⟨_, startNode?_narrationTree⟩
    · simp only [entries_narrationTree, List.forall_mem_singleton]
      exact ⟨rfl, startLabel, speech⟩

private theorem agrees_self_narrationTree :
    (narrationTree id title start texts).agrees (narrationTree id title start texts) = true := by
  refine DialogueTree.agrees_self_iff.mpr ?_
  show ∀ node ∈ [narrationNode start texts], DefinedValues node
  exact List.forall_mem_singleton.mpr (List.forall_mem_nil _)

end Tree

namespace Script

/-- A tree of narration is read back from its script exactly when none of its lines begins like a
comment or a choice or is the end of a section. Its only node is then the same speech of nobody. -/
theorem readLeniently_write_narrationTree_iff (id title start : String) (texts : List (List Char))
    (idLabel : IsLabel id) (titleLabel : IsLabel title) (startLabel : IsLabel start)
    (narration : ∀ text ∈ texts, IsNarration text) :
    let tree := narrationTree id title start texts
    (readLeniently (write tree) = tree ↔ ∀ text ∈ texts, ReadsAsNarration text) ∧
      ((∀ text ∈ texts, ReadsAsNarration text) →
        (readLeniently (write tree)).startNode? = some (narrationNode start texts)) := by
  intro tree
  have filled : tree.nodeList ≠ [] := List.cons_ne_nil (narrationNode start texts) []
  have same : readLeniently (write tree) = tree ↔ ∀ text ∈ texts, ReadsAsNarration text := by
    rw [← scriptable_narrationTree_iff idLabel titleLabel startLabel narration,
      ← DialogueTree.survives_iff filled]
    exact ⟨fun same => ⟨same, agrees_self_narrationTree⟩, fun survives => survives.same⟩
  refine ⟨same, fun reads => ?_⟩
  rw [same.mpr reads]
  exact startNode?_narrationTree

/-- Lines of narration with a mark of a speaker, with a backslash and with the mark of a body. -/
def duskLines : List (List Char) :=
  ["Remember: the gate closes at dusk.".toList, "The road \\ forks -> north.".toList, "---".toList]

theorem readLeniently_write_dusk :
    (∀ text ∈ duskLines, IsNarration text ∧ ReadsAsNarration text) ∧
      readLeniently (write (narrationTree "dusk" "At dusk" "road" duskLines)) =
        narrationTree "dusk" "At dusk" "road" duskLines ∧
      (readLeniently (write (narrationTree "dusk" "At dusk" "road" duskLines))).startNode? =
        some (narrationNode "road" duskLines) := by
  have lines : ∀ text ∈ duskLines, IsNarration text ∧ ReadsAsNarration text := by decide
  have read := readLeniently_write_narrationTree_iff "dusk" "At dusk" "road" duskLines
    (by decide) (by decide) (by decide) fun text listed => (lines text listed).1
  have reads : ∀ text ∈ duskLines, ReadsAsNarration text := fun text listed =>
    (lines text listed).2
  exact ⟨lines, read.1.mpr reads, read.2 reads⟩

/-- Lines of narration of which the second one looks like a choice. -/
def forkLines : List (List Char) :=
  ["The road forks.".toList, "-> north leads home.".toList]

/-- Narration with a line that looks like a choice is lost: what is read back is a decision. -/
theorem narration_lost :
    IsLabel "road" ∧ IsLabel "On the road" ∧
      (forkLines.all fun text => IsNarration text) = true ∧
      readLeniently (write (narrationTree "road" "On the road" "road" forkLines)) =
        (DialogueTree.bare "road" "On the road" "road").withNode
          (.player "road" [{ id := "road_choice_1", text := "north leads home." }]) ∧
      readLeniently (write (narrationTree "road" "On the road" "road" forkLines)) ≠
        narrationTree "road" "On the road" "road" forkLines := by
  decide +kernel

end Script

end BranchingDialogue

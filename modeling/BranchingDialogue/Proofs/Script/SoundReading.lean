import BranchingDialogue.Graph.Lint
import BranchingDialogue.Proofs.Script.SoundDraft

/-! Each step of a body keeps its draft sound, and a sound draft becomes a sound node. When no block
of the node is out of place, its blocks are one group. -/

namespace BranchingDialogue.Script

open Text

/-! ## Drafts -/

/-- The kinds of the blocks of a draft, the open one last. -/
def Draft.kinds (draft : Draft) : List BlockKind :=
  draft.blocks.map Block.kind ++ (draft.openBlock.map OpenBlock.kind).toList

structure Draft.Sound (draft : Draft) : Prop where
  passage : draft.passage.Sound
  next : draft.next.Scriptable
  raises : ∀ flag ∈ draft.raises, ScriptableFlag flag
  choices : ∀ choice ∈ draft.choices, IsReadChoice choice
  numbered : draft.choices.map Choice.id =
    (List.range draft.choices.length).map (choiceId (String.ofList draft.id))
  blocks : ∀ block ∈ draft.blocks, IsReadBlock block
  openBlock : ∀ block ∈ draft.openBlock, block.Sound
  first : ∀ kind ∈ draft.kinds.head?, kind = .«if»

namespace Draft

theorem kinds_closeBlock (draft : Draft) : draft.closeBlock.kinds = draft.kinds := by
  obtain ⟨id, passage, next, raises, choices, blocks, openBlock⟩ := draft
  cases openBlock with
  | none => rfl
  | some block => simp [kinds, closeBlock, OpenBlock.close]

theorem kinds_openNext (draft : Draft) (kind : BlockKind) (conditions : List Condition) :
    (draft.openNext kind conditions).kinds = draft.kinds ++ [kind] := by
  have closed : draft.closeBlock.kinds = draft.closeBlock.blocks.map Block.kind := by
    simp [kinds]
  rw [← kinds_closeBlock draft, closed]
  rfl

private theorem kinds_ne_nil {draft : Draft} {block : OpenBlock}
    (opened : draft.openBlock = some block) : draft.kinds ≠ [] := by
  simp [kinds, opened]

end Draft

namespace Draft.Sound

variable {draft next : Draft} {line : List Char}

theorem empty (id : List Char) : Draft.Sound { id } :=
  ⟨.empty, by rintro _ ⟨⟩, by simp, by simp, rfl, by simp, by simp, by simp [Draft.kinds]⟩

theorem closeBlock (sound : draft.Sound) : draft.closeBlock.Sound := by
  have first := sound.first
  rw [← Draft.kinds_closeBlock] at first
  obtain ⟨id, passage, slot, raises, choices, blocks, openBlock⟩ := draft
  cases openBlock with
  | none => exact sound
  | some block =>
      have last := (sound.openBlock block rfl).close
      exact ⟨sound.passage, sound.next, sound.raises, sound.choices, sound.numbered,
        List.forall_mem_append.mpr ⟨sound.blocks, List.forall_mem_singleton.mpr last⟩,
        by rintro _ ⟨⟩, first⟩

theorem openNext (sound : draft.Sound) {kind : BlockKind} {conditions : List Condition}
    (readable : ∀ condition ∈ conditions, condition.Defined → condition.Scriptable)
    (always : kind = .«else» → conditions = []) (place : draft.kinds = [] → kind = .«if») :
    (draft.openNext kind conditions).Sound := by
  obtain ⟨passage, slot, raises, choices, numbered, blocks, -, -⟩ := sound.closeBlock
  refine ⟨passage, slot, raises, choices, numbered, blocks, ?_, ?_⟩
  · rintro _ ⟨⟩
    exact ⟨readable, .empty, by rintro _ ⟨⟩, always⟩
  · rw [Draft.kinds_openNext]
    intro found member
    cases kindsEq : draft.kinds with
    | nil =>
        rw [kindsEq] at member
        cases member
        exact place kindsEq
    | cons head others =>
        rw [kindsEq] at member
        cases member
        exact sound.first found (by rw [kindsEq]; rfl)

/-- A change to the open block that keeps it sound and of its kind keeps the draft sound. -/
theorem withBlock (sound : draft.Sound) {before after : OpenBlock}
    (opened : draft.openBlock = some before) (same : after.kind = before.kind)
    (afterSound : after.Sound) : Draft.Sound { draft with openBlock := some after } := by
  refine ⟨sound.passage, sound.next, sound.raises, sound.choices, sound.numbered, sound.blocks, ?_,
    ?_⟩
  · rintro _ ⟨⟩
    exact afterSound
  · have first := sound.first
    unfold Draft.kinds at first ⊢
    rw [opened] at first
    simpa [same] using first

/-- A change to the last choice that keeps choices sound keeps the draft sound. -/
theorem withLastChoice (sound : draft.Sound) {change : Choice → Choice}
    (keeps : ∀ choice, IsReadChoice choice → IsReadChoice (change choice))
    (same : ∀ choice, (change choice).id = choice.id) :
    Draft.Sound { draft with choices := changeLast change draft.choices } := by
  have ids := map_changeLast same draft.choices
  have length : (changeLast change draft.choices).length = draft.choices.length := by
    simpa using congrArg List.length ids
  refine ⟨sound.passage, sound.next, sound.raises, forall_changeLast sound.choices keeps, ?_,
    sound.blocks, sound.openBlock, sound.first⟩
  dsimp only
  rw [ids, length]
  exact sound.numbered

theorem step (sound : draft.Sound) (trimmed : Trimmed line) (oneLine : OneLine line)
    (apart : line ≠ sectionEnd) (made : draft.Step line next) : next.Sound := by
  cases made with
  | idle idle => exact sound
  | @choice rest shown conditions arrow split filled =>
      have restLine : OneLine (trim rest) := by
        intro feed
        apply oneLine
        rw [← List.append_eq_of_isPrefixOf?_eq_some arrow]
        exact List.mem_append_right _ (mem_of_mem_trim feed)
      obtain ⟨shownTrimmed, shownLine, openEnd, readable⟩ :=
        of_splitChoice split (trimmed_trim rest) restLine
      have isRead := isReadChoice_newChoice draft filled shownTrimmed shownLine openEnd readable
      refine ⟨sound.passage, sound.next, sound.raises, ?_, ?_, sound.blocks, sound.openBlock,
        sound.first⟩
      · exact List.forall_mem_append.mpr ⟨sound.choices, List.forall_mem_singleton.mpr isRead⟩
      · dsimp only
        rw [List.map_append, sound.numbered, List.length_append, List.length_singleton,
          List.range_succ, List.map_append]
        rfl
  | beginGroup keyword closed read =>
      exact sound.openNext (scriptable_of_readExpression read) (by rintro ⟨⟩) fun _ => rfl
  | continueGroup keyword opened unfinished read =>
      exact sound.openNext (scriptable_of_readExpression read) (by rintro ⟨⟩)
        fun none => absurd none (Draft.kinds_ne_nil opened)
  | endWithElse keyword opened unfinished =>
      exact sound.openNext (by simp) (fun _ => rfl)
        fun none => absurd none (Draft.kinds_ne_nil opened)
  | endGroup keyword => exact sound.closeBlock
  | @jumpFromBlock target block keyword filled shown opened =>
      have blockSound := sound.openBlock block opened
      exact sound.withBlock opened rfl ⟨blockSound.conditions, blockSound.passage,
        scriptable_jump filled shown, blockSound.always⟩
  | jumpFromChoice keyword filled shown closed chosen =>
      exact sound.withLastChoice
        (fun choice isRead => isRead.withNext (scriptable_jump filled shown)) fun _ => rfl
  | jump keyword filled shown closed noChoices =>
      exact ⟨sound.passage, scriptable_jump filled shown, sound.raises, sound.choices,
        sound.numbered, sound.blocks, sound.openBlock, sound.first⟩
  | @commandInBlock argument command block keyword read opened =>
      have blockSound := sound.openBlock block opened
      have passage := blockSound.passage.addCommand (ne_nil_of_keyword keyword) trimmed oneLine
        (isPrefixOf_of_keyword keyword).2
      exact sound.withBlock opened rfl ⟨blockSound.conditions, passage, blockSound.next,
        blockSound.always⟩
  | raiseInChoice keyword read raises closed chosen =>
      exact sound.withLastChoice
        (fun choice isRead => isRead.withFlag (isScriptable_of_readCommand read)) fun _ => rfl
  | raise keyword read raises closed noChoices =>
      have flag := isScriptable_of_readCommand read
      exact ⟨sound.passage, sound.next,
        List.forall_mem_append.mpr ⟨sound.raises, List.forall_mem_singleton.mpr flag⟩,
        sound.choices, sound.numbered, sound.blocks, sound.openBlock, sound.first⟩
  | command keyword read noRaise closed noChoices =>
      have passage := sound.passage.addCommand (ne_nil_of_keyword keyword) trimmed oneLine
        (isPrefixOf_of_keyword keyword).2
      exact ⟨passage, sound.next, sound.raises, sound.choices, sound.numbered, sound.blocks,
        sound.openBlock, sound.first⟩
  | @dialogueInBlock block spoken opened =>
      have blockSound := sound.openBlock block opened
      have passage := blockSound.passage.addDialogue spoken trimmed oneLine apart
      exact sound.withBlock opened rfl ⟨blockSound.conditions, passage, blockSound.next,
        blockSound.always⟩
  | dialogue spoken closed noChoices =>
      have passage := sound.passage.addDialogue spoken trimmed oneLine apart
      exact ⟨passage, sound.next, sound.raises, sound.choices, sound.numbered, sound.blocks,
        sound.openBlock, sound.first⟩

end Draft.Sound

/-! ## Nodes -/

/-- Whether the values of all conditions of a node are defined. -/
def DefinedValues (node : Node) : Prop :=
  ∀ condition ∈ node.conditions, condition.Defined

instance : DecidablePred DefinedValues := fun node =>
  inferInstanceAs (Decidable (∀ condition ∈ node.conditions, condition.Defined))

variable {draft : Draft}

private theorem listedIf_ite {α : Type} {property : α → Prop} {members : List α}
    (all : ∀ member ∈ members, property member) :
    ListedIf property (if members.isEmpty then none else some members) := by
  cases members with
  | nil => rintro _ ⟨⟩
  | cons first others =>
      rintro _ ⟨⟩
      exact ⟨by simp, all⟩

/-- A sound draft becomes a sound node, when the values of its conditions are defined. -/
theorem sound_kind (sound : draft.Sound) (label : IsLabel (String.ofList draft.id))
    {speaker : Option String} (labels : ∀ name ∈ speaker, IsLabel name)
    (lost : speaker = none → draft.passage.speaker = none)
    (defined : DefinedValues ⟨String.ofList draft.id, speaker, draft.kind⟩) :
    Node.Sound ⟨String.ofList draft.id, speaker, draft.kind⟩ := by
  have blockSound
      (allDefined : ∀ condition ∈ draft.blocks.flatMap Block.conditions, condition.Defined) :
      ∀ block ∈ draft.blocks, block.Sound := by
    intro block member
    apply (sound.blocks block member).sound
    intro condition inBlock
    exact allDefined condition (List.mem_flatMap.mpr ⟨block, member, inBlock⟩)
  rcases draft.kind_cases with ⟨chosen, kindEq⟩ | ⟨-, -, -, kindEq⟩ | ⟨-, kindEq, besides⟩
  · rw [kindEq] at defined ⊢
    refine ⟨label, labels, chosen, sound.numbered, fun choice member => ?_⟩
    apply sound.choices choice member
    intro condition inGate
    exact defined condition (List.mem_flatMap.mpr ⟨choice, member, inGate⟩)
  · rw [kindEq] at defined ⊢
    exact ⟨label, labels, blockSound defined⟩
  · rw [kindEq] at defined ⊢
    have blocksDefined : ∀ condition ∈ draft.blocks.flatMap Block.conditions,
        condition.Defined := by
      rw [← draft.blocks_speech (String.ofList draft.id) speaker]
      exact defined
    refine ⟨label, sound.passage.content lost, labels, sound.next, listedIf_ite sound.raises, ?_⟩
    intro blocks listed
    have blocksEq : blocks = draft.blocks ∧ draft.blocks ≠ [] := by
      unfold Draft.speech at listed
      dsimp only at listed
      split at listed
      · cases listed
      · rename_i filled
        cases listed
        exact ⟨rfl, by simpa using filled⟩
    obtain ⟨rfl, filled⟩ := blocksEq
    refine ⟨blockSound blocksDefined, ?_⟩
    rcases besides filled with hasLines | hasRaises | follows
    · refine Or.inl fun empty => hasLines ?_
      have noContent : draft.passage.content = "" := empty
      have content := sound.passage.lines_content
      rw [noContent] at content
      exact content.symm
    · exact Or.inr (Or.inl (by simpa [Draft.speech] using hasRaises))
    · exact Or.inr (Or.inr follows)

/-! ## Groups -/

private theorem continuesGroup_of_misplaced {blocks : List Block} {count offset : Nat}
    (filled : offset ≠ 0) (whole : blocks.length + offset = count)
    (always : ∀ block ∈ blocks, block.kind = .«else» → block.conditions = [])
    (placed : ∀ index block, blocks[index]? = some block →
      Node.misplaced count (index + offset) block.kind = false) :
    continuesGroup blocks = true := by
  induction blocks generalizing offset with
  | nil => rfl
  | cons block blocks inductionHypothesis =>
      obtain ⟨blockAlways, othersAlways⟩ := List.forall_mem_cons.mp always
      have here := placed 0 block rfl
      have others := @inductionHypothesis (offset + 1) (by simp) (by simp at whole; omega)
        othersAlways fun index other found => by
          have later := placed (index + 1) other found
          rwa [Nat.add_right_comm] at later
      unfold continuesGroup
      cases kind : block.kind with
      | «if» =>
          rw [kind] at here
          simp [Node.misplaced, filled] at here
      | elseIf => exact others
      | «else» =>
          rw [kind] at here
          have last : blocks = [] := by
            have index : offset + 1 = count := by simpa [Node.misplaced] using here
            rw [List.length_cons] at whole
            exact List.eq_nil_of_length_eq_zero (by omega)
          simp [blockAlways kind, last]

/-- Blocks of which the first is an `if` and none is out of place are one group. -/
theorem isGroup_of_misplaced {blocks : List Block} (filled : blocks ≠ [])
    (first : ∀ kind ∈ (blocks.map Block.kind).head?, kind = .«if»)
    (always : ∀ block ∈ blocks, block.kind = .«else» → block.conditions = [])
    (placed : ∀ index block, blocks[index]? = some block →
      Node.misplaced blocks.length index block.kind = false) : isGroup blocks = true := by
  cases blocks with
  | nil => exact absurd rfl filled
  | cons block blocks =>
      have begins : block.kind = .«if» := first _ rfl
      have goesOn : continuesGroup blocks = true :=
        continuesGroup_of_misplaced (by decide) rfl (List.forall_mem_cons.mp always).2
          fun index other found => placed (index + 1) other found
      simp [isGroup, begins, goesOn]

/-- The blocks of a node that a sound draft becomes are one group when none is out of place. -/
theorem isGroup_kind (sound : draft.Sound) (closed : draft.openBlock = none) {id : String}
    {speaker : Option String}
    (placed : ∀ index block, (Node.blocks ⟨id, speaker, draft.kind⟩)[index]? = some block →
      Node.misplaced (Node.blocks ⟨id, speaker, draft.kind⟩).length index block.kind = false) :
    ∀ blocks ∈ Node.blocks? ⟨id, speaker, draft.kind⟩, isGroup blocks = true := by
  have first := sound.first
  have always : ∀ block ∈ draft.blocks, block.kind = .«else» → block.conditions = [] :=
    fun block member => (sound.blocks block member).always
  unfold Draft.kinds at first
  rw [closed, Option.map_none, Option.toList_none, List.append_nil] at first
  intro blocks listed
  rcases draft.kind_cases with ⟨-, kindEq⟩ | ⟨-, filled, -, kindEq⟩ | ⟨-, kindEq, -⟩
  · rw [kindEq] at listed
    cases listed
  · rw [kindEq] at listed placed
    cases listed
    exact isGroup_of_misplaced filled first always placed
  · rw [kindEq] at listed placed
    rw [draft.blocks_speech] at placed
    unfold Node.blocks? Draft.speech at listed
    dsimp only at listed
    split at listed
    · cases listed
    · rename_i filled
      cases listed
      exact isGroup_of_misplaced (by simpa using filled) first always placed

end BranchingDialogue.Script

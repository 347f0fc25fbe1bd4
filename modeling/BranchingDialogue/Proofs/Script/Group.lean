import Mathlib.Data.List.Chain
import BranchingDialogue.Proofs.Script.Discard
import BranchingDialogue.Proofs.Script.Kept
import BranchingDialogue.Proofs.Script.SoundReading

/-! A body can begin one group of blocks after another. The blocks of all groups follow each other
in the draft: a group begins with an `if`, and after an `else` the next group begins. So the blocks
are in order as those of one group if the body begins at most one group, and only then. -/

namespace BranchingDialogue

/-! ## Kinds in order -/

/-- Whether a block of one kind can stand after one of another kind. After the last arm of a group,
the next group begins. -/
def BlockKind.MayFollow (before after : BlockKind) : Prop :=
  before = .«else» → after = .«if»

/-- Whether blocks of some kinds are in order as those of one group. -/
def InOrder (kinds : List BlockKind) : Prop :=
  ∀ index kind, kinds[index]? = some kind → Node.misplaced kinds.length index kind = false

/-- Blocks of groups one after another are in order if there is one group at most. The kinds begin
as they would after an `else`. -/
theorem inOrder_iff_count_le_one {kinds : List BlockKind}
    (chained : (.«else» :: kinds).IsChain BlockKind.MayFollow) :
    InOrder kinds ↔ kinds.count .«if» ≤ 1 := by
  cases kinds with
  | nil => exact iff_of_true (by simp [InOrder]) (by simp)
  | cons first rest =>
      obtain ⟨begins, follow⟩ := List.isChain_cons_cons.mp chained
      obtain rfl : first = .«if» := begins rfl
      have alone_iff : (BlockKind.«if» :: rest).count .«if» ≤ 1 ↔ .«if» ∉ rest := by
        rw [List.count_cons_self, Nat.add_le_add_iff_right, Nat.le_zero, List.count_eq_zero]
      rw [alone_iff]
      constructor
      · intro inOrder another
        obtain ⟨index, found⟩ := List.mem_iff_getElem?.mp another
        have placed := inOrder (index + 1) .«if» found
        simp [Node.misplaced] at placed
      · intro alone index kind found
        cases kind with
        | «if» =>
            cases index with
            | zero => rfl
            | succ index =>
                have inRest : rest[index]? = some .«if» := found
                exact absurd (List.mem_of_getElem? inRest) alone
        | elseIf => rfl
        | «else» =>
            obtain ⟨bound, here⟩ := List.getElem?_eq_some_iff.mp found
            -- What follows would begin another group.
            have last : ¬ index + 1 < (BlockKind.«if» :: rest).length := by
              intro more
              have next := List.isChain_iff_getElem.mp follow index more here
              have inside : index < rest.length := Nat.lt_of_succ_lt_succ more
              have inRest : rest[index] ∈ rest := List.getElem_mem inside
              rw [List.getElem_cons_succ] at next
              rw [next] at inRest
              exact alone inRest
            have whole : index + 1 = (BlockKind.«if» :: rest).length := by omega
            simp [Node.misplaced, whole]

/-! ## Conditions with values -/

/-- Whether a condition has the value that its operator needs. -/
def Condition.IsComplete (condition : Condition) : Prop :=
  condition.operator.comparesValue = true → condition.value.isSome = true

namespace Script

open Text

private theorem complete_of_readTerm {term : List Char} {condition : Condition}
    (read : readTerm term = some condition) : condition.IsComplete := by
  unfold readTerm at read
  dsimp only at read
  split at read
  · obtain ⟨flag, -, rfl⟩ := Option.map_eq_some_iff.mp read
    rintro ⟨⟩
  · split at read
    · cases read
      rintro ⟨⟩
    · simp only [Option.bind_eq_bind, Option.bind_eq_some_iff] at read
      obtain ⟨_, _, operator, _, value, _, equality⟩ := read
      cases equality
      exact fun _ => rfl

private theorem complete_of_readExpression {raw : List Char} {conditions : List Condition}
    (read : readExpression raw = some conditions) :
    ∀ condition ∈ conditions, condition.IsComplete := by
  intro condition listed
  obtain ⟨term, termRead⟩ := exists_term_of_readExpression read condition listed
  exact complete_of_readTerm termRead

private theorem complete_of_splitChoice {text shown : List Char} {conditions : List Condition}
    (split : Draft.splitChoice text = some (shown, conditions)) :
    ∀ condition ∈ conditions, condition.IsComplete := by
  unfold Draft.splitChoice at split
  split at split
  · cases split
    simp
  · obtain ⟨found, read, equality⟩ := Option.map_eq_some_iff.mp split
    cases equality
    obtain ⟨expression, -, expressionRead⟩ := Option.bind_eq_some_iff.mp read
    exact complete_of_readExpression expressionRead

/-! ## Regular drafts -/

/-- Whether the blocks of a draft are groups one after another, and all its conditions have the
values that they need. -/
structure Draft.Regular (draft : Draft) : Prop where
  order : (.«else» :: draft.kinds).IsChain BlockKind.MayFollow
  choices : ∀ choice ∈ draft.choices, ∀ condition ∈ choice.gate, condition.IsComplete
  blocks : ∀ block ∈ draft.blocks, ∀ condition ∈ block.conditions, condition.IsComplete
  openBlock : ∀ block ∈ draft.openBlock, ∀ condition ∈ block.conditions, condition.IsComplete

namespace Draft.Regular

variable {draft next : Draft} {line : List Char}

theorem empty (id : List Char) : Draft.Regular { id } :=
  ⟨.singleton _, by simp, by simp, by simp⟩

theorem closeBlock (regular : draft.Regular) : draft.closeBlock.Regular := by
  have order := regular.order
  rw [← Draft.kinds_closeBlock] at order
  obtain ⟨id, passage, slot, raises, choices, blocks, openBlock⟩ := draft
  cases openBlock with
  | none => exact regular
  | some block =>
      have last := regular.openBlock block rfl
      exact ⟨order, regular.choices,
        List.forall_mem_append.mpr ⟨regular.blocks, List.forall_mem_singleton.mpr last⟩,
        by rintro _ ⟨⟩⟩

private theorem getLast?_kinds {block : OpenBlock} (opened : draft.openBlock = some block) :
    draft.kinds.getLast? = some block.kind := by
  simp [Draft.kinds, opened]

theorem openNext (regular : draft.Regular) {kind : BlockKind} {conditions : List Condition}
    (complete : ∀ condition ∈ conditions, condition.IsComplete)
    (follows : ∀ before ∈ (.«else» :: draft.kinds).getLast?, before.MayFollow kind) :
    (draft.openNext kind conditions).Regular := by
  obtain ⟨_, choices, blocks, _⟩ := regular.closeBlock
  refine ⟨?_, choices, blocks, ?_⟩
  · rw [Draft.kinds_openNext, ← List.cons_append]
    refine regular.order.append (.singleton _) fun before last after isKind => ?_
    cases isKind
    exact follows before last
  · rintro _ ⟨⟩
    exact complete

/-- A group goes on while its last arm has not begun. -/
theorem goesOn {block : OpenBlock} (opened : draft.openBlock = some block)
    (unfinished : block.kind ≠ .«else») (kind : BlockKind) :
    ∀ before ∈ (.«else» :: draft.kinds).getLast?, before.MayFollow kind := by
  intro before last
  rw [List.getLast?_cons, getLast?_kinds opened] at last
  cases last
  exact fun isElse => absurd isElse unfinished

/-- A change to the open block that keeps its kind and its conditions keeps the draft regular. -/
theorem withBlock (regular : draft.Regular) {before after : OpenBlock}
    (opened : draft.openBlock = some before) (kind : after.kind = before.kind)
    (conditions : after.conditions = before.conditions) :
    Draft.Regular { draft with openBlock := some after } := by
  refine ⟨?_, regular.choices, regular.blocks, ?_⟩
  · have order := regular.order
    unfold Draft.kinds at order ⊢
    rw [opened] at order
    simpa [kind] using order
  · rintro _ ⟨⟩
    rw [conditions]
    exact regular.openBlock before opened

/-- A change to the last choice that keeps its conditions keeps the draft regular. -/
theorem withLastChoice (regular : draft.Regular) {change : Choice → Choice}
    (same : ∀ choice, (change choice).gate = choice.gate) :
    Draft.Regular { draft with choices := changeLast change draft.choices } := by
  refine ⟨regular.order, ?_, regular.blocks, regular.openBlock⟩
  refine forall_changeLast regular.choices fun choice complete => ?_
  rw [same]
  exact complete

theorem step (regular : draft.Regular) (made : draft.Step line next) : next.Regular := by
  cases made with
  | idle idle => exact regular
  | @choice rest shown conditions arrow split filled =>
      refine ⟨regular.order, ?_, regular.blocks, regular.openBlock⟩
      refine List.forall_mem_append.mpr ⟨regular.choices, List.forall_mem_singleton.mpr ?_⟩
      rw [gate_newChoice]
      exact complete_of_splitChoice split
  | beginGroup keyword closed read =>
      exact regular.openNext (complete_of_readExpression read) fun _ _ _ => rfl
  | continueGroup keyword opened unfinished read =>
      exact regular.openNext (complete_of_readExpression read) (goesOn opened unfinished _)
  | endWithElse keyword opened unfinished =>
      exact regular.openNext (by simp) (goesOn opened unfinished _)
  | endGroup keyword => exact regular.closeBlock
  | jumpFromBlock keyword filled shown opened => exact regular.withBlock opened rfl rfl
  | commandInBlock keyword read opened => exact regular.withBlock opened rfl rfl
  | dialogueInBlock spoken opened => exact regular.withBlock opened rfl rfl
  | jumpFromChoice | raiseInChoice => exact regular.withLastChoice fun _ => rfl
  | jump | raise | command | dialogue =>
      exact ⟨regular.order, regular.choices, regular.blocks, regular.openBlock⟩

end Draft.Regular

/-! ## Lines of groups -/

def beginsGroup (line : List Char) : Bool :=
  match keywordAndArgument line with
  | some (keyword, argument) => String.ofList keyword == "if" && (readExpression argument).isSome
  | none => false

def endsGroup (line : List Char) : Bool :=
  match keywordAndArgument line with
  | some (keyword, _) => String.ofList keyword == "endif"
  | none => false

/-- Whether a group is open after a line, when one is or is not open before it. -/
def openAfter (inside : Bool) (line : List Char) : Bool :=
  if inside then !endsGroup line else beginsGroup line

/-- How many groups some lines begin, when one is or is not open before them. -/
def groupCount : Bool → List (List Char) → Nat
  | _, [] => 0
  | inside, line :: rest =>
      (if !inside && beginsGroup line then 1 else 0) + groupCount (openAfter inside line) rest

def makesChoice (line : List Char) : Bool :=
  match (List.isPrefixOf? ['-', '>'] line).bind fun rest => Draft.splitChoice (trim rest) with
  | some (shown, _) => !shown.isEmpty
  | none => false

section Lines

variable {draft next : Draft} {line : List Char}

/-- The state of groups and choices after a line. -/
structure Draft.Passes (draft : Draft) (line : List Char) (next : Draft) : Prop where
  inside : next.openBlock.isSome = openAfter draft.openBlock.isSome line
  groups : next.kinds.count .«if» =
    draft.kinds.count .«if» + if !draft.openBlock.isSome && beginsGroup line then 1 else 0
  choices : next.choices = [] ↔ draft.choices = [] ∧ makesChoice line = false

theorem makesChoice_eq_false (noArrow : List.isPrefixOf ['-', '>'] line = false) :
    makesChoice line = false := by
  have noLead : List.isPrefixOf? ['-', '>'] line = none :=
    isPrefixOf?_eq_none_iff_isPrefixOf.mpr noArrow
  simp [makesChoice, noLead]

/-- A line without a part in groups and choices leaves them as they are. -/
theorem Draft.passes_of_same (noBegin : draft.openBlock = none → beginsGroup line = false)
    (noEnd : endsGroup line = false) (noChoice : makesChoice line = false)
    (openBlock : next.openBlock.isSome = draft.openBlock.isSome)
    (kinds : next.kinds.count .«if» = draft.kinds.count .«if»)
    (choices : next.choices = [] ↔ draft.choices = []) : draft.Passes line next := by
  cases inside : draft.openBlock with
  | none =>
      have notHere := noBegin inside
      refine ⟨?_, ?_, ?_⟩ <;> simp [openAfter, openBlock, kinds, choices, inside, notHere, noChoice]
  | some block =>
      refine ⟨?_, ?_, ?_⟩ <;> simp [openAfter, openBlock, kinds, choices, inside, noEnd, noChoice]

/-- A line that continues the open group begins and ends none. -/
theorem Draft.passes_openNext {block : OpenBlock} {kind : BlockKind} {conditions : List Condition}
    (opened : draft.openBlock = some block) (continues : kind ≠ .«if»)
    (noEnd : endsGroup line = false) (noChoice : makesChoice line = false) :
    draft.Passes line (draft.openNext kind conditions) := by
  refine ⟨?_, ?_, ?_⟩
  · simp [openAfter, opened, noEnd, openNext]
  · rw [kinds_openNext]
    simp [opened, continues]
  · simp [openNext, noChoice]

/-- A recognized line opens and closes groups and makes choices as its text says. -/
theorem Draft.passes_of_step (made : draft.Step line next) : draft.Passes line next := by
  have noMarkup (plain : List.isPrefixOf ['<', '<'] line = false) :
      beginsGroup line = false ∧ endsGroup line = false := by
    simp [beginsGroup, endsGroup, keyword_eq_none plain]
  have noChoice {parts : List Char × List Char} (found : keywordAndArgument line = some parts) :
      makesChoice line = false :=
    makesChoice_eq_false (isPrefixOf_of_keyword found).1
  cases made with
  | idle idle =>
      obtain ⟨noArrow, plain⟩ := isPrefixOf_of_idle idle
      obtain ⟨noBegin, noEnd⟩ := noMarkup plain
      exact passes_of_same (fun _ => noBegin) noEnd (makesChoice_eq_false noArrow) rfl rfl Iff.rfl
  | @choice rest shown conditions arrow split filled =>
      obtain ⟨noBegin, noEnd⟩ := noMarkup (isPrefixOf_of_arrow arrow).2
      have made : makesChoice line = true := by simp [makesChoice, arrow, split, filled]
      refine ⟨?_, ?_, ?_⟩
      · cases draft.openBlock <;> simp [openAfter, noBegin, noEnd]
      · simp [Draft.kinds, noBegin]
      · simp [made]
  | beginGroup keyword closed read =>
      have begins : beginsGroup line = true := by simp [beginsGroup, keyword, read]
      refine ⟨?_, ?_, ?_⟩
      · simp [openAfter, closed, begins, Draft.openNext]
      · rw [Draft.kinds_openNext]
        simp [closed, begins]
      · simp [Draft.openNext, noChoice keyword]
  | continueGroup keyword opened unfinished read =>
      exact passes_openNext opened (by simp) (by simp [endsGroup, keyword]) (noChoice keyword)
  | endWithElse keyword opened unfinished =>
      exact passes_openNext opened (by simp) (by simp [endsGroup, keyword]) (noChoice keyword)
  | endGroup keyword =>
      have ends : endsGroup line = true := by simp [endsGroup, keyword]
      have noBegin : beginsGroup line = false := by simp [beginsGroup, keyword]
      refine ⟨?_, ?_, ?_⟩
      · simp [openAfter, ends, noBegin]
      · simp [Draft.kinds_closeBlock, noBegin]
      · simp [noChoice keyword]
  | jumpFromBlock keyword filled shown opened | commandInBlock keyword read opened =>
      refine passes_of_same ?_ ?_ (noChoice keyword) ?_ ?_ Iff.rfl <;>
        simp [beginsGroup, endsGroup, keyword, opened, Draft.kinds]
  | jumpFromChoice keyword | raiseInChoice keyword =>
      refine passes_of_same ?_ ?_ (noChoice keyword) rfl rfl changeLast_eq_nil_iff <;>
        simp [beginsGroup, endsGroup, keyword]
  | jump keyword | raise keyword | command keyword =>
      refine passes_of_same ?_ ?_ (noChoice keyword) rfl rfl Iff.rfl <;>
        simp [beginsGroup, endsGroup, keyword]
  | dialogueInBlock spoken opened =>
      obtain ⟨-, noArrow, plain⟩ := isSpokenLine_iff.mp spoken
      obtain ⟨noBegin, noEnd⟩ := noMarkup plain
      have noChoice := makesChoice_eq_false noArrow
      refine passes_of_same (fun _ => noBegin) noEnd noChoice ?_ ?_ Iff.rfl <;>
        simp [opened, Draft.kinds]
  | dialogue spoken closed noChoices =>
      obtain ⟨-, noArrow, plain⟩ := isSpokenLine_iff.mp spoken
      obtain ⟨noBegin, noEnd⟩ := noMarkup plain
      exact passes_of_same (fun _ => noBegin) noEnd (makesChoice_eq_false noArrow) rfl rfl Iff.rfl

private theorem beginsGroup_iff :
    beginsGroup line = true ↔ ∃ argument conditions,
      keywordAndArgument line = some ("if".toList, argument) ∧
        readExpression argument = some conditions := by
  constructor
  · intro begins
    unfold beginsGroup at begins
    split at begins
    · rename_i keyword argument found
      obtain ⟨isIf, read⟩ : String.ofList keyword = "if" ∧ (readExpression argument).isSome := by
        simpa using begins
      obtain ⟨conditions, readEq⟩ := Option.isSome_iff_exists.mp read
      refine ⟨argument, conditions, ?_, readEq⟩
      rw [found, ← isIf, String.toList_ofList]
    · cases begins
  · rintro ⟨argument, conditions, keyword, read⟩
    simp [beginsGroup, keyword, read]

private theorem endsGroup_iff :
    endsGroup line = true ↔
      ∃ argument, keywordAndArgument line = some ("endif".toList, argument) := by
  constructor
  · intro ends
    unfold endsGroup at ends
    split at ends
    · rename_i keyword argument found
      have isEnd : String.ofList keyword = "endif" := by simpa using ends
      exact ⟨argument, by rw [found, ← isEnd, String.toList_ofList]⟩
    · cases ends
  · rintro ⟨argument, keyword⟩
    simp [endsGroup, keyword]

theorem Draft.addLine_keyword {keyword : String} {argument : List Char}
    (found : keywordAndArgument line = some (keyword.toList, argument)) :
    draft.addLine line = draft.follow line keyword argument := by
  rw [addLine_markup (isPrefixOf_of_keyword found).2, addMarkup_eq, found, Option.bind_some]
  dsimp only
  rw [String.ofList_toList]

/-- A line that makes a choice makes it in every draft. -/
theorem Draft.addLine_isSome_of_makesChoice (makes : makesChoice line = true) (draft : Draft) :
    (draft.addLine line).isSome = true := by
  unfold makesChoice at makes
  split at makes
  · rename_i shown conditions found
    obtain ⟨rest, arrow, split⟩ := Option.bind_eq_some_iff.mp found
    have filled : shown.isEmpty = false := by simpa using makes
    simp [addLine, isIdle_of_arrow arrow, arrow, addChoice, split, filled]
  · cases makes

theorem Draft.makesChoice_of_unrecognized (unread : draft.addLine line = none) :
    makesChoice line = false := by
  rw [Bool.eq_false_iff]
  intro makes
  have recognized := addLine_isSome_of_makesChoice makes draft
  rw [unread] at recognized
  cases recognized

/-- A line that is not recognized has no part in groups and choices. -/
theorem Draft.passes_of_unrecognized (unread : draft.addLine line = none) :
    draft.Passes line draft := by
  refine passes_of_same (fun closed => ?_) ?_ (makesChoice_of_unrecognized unread) rfl rfl Iff.rfl
  · rw [Bool.eq_false_iff, ne_eq, beginsGroup_iff]
    rintro ⟨argument, conditions, keyword, read⟩
    rw [addLine_keyword keyword] at unread
    simp [follow, beginGroup, closed, read] at unread
  · rw [Bool.eq_false_iff, ne_eq, endsGroup_iff]
    rintro ⟨argument, keyword⟩
    rw [addLine_keyword keyword] at unread
    simp [follow] at unread

/-- A line opens and closes groups and makes choices as its text says, recognized or not. -/
theorem Draft.passes (draft : Draft) (line : List Char) :
    draft.Passes line ((draft.addLine line).getD draft) := by
  cases added : draft.addLine line with
  | some next => exact passes_of_step (step_of_addLine added)
  | none => exact passes_of_unrecognized added

end Lines

/-! ## Groups of bodies -/

/-- The groups of a body are begun by its lines. -/
theorem Draft.count_if_passOver (draft : Draft) (body : List NumberedLine) :
    (draft.passOver body).kinds.count .«if» =
      draft.kinds.count .«if» +
        groupCount draft.openBlock.isSome (body.map NumberedLine.text) := by
  induction body generalizing draft with
  | nil => rfl
  | cons line body inductionHypothesis =>
      have passes := draft.passes line.text
      unfold passOver at inductionHypothesis ⊢
      rw [List.foldl_cons, inductionHypothesis, passes.groups, passes.inside, List.map_cons,
        groupCount, Nat.add_assoc]

/-- The choices of a body are made by its lines. -/
theorem Draft.choices_passOver_eq_nil_iff (draft : Draft) (body : List NumberedLine) :
    (draft.passOver body).choices = [] ↔
      draft.choices = [] ∧ ∀ line ∈ body, makesChoice line.text = false := by
  induction body generalizing draft with
  | nil => simp [passOver]
  | cons line body inductionHypothesis =>
      unfold passOver at inductionHypothesis ⊢
      rw [List.foldl_cons, inductionHypothesis, (draft.passes line.text).choices, and_assoc,
        List.forall_mem_cons]

theorem Draft.regular_passOver {draft : Draft} (regular : draft.Regular)
    (body : List NumberedLine) : (draft.passOver body).Regular :=
  @readBody_induction .lenient Draft.Regular draft (draft.passOver body) body regular
    (fun _ _ _ _ made before => before.step made) (readBody_eq_settle draft body)

end Script

end BranchingDialogue

import BranchingDialogue.Proofs.Script.Decision

/-! The lenient reading passes over a choice line without text and one whose condition is malformed.
The jumps and the raises after it are not passed over with it. They are attached to the choice
before, which keeps its own target and its own raises only when there is nothing to attach. -/

namespace BranchingDialogue.Script

open Text

/-! ## Parts of a text -/

/-- Whether a choice line is passed over, as it has no text or its condition is malformed. -/
def isSkippedChoice (line : List Char) : Bool :=
  List.isPrefixOf ['-', '>'] line && !makesChoice line

/-- Whether a line belongs to the choice line before it. -/
def belongsToChoice (line : List Char) : Bool :=
  match keywordAndArgument line with
  | some (keyword, _) => String.ofList keyword == "set" || String.ofList keyword == "jump"
  | none => false

section Parts

variable {first : List (List Char)} {line : List Char}

/-- Without a choice among the first lines, both parts attach to the choice before. -/
theorem attachmentFrom_append (noChoice : ∀ line ∈ first, makesChoice line = false)
    (inside : Bool) (second : List (List Char)) :
    attachmentFrom inside (first ++ second) =
      (attachmentFrom inside first).followedBy
        (attachmentFrom (first.foldl openAfter inside) second) := by
  induction first generalizing inside with
  | nil => simp [attachmentFrom]
  | cons line first inductionHypothesis =>
      obtain ⟨here, others⟩ := List.forall_mem_cons.mp noChoice
      rw [List.cons_append, attachmentFrom, attachmentFrom, if_neg (by simp [here]),
        if_neg (by simp [here]), inductionHypothesis others, List.foldl_cons,
        Attachment.followedBy_assoc]

private theorem choicesFrom_append (noChoice : ∀ line ∈ first, makesChoice line = false)
    (node : String) (index : Nat) (inside : Bool) (second : List (List Char)) :
    choicesFrom node index inside (first ++ second) =
      choicesFrom node index (first.foldl openAfter inside) second := by
  induction first generalizing inside with
  | nil => rfl
  | cons line first inductionHypothesis =>
      obtain ⟨here, others⟩ := List.forall_mem_cons.mp noChoice
      rw [List.cons_append, choicesFrom, arrowChoice?_eq_none_iff.mpr here]
      exact inductionHypothesis others (openAfter inside line)

private theorem openAfter_of_noMarkup (plain : List.isPrefixOf ['<', '<'] line = false)
    (inside : Bool) : openAfter inside line = inside := by
  cases inside <;> simp [openAfter, beginsGroup, endsGroup, keyword_eq_none plain]

private theorem makesChoice_of_skipped (skipped : isSkippedChoice line = true) :
    makesChoice line = false := by
  simp_all [isSkippedChoice]

private theorem noMarkup_of_skipped (skipped : isSkippedChoice line = true) :
    List.isPrefixOf ['<', '<'] line = false := by
  have isArrow : List.isPrefixOf ['-', '>'] line = true := ((Bool.and_eq_true _ _).mp skipped).1
  obtain ⟨rest, rfl⟩ := List.isPrefixOf_iff_prefix.mp isArrow
  rfl

private theorem openAfter_of_belongsToChoice (belongs : belongsToChoice line = true)
    (inside : Bool) : openAfter inside line = inside := by
  unfold belongsToChoice at belongs
  split at belongs
  · rename_i keyword argument found
    have word : String.ofList keyword = "set" ∨ String.ofList keyword = "jump" := by
      simpa using belongs
    have noBegin : beginsGroup line = false := by
      rcases word with isSet | isJump <;> simp [beginsGroup, *]
    have noEnd : endsGroup line = false := by
      rcases word with isSet | isJump <;> simp [endsGroup, *]
    cases inside <;> simp [openAfter, noBegin, noEnd]
  · cases belongs

private theorem ofLineIn_of_not_belongsToChoice (other : belongsToChoice line = false)
    (inside : Bool) : Attachment.ofLineIn inside line = {} := by
  cases inside with
  | true => rfl
  | false =>
      rcases Attachment.ofLine_cases line with nothing | jumps | raises
      · exact nothing
      · obtain ⟨target, keyword, -⟩ := jumps
        simp [belongsToChoice, keyword] at other
      · obtain ⟨argument, command, keyword, -⟩ := raises
        simp [belongsToChoice, keyword] at other

/-- Lines without those that belong to a choice line attach nothing. -/
theorem attachmentFrom_eq_empty {lines : List (List Char)}
    (others : ∀ line ∈ lines, belongsToChoice line = false) (inside : Bool) :
    attachmentFrom inside lines = {} := by
  induction lines generalizing inside with
  | nil => rfl
  | cons line lines inductionHypothesis =>
      obtain ⟨here, rest⟩ := List.forall_mem_cons.mp others
      rw [attachmentFrom, ofLineIn_of_not_belongsToChoice here, inductionHypothesis rest,
        Attachment.empty_followedBy, ite_self]

/-- Lines that belong to a choice line begin and end no blocks. -/
theorem foldl_openAfter_filter (lines : List (List Char)) (inside : Bool) :
    (lines.filter fun line => !belongsToChoice line).foldl openAfter inside =
      lines.foldl openAfter inside := by
  induction lines generalizing inside with
  | nil => rfl
  | cons line lines inductionHypothesis =>
      cases belongs : belongsToChoice line with
      | true =>
          rw [List.filter_cons_of_neg (by simp [belongs]), List.foldl_cons,
            openAfter_of_belongsToChoice belongs]
          exact inductionHypothesis inside
      | false =>
          rw [List.filter_cons_of_pos (by simp [belongs]), List.foldl_cons, List.foldl_cons]
          exact inductionHypothesis (openAfter inside line)

end Parts

/-! ## Choices of the last draft -/

private theorem Draft.isSome_openBlock_passOver (draft : Draft) (body : List NumberedLine) :
    (draft.passOver body).openBlock.isSome =
      (body.map NumberedLine.text).foldl openAfter draft.openBlock.isSome := by
  induction body generalizing draft with
  | nil => rfl
  | cons line body inductionHypothesis =>
      unfold passOver at inductionHypothesis ⊢
      rw [List.foldl_cons, inductionHypothesis, (draft.passes line.text).inside, List.map_cons,
        List.foldl_cons]

private theorem Draft.choices?_finish_eq_iff {draft other : Draft} (speaker : Option (List Char)) :
    (draft.finish speaker).choices? = (other.finish speaker).choices? ↔
      draft.choices = other.choices := by
  rw [choices?_finish, choices?_finish]
  cases draft.choices <;> cases other.choices <;> simp

private theorem Draft.map_choices?_finish {α : Type} {view : Choice → α} {draft other : Draft}
    (speaker : Option (List Char)) (same : draft.choices.map view = other.choices.map view) :
    (draft.finish speaker).choices?.map (List.map view) =
      (other.finish speaker).choices?.map (List.map view) := by
  rw [choices?_finish, choices?_finish]
  cases found : draft.choices <;> cases others : other.choices <;> simp_all

private theorem choices_passOver_of_append (title : List Char) {body : List NumberedLine}
    {front back : List (List Char)} (texts : body.map NumberedLine.text = front ++ back) :
    (Draft.passOver { id := title } body).choices =
      changeLast (attachmentFrom (front.foldl openAfter false) back).attach
          (choicesFrom (String.ofList title) 0 false front) ++
        choicesFrom (String.ofList title) (choicesFrom (String.ofList title) 0 false front).length
          (front.foldl openAfter false) back := by
  obtain ⟨first, second, rfl, firstTexts, secondTexts⟩ := List.map_eq_append_iff.mp texts
  have opened : (Draft.passOver { id := title } first).openBlock.isSome =
      front.foldl openAfter false := by
    rw [Draft.isSome_openBlock_passOver, firstTexts]
    rfl
  have choices : (Draft.passOver { id := title } first).choices =
      choicesFrom (String.ofList title) 0 false front := by
    rw [Draft.choices_passOver, firstTexts]
    rfl
  have division : Draft.passOver { id := title } (first ++ second) =
      (Draft.passOver { id := title } first).passOver second := List.foldl_append
  rw [division, Draft.choices_passOver, opened, choices, secondTexts, id_passOver]

private theorem changeLast_eq_changeLast_iff {α : Type} {change other : α → α} {list : List α} :
    changeLast change list = changeLast other list ↔
      ∀ last ∈ list.getLast?, change last = other last := by
  rcases List.eq_nil_or_concat' list with rfl | ⟨before, last, rfl⟩
  · simp [changeLast]
  · simp [changeLast_append_singleton]

/-! ## Groups that are passed over -/

/-- Whether nothing is attached to the last choice of the lines `before` when the choice line of a
group is passed over. No line of the group raises a flag, and the target of the last choice is the
one that it has without the group. -/
def AttachesNothing (node : String) (before group after : List (List Char)) : Prop :=
  let inside := before.foldl openAfter false
  let given := attachmentFrom inside group
  let later := attachmentFrom (group.foldl openAfter inside) after
  ∀ last ∈ (choicesFrom node 0 false before).getLast?,
    given.raises = [] ∧ (later.next <|> given.next <|> last.next) = (later.next <|> last.next)

section Skipped

variable {arrow : List Char} {group : List (List Char)}

/-- What a group attaches when its choice line is passed over, and what lines after it attach. -/
theorem attachmentFrom_skipped (skipped : isSkippedChoice arrow = true)
    (noChoice : ∀ line ∈ group, makesChoice line = false) (inside : Bool)
    (after : List (List Char)) :
    attachmentFrom inside (arrow :: group ++ after) =
      (attachmentFrom inside group).followedBy
        (attachmentFrom (group.foldl openAfter inside) after) := by
  have plain := noMarkup_of_skipped skipped
  have nothing : Attachment.ofLineIn inside arrow = {} := by
    simp [Attachment.ofLineIn, Attachment.ofLine_of_noMarkup plain]
  rw [List.cons_append, attachmentFrom, if_neg (by simp [makesChoice_of_skipped skipped]), nothing,
    openAfter_of_noMarkup plain, Attachment.empty_followedBy, attachmentFrom_append noChoice]

private theorem choicesFrom_skipped (skipped : isSkippedChoice arrow = true)
    (noChoice : ∀ line ∈ group, makesChoice line = false) (node : String) (index : Nat)
    (inside : Bool) (after : List (List Char)) :
    choicesFrom node index inside (arrow :: group ++ after) =
      choicesFrom node index (group.foldl openAfter inside) after := by
  have none := arrowChoice?_eq_none_iff.mpr (makesChoice_of_skipped skipped)
  rw [List.cons_append, choicesFrom, none]
  dsimp only
  rw [openAfter_of_noMarkup (noMarkup_of_skipped skipped), choicesFrom_append noChoice]

/-- What is left of a group attaches nothing, and the lines after it attach the same as before. -/
theorem attachmentFrom_rest (noChoice : ∀ line ∈ group, makesChoice line = false) (inside : Bool)
    (after : List (List Char)) :
    attachmentFrom inside ((group.filter fun line => !belongsToChoice line) ++ after) =
      attachmentFrom (group.foldl openAfter inside) after := by
  have noneLeft : ∀ line ∈ group.filter fun line => !belongsToChoice line,
      belongsToChoice line = false := by
    simp
  have restNoChoice : ∀ line ∈ group.filter fun line => !belongsToChoice line,
      makesChoice line = false := fun line listed => noChoice line (List.mem_of_mem_filter listed)
  rw [attachmentFrom_append restNoChoice, attachmentFrom_eq_empty noneLeft,
    Attachment.empty_followedBy, foldl_openAfter_filter]

private theorem choicesFrom_rest (noChoice : ∀ line ∈ group, makesChoice line = false)
    (node : String) (index : Nat) (inside : Bool) (after : List (List Char)) :
    choicesFrom node index inside ((group.filter fun line => !belongsToChoice line) ++ after) =
      choicesFrom node index (group.foldl openAfter inside) after := by
  have restNoChoice : ∀ line ∈ group.filter fun line => !belongsToChoice line,
      makesChoice line = false := fun line listed => noChoice line (List.mem_of_mem_filter listed)
  rw [choicesFrom_append restNoChoice, foldl_openAfter_filter]

end Skipped

/-- The lenient reading of a body in which a choice line is passed over makes the same choices as
that of the body without the line and the jumps and the set commands after it, with the same texts
and conditions. They have the same targets and raises exactly when nothing is attached to the choice
before. -/
theorem choices_without_skipped_iff (title : List Char) (speaker : Option (List Char))
    (before group after : List (List Char)) (arrow : List Char)
    (skipped : isSkippedChoice arrow = true)
    (noArrow : ∀ line ∈ group, List.isPrefixOf ['-', '>'] line = false)
    (body shortened : List NumberedLine)
    (texts : body.map NumberedLine.text = before ++ (arrow :: group ++ after))
    (shortenedTexts : shortened.map NumberedLine.text =
      before ++ ((group.filter fun line => !belongsToChoice line) ++ after)) :
    ∃ draft other, readBody .lenient { id := title } body = .ok draft ∧
      readBody .lenient { id := title } shortened = .ok other ∧
      (draft.finish speaker).choices?.map (List.map bareChoice) =
        (other.finish speaker).choices?.map (List.map bareChoice) ∧
      ((draft.finish speaker).choices? = (other.finish speaker).choices? ↔
        AttachesNothing (String.ofList title) before group after) := by
  have noChoice : ∀ line ∈ group, makesChoice line = false := fun line listed =>
    makesChoice_eq_false (noArrow line listed)
  have whole := choices_passOver_of_append title texts
  rw [attachmentFrom_skipped skipped noChoice, choicesFrom_skipped skipped noChoice] at whole
  have without := choices_passOver_of_append title shortenedTexts
  rw [attachmentFrom_rest noChoice, choicesFrom_rest noChoice] at without
  refine ⟨Draft.passOver { id := title } body, Draft.passOver { id := title } shortened, ?_, ?_,
    ?_, ?_⟩
  · rw [readBody_eq_settle, settle_lenient]
  · rw [readBody_eq_settle, settle_lenient]
  · refine Draft.map_choices?_finish speaker ?_
    have keeps (attachment : Attachment) (choice : Choice) :
        bareChoice (attachment.attach choice) = bareChoice choice := rfl
    rw [whole, without, List.map_append, List.map_append, map_changeLast (keeps _),
      map_changeLast (keeps _)]
  · rw [Draft.choices?_finish_eq_iff, whole, without, List.append_left_inj,
      changeLast_eq_changeLast_iff]
    exact forall₂_congr fun last _ => Attachment.attach_followedBy_eq_iff

instance (node : String) (before group after : List (List Char)) :
    Decidable (AttachesNothing node before group after) :=
  inferInstanceAs (Decidable (∀ last ∈ (choicesFrom node 0 false before).getLast?, _ ∧ _))

/-- A body with a malformed condition, whose jump does not count because of the last one. -/
def tollBody : List NumberedLine :=
  numberedLines "-> Pay.\n-> Leave. <<if gold>>\n<<jump inn>>\n->\n<<jump gate>>".toList

/-- The body without the choice that has the malformed condition. -/
def tollBodyWithout : List NumberedLine :=
  numberedLines "-> Pay.\n->\n<<jump gate>>".toList

theorem choices_without_skipped_toll :
    isSkippedChoice "-> Leave. <<if gold>>".toList = true ∧
      ∃ draft other, readBody .lenient { id := "toll".toList } tollBody = .ok draft ∧
        readBody .lenient { id := "toll".toList } tollBodyWithout = .ok other ∧
        (draft.finish none).choices? = (other.finish none).choices? := by
  have skipped : isSkippedChoice "-> Leave. <<if gold>>".toList = true := by decide +kernel
  obtain ⟨draft, other, read, readOther, -, same⟩ :=
    choices_without_skipped_iff "toll".toList none ["-> Pay.".toList] ["<<jump inn>>".toList]
      ["->".toList, "<<jump gate>>".toList] "-> Leave. <<if gold>>".toList skipped
      (by decide +kernel) tollBody tollBodyWithout (by decide +kernel) (by decide +kernel)
  exact ⟨skipped, draft, other, read, readOther, same.mpr (by decide +kernel)⟩

/-- A script with a choice line that has no text. -/
def innScript : List Char :=
  "title: toll\n---\n-> Pay.\n<<jump gate>>\n->\n<<jump inn>>\n===\n".toList

/-- The script without that line and the jump after it. -/
def innScriptWithout : List Char :=
  "title: toll\n---\n-> Pay.\n<<jump gate>>\n===\n".toList

/-- The jump after a choice line without text changes the target of the choice before it. -/
theorem target_lost_to_skipped :
    isSkippedChoice "->".toList = true ∧
      (readLeniently innScript).nodeList =
        [.player "toll" [{ id := "toll_choice_1", text := "Pay.", next := some "inn" }]] ∧
      (readLeniently innScriptWithout).nodeList =
        [.player "toll" [{ id := "toll_choice_1", text := "Pay.", next := some "gate" }]] := by
  decide +kernel

end BranchingDialogue.Script

import BranchingDialogue.Proofs.Script.Reading

/-! The lenient reading passes over lines that are not recognized, over sections without title or
body, and over sections whose title is taken. These discards are listed here in the order in which
they are met. Both readings of a script come from this list and from the nodes that are left: the
strict one stops at its first member, and without members the two are the same. -/

namespace BranchingDialogue.Script

open Text

/-! ## Discards -/

/-- A part of a script that the lenient reading passes over. -/
inductive Discard
  /-- A line of a body that is not recognized. -/
  | unrecognized (title : List Char) (line : NumberedLine)
  /-- A section that lacks a title or a body and does not consist of comments. -/
  | malformed (part : Section) (missing : MissingPart)
  /-- A section whose title is taken by one before it. -/
  | repeated (title : List Char) (part : Section)
  deriving DecidableEq

/-- What the strict reading says when it stops at a discard. -/
def Discard.error : Discard → ScriptError
  | .unrecognized title line =>
      .unrecognizedLine (String.ofList title) line.number (String.ofList line.text)
  | .malformed part missing => .malformedBlock part.firstLine missing
  | .repeated title part => .duplicateNode (String.ofList title) part.firstLine

/-- The lines of a body that are not recognized when it is read from a draft on. -/
def unrecognizedLines (draft : Draft) : List NumberedLine → List NumberedLine
  | [] => []
  | line :: rest =>
      match draft.addLine line.text with
      | some next => unrecognizedLines next rest
      | none => line :: unrecognizedLines draft rest

/-- The title of a section that has a title and a body. -/
def Section.title? (part : Section) : Option (List Char) :=
  match readHeading {} part.lines with
  | (⟨some title, _⟩, some _) => some title
  | _ => none

/-- What is discarded of a section by itself: lines of its body, or the whole of it. -/
def Section.ownDiscards (part : Section) : List Discard :=
  match readHeading {} part.lines with
  | (⟨some title, _⟩, some body) =>
      (unrecognizedLines { id := title } body).map (.unrecognized title)
  | (_, body) =>
      if part.lines.all fun line => isIdle line.text then
        []
      else
        [.malformed part (if body.isNone then .separator else .title)]

/-- What is discarded of a section after sections that took some titles. -/
def Section.discards (taken : List (List Char)) (part : Section) : List Discard :=
  part.ownDiscards ++
    (part.title?.filter fun title => title ∈ taken).toList.map fun title => .repeated title part

/-- What is discarded of sections after others that took some titles. -/
def discardsFrom (taken : List (List Char)) : List Section → List Discard
  | [] => []
  | part :: rest => part.discards taken ++ discardsFrom (part.title?.toList ++ taken) rest

/-- What the lenient reading of a script discards, in order. -/
def discards (script : List Char) : List Discard :=
  discardsFrom [] (sectionsFrom 1 (numberedLines script))

/-! ## Outcomes -/

/-- The outcome of a reading that meets discards and has a value without them. -/
def Mode.settle {α : Type} (mode : Mode) (met : List Discard) (value : α) :
    Except ScriptError α :=
  match mode, met with
  | .strict, first :: _ => .error first.error
  | _, _ => .ok value

section Outcomes

variable {α β : Type} {mode : Mode}

@[simp]
theorem settle_nil (value : α) : mode.settle [] value = .ok value := by
  cases mode <;> rfl

@[simp]
theorem settle_lenient (met : List Discard) (value : α) :
    Mode.lenient.settle met value = .ok value := rfl

private theorem orStop_error (discard : Discard) (value : α) :
    mode.orStop discard.error value = mode.settle [discard] value := by
  cases mode <;> rfl

theorem map_settle (change : α → β) (met : List Discard) (value : α) :
    (mode.settle met value).map change = mode.settle met (change value) := by
  cases mode with
  | lenient => rfl
  | strict => cases met <;> rfl

/-- What is met first stays first when a reading goes on. -/
theorem settle_bind {next : α → Except ScriptError β} {met later : List Discard} {value : α}
    {result : β} (rest : next value = mode.settle later result) :
    (mode.settle met value >>= next) = mode.settle (met ++ later) result := by
  cases mode with
  | lenient => exact rest
  | strict =>
      cases met with
      | nil => exact rest
      | cons first others => rfl

end Outcomes

/-! ## Bodies -/

/-- The draft of a body without the lines that are not recognized. -/
def Draft.passOver (draft : Draft) (body : List NumberedLine) : Draft :=
  body.foldl (fun reached line => (reached.addLine line.text).getD reached) draft

variable {mode : Mode}

theorem readBody_eq_settle (draft : Draft) (body : List NumberedLine) :
    readBody mode draft body =
      mode.settle ((unrecognizedLines draft body).map (.unrecognized draft.id))
        (draft.passOver body) := by
  induction body generalizing draft with
  | nil => exact (settle_nil draft).symm
  | cons line body inductionHypothesis =>
      unfold readBody at inductionHypothesis ⊢
      rw [List.foldlM_cons]
      unfold readLine unrecognizedLines Draft.passOver
      rw [List.foldl_cons]
      cases added : draft.addLine line.text with
      | some next =>
          have sameId : next.id = draft.id := id_of_step (Draft.step_of_addLine added)
          rw [← sameId]
          exact inductionHypothesis next
      | none =>
          have stopped := @orStop_error _ mode (.unrecognized draft.id line) draft
          simp only [Discard.error] at stopped
          rw [stopped]
          exact settle_bind (inductionHypothesis draft)

private theorem mem_of_mem_unrecognizedLines {draft : Draft} {body : List NumberedLine}
    {line : NumberedLine} (member : line ∈ unrecognizedLines draft body) : line ∈ body := by
  induction body generalizing draft with
  | nil => cases member
  | cons first body inductionHypothesis =>
      unfold unrecognizedLines at member
      split at member
      · exact List.mem_cons_of_mem _ (inductionHypothesis member)
      · rcases List.mem_cons.mp member with here | inRest
        · exact here ▸ List.mem_cons_self
        · exact List.mem_cons_of_mem _ (inductionHypothesis inRest)

/-! ## Sections -/

/-- The node of a section without the lines that are not recognized. -/
def Section.node? (part : Section) : Option Node :=
  match readHeading {} part.lines with
  | (⟨some title, speaker⟩, some body) =>
      some ((Draft.passOver { id := title } body).finish speaker)
  | _ => none

/-- The nodes with that of a section if its title is free. -/
def keepSection (nodes : List Node) (part : Section) : List Node :=
  match part.node? with
  | none => nodes
  | some node => if nodes.any fun other => other.id = node.id then nodes else nodes ++ [node]

theorem id_passOver (draft : Draft) (body : List NumberedLine) :
    (draft.passOver body).id = draft.id :=
  @id_of_readBody .lenient draft (draft.passOver body) body (readBody_eq_settle draft body)

theorem id_node? (part : Section) :
    part.node?.map Node.id = part.title?.map String.ofList := by
  unfold Section.node? Section.title?
  rcases readHeading {} part.lines with ⟨⟨_ | title, speaker⟩, _ | body⟩
  case some.some =>
    exact congrArg (fun id => some (String.ofList id)) (id_passOver { id := title } body)
  all_goals rfl

theorem node?_cases (part : Section) :
    (part.node? = none ∧ part.title? = none) ∨
      ∃ node title, part.node? = some node ∧ part.title? = some title ∧
        String.ofList title = node.id := by
  have idEq := id_node? part
  cases found : part.node? with
  | none =>
      rw [found] at idEq
      exact Or.inl ⟨rfl, Option.map_eq_none_iff.mp idEq.symm⟩
  | some node =>
      rw [found] at idEq
      obtain ⟨title, titled, named⟩ := Option.map_eq_some_iff.mp idEq.symm
      exact Or.inr ⟨node, title, rfl, titled, named⟩

/-- Whether nodes have the titles that were taken. -/
def Holds (nodes : List Node) (taken : List (List Char)) : Prop :=
  ∀ title, String.ofList title ∈ nodes.map Node.id ↔ title ∈ taken

theorem Holds.any_iff {nodes : List Node} {taken : List (List Char)} (holds : Holds nodes taken)
    {node : Node} {title : List Char} (named : String.ofList title = node.id) :
    (nodes.any fun other => other.id = node.id) = true ↔ title ∈ taken := by
  rw [← holds title, named]
  simp

theorem Holds.keepSection {nodes : List Node} {taken : List (List Char)}
    (holds : Holds nodes taken) (part : Section) :
    Holds (keepSection nodes part) (part.title?.toList ++ taken) := by
  unfold Script.keepSection
  rcases node?_cases part with ⟨absent, untitled⟩ | ⟨node, title, found, titled, named⟩
  · rw [absent, untitled]
    exact holds
  · intro other
    rw [found, titled, Option.toList_some, List.singleton_append, List.mem_cons]
    dsimp only
    split
    · rename_i isPresent
      rw [holds other]
      refine ⟨Or.inr, fun member => member.elim (fun same => ?_) id⟩
      exact same ▸ (holds.any_iff named).mp isPresent
    · rw [List.map_append, List.mem_append, holds other, List.map_singleton, List.mem_singleton,
        ← named, String.ofList_inj, or_comm]

theorem readSection_eq_settle (part : Section) :
    readSection mode part = mode.settle part.ownDiscards part.node? := by
  unfold readSection Section.ownDiscards Section.node?
  rcases readHeading {} part.lines with ⟨⟨_ | title, speaker⟩, _ | body⟩
  case some.some =>
    dsimp only
    rw [readBody_eq_settle, map_settle]
  all_goals
    dsimp only
    split
    · exact (settle_nil none).symm
    · exact orStop_error (.malformed part _) none

private theorem addSection_eq_settle {nodes : List Node} {taken : List (List Char)}
    (holds : Holds nodes taken) (part : Section) :
    addSection mode nodes part = mode.settle (part.discards taken) (keepSection nodes part) := by
  unfold addSection Section.discards keepSection
  rw [readSection_eq_settle]
  -- The own discards come first, and leave the question whether the title is taken.
  refine settle_bind ?_
  rcases node?_cases part with ⟨absent, untitled⟩ | ⟨node, title, found, titled, named⟩
  · rw [absent, untitled]
    exact (settle_nil nodes).symm
  · have present := holds.any_iff named
    rw [found, titled]
    dsimp only
    by_cases isTaken : title ∈ taken
    · have repeats : (some title).filter (fun title => decide (title ∈ taken)) = some title := by
        simp [isTaken]
      rw [repeats, if_pos (present.mpr isTaken), if_pos (present.mpr isTaken), ← named]
      exact orStop_error (.repeated title part) nodes
    · have fresh : (some title).filter (fun title => decide (title ∈ taken)) = none := by
        simp [isTaken]
      rw [fresh, if_neg (present.not.mpr isTaken), if_neg (present.not.mpr isTaken)]
      exact (settle_nil (nodes ++ [node])).symm

theorem readNodes_eq_settle (parts : List Section) :
    readNodes mode parts = mode.settle (discardsFrom [] parts) (parts.foldl keepSection []) := by
  -- The induction is for nodes kept so far, whose ids are the titles taken so far.
  have run {nodes : List Node} {taken : List (List Char)} (holds : Holds nodes taken) :
      parts.foldlM (addSection mode) nodes =
        mode.settle (discardsFrom taken parts) (parts.foldl keepSection nodes) := by
    induction parts generalizing nodes taken with
    | nil => exact (settle_nil nodes).symm
    | cons part parts inductionHypothesis =>
        rw [List.foldlM_cons, addSection_eq_settle holds]
        exact settle_bind (inductionHypothesis (holds.keepSection part))
  exact run fun title => by simp

/-- Both readings of a script come from what is discarded and from the nodes that are left. -/
theorem read_eq_settle (mode : Mode) (script : List Char) :
    read mode script = mode.settle (discards script)
      ((Preamble.ofLines (numberedLines script)).tree
        ((sectionsFrom 1 (numberedLines script)).foldl keepSection [])) := by
  unfold read
  dsimp only
  rw [readNodes_eq_settle, map_settle]
  rfl

/-! ## Places -/

/-- Whether a numbered line is the line of a script at its number, without blanks at its ends. -/
def NumberedLine.IsLineOf (line : NumberedLine) (script : List Char) : Prop :=
  ∃ index raw, line.number = index + 1 ∧ (lines script)[index]? = some raw ∧ line.text = trim raw

/-- Whether a section begins with the line of a script that it is said to begin with. -/
def Section.BeginsIn (part : Section) (script : List Char) : Prop :=
  ∃ line rest, part.lines = line :: rest ∧ line.number = part.firstLine ∧ line.IsLineOf script

/-- Whether a discard stands in a script where its error says. -/
def Discard.StandsIn (script : List Char) : Discard → Prop
  | .unrecognized _ line => line.IsLineOf script
  | .malformed part _ => part.BeginsIn script
  | .repeated _ part => part.BeginsIn script

variable {script : List Char}

private theorem isLineOf_of_mem {line : NumberedLine} (member : line ∈ numberedLines script) :
    line.IsLineOf script := by
  unfold numberedLines at member
  obtain ⟨index, bound, equality⟩ := List.mem_mapIdx.mp member
  subst equality
  exact ⟨index, _, rfl, List.getElem?_eq_getElem bound, rfl⟩

private theorem numbers_numberedLines (script : List Char) :
    (numberedLines script).map NumberedLine.number =
      List.range' 1 (numberedLines script).length := by
  apply List.ext_getElem
  · simp
  · intro index _ _
    simp [numberedLines, Nat.add_comm]

/-- The first section begins with the first of the lines, and each later one with the line that it
is said to begin with. -/
structure BeginWell (firstLine number : Nat) (parts : List Section) : Prop where
  head : ∀ part ∈ parts.head?, part.firstLine = firstLine ∧
    ∀ line ∈ part.lines.head?, line.number = number
  tail : ∀ part ∈ parts.tail, ∀ line ∈ part.lines.head?, line.number = part.firstLine

private theorem beginWell_sectionsFrom (firstLine number : Nat) (all : List NumberedLine)
    (numbered : all.map NumberedLine.number = List.range' number all.length) :
    BeginWell firstLine number (sectionsFrom firstLine all) := by
  induction all generalizing firstLine number with
  | nil => exact ⟨by simp [sectionsFrom], by simp [sectionsFrom]⟩
  | cons line rest inductionHypothesis =>
      rw [List.map_cons, List.length_cons, List.range'_succ, List.cons.injEq] at numbered
      obtain ⟨here, restNumbered⟩ := numbered
      unfold sectionsFrom
      split
      · obtain ⟨head, tail⟩ := inductionHypothesis (line.number + 1) (number + 1) restNumbered
        refine ⟨by simp, ?_⟩
        rw [List.tail_cons]
        intro part member first isFirst
        cases parts : sectionsFrom (line.number + 1) rest with
        | nil =>
            rw [parts] at member
            cases member
        | cons found others =>
            rw [parts] at member head tail
            rcases List.mem_cons.mp member with rfl | inOthers
            · obtain ⟨begins, numberEq⟩ := head part rfl
              rw [begins, numberEq first isFirst, here]
            · exact tail part inOthers first isFirst
      · obtain ⟨head, tail⟩ := inductionHypothesis firstLine (number + 1) restNumbered
        split
        · split
          · exact ⟨by simp, by simp⟩
          · exact ⟨by simp [here], by simp⟩
        · rename_i found others parts
          rw [parts] at tail
          exact ⟨by simp [here], tail⟩

private theorem beginsIn_of_mem {part : Section}
    (listed : part ∈ sectionsFrom 1 (numberedLines script))
    (filled : part.lines ≠ []) : part.BeginsIn script := by
  obtain ⟨line, rest, linesEq⟩ := List.exists_cons_of_ne_nil filled
  have member : line ∈ part.lines := by simp [linesEq]
  have first : line ∈ part.lines.head? := by simp [linesEq]
  refine ⟨line, rest, linesEq, ?_, isLineOf_of_mem (mem_of_mem_sectionsFrom listed member).1⟩
  obtain ⟨head, tail⟩ := beginWell_sectionsFrom 1 1 _ (numbers_numberedLines script)
  cases parts : sectionsFrom 1 (numberedLines script) with
  | nil =>
      rw [parts] at listed
      cases listed
  | cons found others =>
      rw [parts] at listed head tail
      rcases List.mem_cons.mp listed with rfl | inOthers
      · obtain ⟨begins, numberEq⟩ := head part rfl
        rw [begins, numberEq line first]
      · exact tail part inOthers line first

private theorem lines_ne_nil_of_title? {part : Section} {title : List Char}
    (titled : part.title? = some title) : part.lines ≠ [] := by
  intro empty
  unfold Section.title? at titled
  rw [empty] at titled
  cases titled

private theorem standsIn_of_mem_section {part : Section}
    (listed : part ∈ sectionsFrom 1 (numberedLines script)) {taken : List (List Char)}
    {discard : Discard} (member : discard ∈ part.discards taken) : discard.StandsIn script := by
  rcases List.mem_append.mp member with own | repeats
  · unfold Section.ownDiscards at own
    split at own
    · rename_i title speaker body heading
      obtain ⟨line, lost, rfl⟩ := List.mem_map.mp own
      have inPart := mem_of_mem_body heading (mem_of_mem_unrecognizedLines lost)
      exact isLineOf_of_mem (mem_of_mem_sectionsFrom listed inPart).1
    · split at own
      · cases own
      · rename_i notIdle
        obtain rfl := List.mem_singleton.mp own
        refine beginsIn_of_mem listed fun empty => ?_
        rw [empty] at notIdle
        exact notIdle rfl
  · obtain ⟨title, found, rfl⟩ := List.mem_map.mp repeats
    obtain ⟨titled, -⟩ := Option.filter_eq_some_iff.mp (Option.mem_toList.mp found)
    exact beginsIn_of_mem listed (lines_ne_nil_of_title? titled)

private theorem standsIn_of_mem {discard : Discard} (member : discard ∈ discards script) :
    discard.StandsIn script := by
  have run {parts : List Section} (inScript : ∀ part ∈ parts,
      part ∈ sectionsFrom 1 (numberedLines script)) {taken : List (List Char)}
      (found : discard ∈ discardsFrom taken parts) : discard.StandsIn script := by
    induction parts generalizing taken with
    | nil => cases found
    | cons part parts inductionHypothesis =>
        obtain ⟨here, others⟩ := List.forall_mem_cons.mp inScript
        rcases List.mem_append.mp found with inPart | inRest
        · exact standsIn_of_mem_section here inPart
        · exact inductionHypothesis others inRest
  exact run (fun _ listed => listed) member

/-! ## Both readings -/

theorem read_lenient (script : List Char) : read .lenient script = .ok (readLeniently script) := by
  unfold readLeniently
  rw [read_eq_settle, settle_lenient]

/-- The lenient reading always succeeds. The strict reading gives the same tree when nothing is
discarded, and stops otherwise at what is discarded first, whose place it names. -/
theorem read_eq_of_discards (script : List Char) :
    read .lenient script = .ok (readLeniently script) ∧
      read .strict script =
        (match discards script with
          | [] => .ok (readLeniently script)
          | first :: _ => .error first.error) ∧
      ∀ discard ∈ discards script, discard.StandsIn script := by
  have lenient : read .lenient script = .ok (readLeniently script) := by
    unfold readLeniently
    rw [read_eq_settle, settle_lenient]
  refine ⟨lenient, ?_, fun discard => standsIn_of_mem⟩
  rw [read_eq_settle, settle_lenient, Except.ok.injEq] at lenient
  rw [read_eq_settle, lenient]
  cases discards script <;> rfl

end BranchingDialogue.Script

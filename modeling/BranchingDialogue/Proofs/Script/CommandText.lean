import BranchingDialogue.Proofs.Script.FlagName
import BranchingDialogue.Proofs.Text.Cut
import BranchingDialogue.Script.Command

/-! A set command is found in a text exactly where the text of one stands. Its right-hand side
closes the double quotes that it opens and has no closing bracket outside quotes; blanks stand
around its parts. The rules are told apart from the search, which takes the longest name and the
nearest closing brackets. -/

namespace BranchingDialogue.Script

open Text

/-! ## Right-hand sides -/

/-- The texts that can be right-hand sides: every double quote in them is closed, and no closing
bracket stands outside quotes. The truth value tells whether the text begins inside quotes. -/
inductive SideText : Bool → List Char → Prop
  | empty : SideText false []
  | escaped {character rest} (notFeed : character ≠ '\n') (closed : SideText true rest) :
      SideText true ('\\' :: character :: rest)
  | quoted {character rest} (plain : character ≠ '\\') (closed : SideText (character != '"') rest) :
      SideText true (character :: rest)
  | unquoted {character rest} (noBracket : character ≠ '>')
      (closed : SideText (character == '"') rest) : SideText false (character :: rest)

theorem sideText_of_plain {side : List Char}
    (plain : ∀ character ∈ side, character ≠ '>' ∧ character ≠ '"') : SideText false side := by
  induction side with
  | nil => exact .empty
  | cons character side inductionHypothesis =>
      obtain ⟨⟨noBracket, noQuote⟩, inRest⟩ := List.forall_mem_cons.mp plain
      refine .unquoted noBracket ?_
      rw [beq_eq_false_iff_ne.mpr noQuote]
      exact inductionHypothesis inRest

/-- A character outside the syntax of right-hand sides can be put at the end of one. -/
theorem sideText_append_plain_iff {character : Char} (noBracket : character ≠ '>')
    (noQuote : character ≠ '"') {quoted : Bool} {text : List Char} :
    SideText quoted (text ++ [character]) ↔ SideText quoted text := by
  have alone : SideText false [character] := sideText_of_plain (by simp [noBracket, noQuote])
  constructor
  · intro side
    generalize equality : text ++ [character] = whole at side
    induction side generalizing text with
    | empty => cases (List.append_eq_nil_iff.mp equality).2
    | @escaped hidden rest notFeed closed inductionHypothesis =>
        match text, equality with
        | [], equality => cases equality
        | [first], equality =>
            cases equality
            cases closed
        | first :: second :: text, equality =>
            cases equality
            exact .escaped notFeed (inductionHypothesis rfl)
    | @quoted head rest plain closed inductionHypothesis =>
        cases text with
        | nil =>
            cases equality
            rw [bne_iff_ne.mpr noQuote] at closed
            cases closed
        | cons first text =>
            cases equality
            exact .quoted plain (inductionHypothesis rfl)
    | @unquoted head rest bracket closed inductionHypothesis =>
        cases text with
        | nil => exact .empty
        | cons first text =>
            cases equality
            exact .unquoted bracket (inductionHypothesis rfl)
  · intro side
    induction side with
    | empty => exact alone
    | escaped notFeed _ inductionHypothesis => exact .escaped notFeed inductionHypothesis
    | quoted plain _ inductionHypothesis => exact .quoted plain inductionHypothesis
    | unquoted bracket _ inductionHypothesis => exact .unquoted bracket inductionHypothesis

theorem sideText_blank_cons_iff {blank : Char} (here : isBlank blank = true) {quoted : Bool}
    {rest : List Char} : SideText quoted (blank :: rest) ↔ SideText quoted rest := by
  have noQuote : blank ≠ '"' := ne_of_blank here rfl
  constructor
  · intro side
    cases side with
    | escaped _ _ => cases here
    | quoted _ closed => rwa [bne_iff_ne.mpr noQuote] at closed
    | unquoted _ closed => rwa [beq_eq_false_iff_ne.mpr noQuote] at closed
  · intro closed
    cases quoted with
    | true => exact .quoted (ne_of_blank here rfl) (by rwa [bne_iff_ne.mpr noQuote])
    | false => exact .unquoted (ne_of_blank here rfl) (by rwa [beq_eq_false_iff_ne.mpr noQuote])

theorem sideText_blank_append_iff {blanks : List Char} (allBlank : AllBlank blanks)
    {rest : List Char} : SideText false (blanks ++ rest) ↔ SideText false rest := by
  induction blanks with
  | nil => rfl
  | cons blank blanks inductionHypothesis =>
      obtain ⟨here, inRest⟩ := List.forall_mem_cons.mp allBlank
      rw [List.cons_append, sideText_blank_cons_iff here, inductionHypothesis inRest]

theorem sideText_append_blank_iff {blanks : List Char} (allBlank : AllBlank blanks)
    {rest : List Char} : SideText false (rest ++ blanks) ↔ SideText false rest := by
  induction blanks generalizing rest with
  | nil => rw [List.append_nil]
  | cons blank blanks inductionHypothesis =>
      obtain ⟨here, inRest⟩ := List.forall_mem_cons.mp allBlank
      rw [← List.singleton_append, ← List.append_assoc, inductionHypothesis inRest,
        sideText_append_plain_iff (ne_of_blank here rfl) (ne_of_blank here rfl)]

/-! ## Reading right-hand sides -/

private theorem rightHandSide_backslash {character : Char} (notFeed : character ≠ '\n')
    (rest : List Char) :
    rightHandSide true ('\\' :: character :: rest) =
      (rightHandSide true rest).map fun (side, after) => ('\\' :: character :: side, after) := by
  rw [rightHandSide.eq_def]
  simp [notFeed]

private theorem rightHandSide_quoted {character : Char} (plain : character ≠ '\\')
    (rest : List Char) :
    rightHandSide true (character :: rest) =
      (rightHandSide (character != '"') rest).map fun (side, after) => (character :: side, after) := by
  rw [rightHandSide.eq_def]
  simp [plain]

private theorem rightHandSide_closed {text after : List Char}
    (closing : afterClosing text = some after) : rightHandSide false text = some ([], after) := by
  cases text with
  | nil => cases closing
  | cons character rest =>
      rw [rightHandSide.eq_def]
      simp [closing]

private theorem rightHandSide_open {character : Char} {rest : List Char}
    (noClosing : afterClosing (character :: rest) = none) (noBracket : character ≠ '>') :
    rightHandSide false (character :: rest) =
      (rightHandSide (character == '"') rest).map fun (side, after) => (character :: side, after) := by
  rw [rightHandSide.eq_def]
  simp [noClosing, noBracket]

/-- Whether a text does not end in a blank. -/
def EndsShown (text : List Char) : Prop :=
  ∀ character, text.getLast? = some character → isBlank character = false

theorem EndsShown.of_cons {character : Char} {rest : List Char}
    (shown : EndsShown (character :: rest)) : EndsShown rest := by
  intro last found
  refine shown last ?_
  rw [List.getLast?_cons, found]
  rfl

theorem EndsShown.cons {character : Char} {rest : List Char} (shown : EndsShown rest)
    (alone : rest = [] → isBlank character = false) : EndsShown (character :: rest) := by
  intro last found
  cases rest with
  | nil =>
      obtain rfl : character = last := by simpa using found
      exact alone rfl
  | cons second others =>
      rw [List.getLast?_cons_cons] at found
      exact shown last found

private theorem afterClosing_append {blanks : List Char}
    (allBlank : ∀ character ∈ blanks, isBlank character = true) (after : List Char) :
    afterClosing (blanks ++ '>' :: '>' :: after) = some after := by
  have start : trimStart ('>' :: '>' :: after) = '>' :: '>' :: after :=
    trimStart_eq_self (by rintro _ ⟨⟩; rfl)
  unfold afterClosing
  rw [trimStart_append_of_blank allBlank, start]
  rfl

private theorem exists_of_afterClosing {text after : List Char}
    (found : afterClosing text = some after) :
    ∃ blanks, AllBlank blanks ∧
      text = blanks ++ '>' :: '>' :: after := by
  obtain ⟨blanks, split, allBlank⟩ := exists_eq_append_trimStart text
  rw [← List.append_eq_of_isPrefixOf?_eq_some found] at split
  exact ⟨blanks, allBlank, split⟩

/-- A right-hand side is not closed before its end. -/
theorem SideText.afterClosing_eq_none {text : List Char} (side : SideText false text)
    (filled : text ≠ []) (shown : EndsShown text) (after : List Char) :
    afterClosing (text ++ after) = none := by
  obtain ⟨blanks, split, allBlank⟩ := exists_eq_append_trimStart text
  have notBlank : trimStart text ≠ [] := by
    intro empty
    rw [empty, List.append_nil] at split
    have blank := allBlank (text.getLast filled) (by rw [← split]; exact List.getLast_mem filled)
    exact ne_of_blank blank (shown _ (List.getLast?_eq_some_getLast filled)) rfl
  obtain ⟨first, rest, start⟩ := List.exists_cons_of_ne_nil notBlank
  have firstShown : isBlank first = false := head?_trimStart text (by rw [start]; rfl)
  rw [start] at split
  have noBracket : first ≠ '>' := by
    rw [split] at side
    cases (sideText_blank_append_iff allBlank).mp side with
    | unquoted noBracket _ => exact noBracket
  have whole : trimStart (text ++ after) = first :: (rest ++ after) := by
    rw [split, List.append_assoc, trimStart_append_of_blank allBlank, List.cons_append]
    exact trimStart_eq_self (by rintro _ ⟨⟩; exact firstShown)
  unfold afterClosing
  rw [whole]
  simp [List.isPrefixOf?, noBracket.symm]

/-- A right-hand side is read up to the brackets that close it. -/
theorem SideText.rightHandSide_append {quoted : Bool} {side blanks : List Char}
    (text : SideText quoted side) (shown : EndsShown side)
    (allBlank : ∀ character ∈ blanks, isBlank character = true) (after : List Char) :
    rightHandSide quoted (side ++ (blanks ++ '>' :: '>' :: after)) = some (side, after) := by
  induction text with
  | empty => exact rightHandSide_closed (afterClosing_append allBlank after)
  | escaped notFeed _ inductionHypothesis =>
      have read := inductionHypothesis shown.of_cons.of_cons
      rw [List.cons_append, List.cons_append, rightHandSide_backslash notFeed, read]
      rfl
  | quoted plain _ inductionHypothesis =>
      rw [List.cons_append, rightHandSide_quoted plain, inductionHypothesis shown.of_cons]
      rfl
  | unquoted noBracket closed inductionHypothesis =>
      have noClosing := (SideText.unquoted noBracket closed).afterClosing_eq_none
        (List.cons_ne_nil _ _) shown (blanks ++ '>' :: '>' :: after)
      rw [List.cons_append] at noClosing ⊢
      rw [rightHandSide_open noClosing noBracket, inductionHypothesis shown.of_cons]
      rfl

/-- What is read as a right-hand side ends right before the blanks and the brackets that close
it. -/
theorem sideText_of_rightHandSide {quoted : Bool} {text side after : List Char}
    (found : rightHandSide quoted text = some (side, after)) :
    SideText quoted side ∧ EndsShown side ∧
      ∃ blanks, AllBlank blanks ∧
        text = side ++ (blanks ++ '>' :: '>' :: after) := by
  induction quoted, text using rightHandSide.induct generalizing side with
  | case1 | case2 | case6 => cases found
  | case3 rest =>
      rw [rightHandSide.eq_def] at found
      cases found
  | case4 character rest notFeed inductionHypothesis =>
      rw [rightHandSide_backslash notFeed] at found
      obtain ⟨⟨side, _⟩, read, equality⟩ := Option.map_eq_some_iff.mp found
      cases equality
      obtain ⟨closed, shown, blanks, allBlank, rfl⟩ := inductionHypothesis read
      have filled : side ≠ [] := by
        rintro rfl
        cases closed
      refine ⟨.escaped notFeed closed, ?_, blanks, allBlank, rfl⟩
      exact (shown.cons fun empty => absurd empty filled).cons fun empty => nomatch empty
  | case5 character rest notAlone notEscape inductionHypothesis =>
      have plain : character ≠ '\\' := by
        intro same
        cases rest with
        | nil => exact notAlone same rfl
        | cons second others => exact notEscape second others same rfl
      rw [rightHandSide_quoted plain] at found
      obtain ⟨⟨side, _⟩, read, equality⟩ := Option.map_eq_some_iff.mp found
      cases equality
      obtain ⟨closed, shown, blanks, allBlank, rfl⟩ := inductionHypothesis read
      refine ⟨.quoted plain closed, shown.cons fun empty => ?_, blanks, allBlank, rfl⟩
      -- Only the closing quote can be the last character of a text that begins inside quotes.
      rw [empty] at closed
      cases unquoted : character != '"' with
      | false =>
          obtain rfl : character = '"' := by simpa using unquoted
          rfl
      | true =>
          rw [unquoted] at closed
          cases closed
  | case7 character rest after' closing =>
      rw [rightHandSide_closed closing] at found
      cases found
      obtain ⟨blanks, allBlank, split⟩ := exists_of_afterClosing closing
      exact ⟨.empty, by rintro _ ⟨⟩, blanks, allBlank, split⟩
  | case8 rest noClosing =>
      rw [rightHandSide.eq_def] at found
      simp [noClosing] at found
  | case9 character rest noClosing noBracket inductionHypothesis =>
      rw [rightHandSide_open noClosing noBracket] at found
      obtain ⟨⟨side, _⟩, read, equality⟩ := Option.map_eq_some_iff.mp found
      cases equality
      obtain ⟨closed, shown, blanks, allBlank, rfl⟩ := inductionHypothesis read
      refine ⟨.unquoted noBracket closed, shown.cons fun empty => ?_, blanks, allBlank, rfl⟩
      -- A blank in front of the brackets would have been left out with the others.
      by_contra blank
      rw [Bool.not_eq_false] at blank
      have early := @afterClosing_append (character :: blanks)
        (List.forall_mem_cons.mpr ⟨blank, allBlank⟩) after
      rw [empty, List.nil_append, ← List.cons_append, early] at noClosing
      cases noClosing

/-- A right-hand side is read exactly when brackets close it, without the blanks before them. -/
theorem rightHandSide_eq_some_iff {quoted : Bool} {text side after : List Char} :
    rightHandSide quoted text = some (side, after) ↔
      SideText quoted side ∧ EndsShown side ∧
        ∃ blanks, AllBlank blanks ∧
          text = side ++ (blanks ++ '>' :: '>' :: after) := by
  constructor
  · exact sideText_of_rightHandSide
  · rintro ⟨closed, shown, blanks, allBlank, rfl⟩
    exact closed.rightHandSide_append shown allBlank after


/-! ## Assignments -/

/-- What stands for the assignment between the name of a flag and the right-hand side. -/
inductive Assigns (name gap rest : List Char) : List Char → Prop
  | sign : Assigns name gap rest ['=']
  | word (apart : StandsApart name gap rest) : Assigns name gap rest ['t', 'o']

theorem Assigns.head_shown {name gap rest mark : List Char} (assigns : Assigns name gap rest mark)
    {after : List Char} :
    ∀ character, (mark ++ after).head? = some character → isBlank character = false := by
  cases assigns <;> rintro _ ⟨⟩ <;> rfl

private theorem afterAssignment_eq_some_iff {name text rest : List Char} :
    afterAssignment name text = some rest ↔
      ∃ gap mark, AllBlank gap ∧ Assigns name gap rest mark ∧ text = gap ++ (mark ++ rest) := by
  constructor
  · intro found
    obtain ⟨gap, split, gapBlank⟩ := exists_eq_append_trimStart text
    unfold afterAssignment at found
    dsimp only at found
    split at found
    · rename_i start
      cases found
      rw [start] at split
      exact ⟨gap, ['='], gapBlank, .sign, split⟩
    · rename_i start
      split at found
      · rename_i apart
        cases found
        rw [start] at split apart
        rw [split, Bool.and_eq_true, apart_iff] at apart
        exact ⟨gap, ['t', 'o'], gapBlank, .word ⟨apart.1, apart.2⟩, split⟩
      · cases found
    · cases found
  · rintro ⟨gap, mark, gapBlank, assigns, rfl⟩
    have start : trimStart (gap ++ (mark ++ rest)) = mark ++ rest :=
      trimStart_append_of_head? gapBlank assigns.head_shown
    unfold afterAssignment
    rw [start]
    cases assigns with
    | sign => rfl
    | word apart =>
        have stands := Bool.and_eq_true _ _ ▸ And.intro
          (@apart_iff name gap ('t' :: 'o' :: rest) |>.mpr apart.before) apart.after
        exact if_pos stands

theorem afterOpening_eq_some_iff {text body : List Char} :
    afterOpening text = some body ↔
      ∃ blanks spaces, AllBlank blanks ∧ AllBlank spaces ∧ spaces ≠ [] ∧
        text = ['<', '<'] ++ (blanks ++ ("set".toList ++ (spaces ++ '$' :: body))) := by
  constructor
  · intro found
    simp only [afterOpening, Option.bind_eq_bind, Option.bind_eq_some_iff] at found
    obtain ⟨inside, opened, rest, word, flag⟩ := found
    rw [List.isPrefixOf?_eq_some_iff_append_eq] at opened word
    obtain ⟨blanks, insideEq, blanksBlank⟩ := exists_eq_append_trimStart inside
    obtain ⟨spaces, restEq, spacesBlank⟩ := exists_eq_append_trimStart rest
    split at flag
    · rename_i shorter
      rw [List.isPrefixOf?_eq_some_iff_append_eq] at flag
      have spaced : spaces ≠ [] := by
        rintro rfl
        rw [← List.nil_append (trimStart rest), ← restEq] at shorter
        exact absurd shorter (lt_irrefl _)
      rw [← flag] at restEq
      rw [← word, restEq] at insideEq
      rw [insideEq] at opened
      exact ⟨blanks, spaces, blanksBlank, spacesBlank, spaced, opened.symm⟩
    · cases flag
  · rintro ⟨blanks, spaces, blanksBlank, spacesBlank, spaced, rfl⟩
    have inside : trimStart (blanks ++ ("set".toList ++ (spaces ++ '$' :: body))) =
        "set".toList ++ (spaces ++ '$' :: body) :=
      trimStart_append_of_head? blanksBlank (by rintro _ ⟨⟩; rfl)
    have dollar : trimStart (spaces ++ '$' :: body) = '$' :: body :=
      trimStart_append_of_head? spacesBlank (by rintro _ ⟨⟩; rfl)
    have shorter : ('$' :: body).length < (spaces ++ '$' :: body).length := by
      rw [List.length_append]
      exact Nat.lt_add_of_pos_left (List.length_pos_of_ne_nil spaced)
    simp only [afterOpening, isPrefixOf?_append_self, Option.bind_eq_bind, Option.bind_some, inside,
      dollar, if_pos shorter]
    rfl

private theorem Assigns.append_iff {name gap rest mark : List Char} (filled : rest ≠ [])
    (after : List Char) : Assigns name gap (rest ++ after) mark ↔ Assigns name gap rest mark := by
  constructor
  · rintro (_ | ⟨before, outside⟩)
    · exact .sign
    · rw [startsOutsideWord_append filled] at outside
      exact .word ⟨before, outside⟩
  · rintro (_ | ⟨before, outside⟩)
    · exact .sign
    · exact .word ⟨before, by rwa [startsOutsideWord_append filled]⟩

/-- The texts that end a set command behind the name of its flag. -/
inductive AssignmentText (name side : List Char) : List Char → Prop
  | intro {gap mark space closing : List Char} (gapBlank : AllBlank gap)
      (assigns : Assigns name gap (space ++ (side ++ (closing ++ ['>', '>']))) mark)
      (spaceBlank : AllBlank space) (closed : SideText false side) (trimmed : Trimmed side)
      (closingBlank : AllBlank closing) :
      AssignmentText name side (gap ++ (mark ++ (space ++ (side ++ (closing ++ ['>', '>'])))))

/-- The texts of set commands with a flag and a right-hand side. -/
inductive CommandText (name side : List Char) : List Char → Prop
  | intro {blanks spaces assignment : List Char} (blanksBlank : AllBlank blanks)
      (spacesBlank : AllBlank spaces) (spaced : spaces ≠ []) (isName : isFlagName name = true)
      (assigned : AssignmentText name side assignment) :
      CommandText name side
        (['<', '<'] ++ (blanks ++ ("set".toList ++ (spaces ++ '$' :: (name ++ assignment)))))

theorem CommandText.isFlagName {name side command : List Char}
    (isText : CommandText name side command) : Script.isFlagName name = true := by
  cases isText with
  | intro _ _ _ isName _ => exact isName

theorem CommandText.closed {name side command : List Char}
    (isText : CommandText name side command) : SideText false side := by
  obtain ⟨-, -, -, -, ⟨-, -, -, closed, -, -⟩⟩ := isText
  exact closed

theorem CommandText.trimmed_side {name side command : List Char}
    (isText : CommandText name side command) : Trimmed side := by
  obtain ⟨-, -, -, -, ⟨-, -, -, -, trimmed, -⟩⟩ := isText
  exact trimmed

def commandBehind (name rest : List Char) : Option (RawCommand × List Char) := do
  let assigned ← afterAssignment name rest
  let (side, after) ← rightHandSide false (trimStart assigned)
  return (⟨name, side⟩, after)

theorem commandAt_eq (text : List Char) :
    commandAt text = (afterOpening text).bind fun body =>
      (nameSplits body).findSome? fun (name, rest) => commandBehind name rest :=
  rfl

theorem commandBehind_eq_some_iff {name rest after : List Char} {raw : RawCommand} :
    commandBehind name rest = some (raw, after) ↔
      raw.flag = name ∧ ∃ text, AssignmentText name raw.expression text ∧ rest = text ++ after := by
  obtain ⟨flag, side⟩ := raw
  simp only [commandBehind, Option.bind_eq_bind, Option.bind_eq_some_iff,
    afterAssignment_eq_some_iff]
  constructor
  · rintro ⟨assigned, ⟨gap, mark, gapBlank, assigns, rfl⟩, ⟨read, left⟩, sideRead, equality⟩
    obtain ⟨⟨rfl, rfl⟩, rfl⟩ : (flag = name ∧ side = read) ∧ after = left := by
      simpa [eq_comm] using equality
    obtain ⟨space, split, spaceBlank⟩ := exists_eq_append_trimStart assigned
    obtain ⟨closed, shown, closing, closingBlank, sideEq⟩ := rightHandSide_eq_some_iff.mp sideRead
    rw [sideEq] at split
    have trimmed : Trimmed side := by
      refine trimmed_of_ends (fun character first => ?_) shown
      refine head?_trimStart assigned ?_
      rw [sideEq, List.head?_append, first, Option.some_or]
    have whole : assigned = (space ++ (side ++ (closing ++ ['>', '>']))) ++ after := by
      simp [split]
    rw [whole, Assigns.append_iff (by simp)] at assigns
    refine ⟨rfl, _, .intro gapBlank assigns spaceBlank closed trimmed closingBlank, ?_⟩
    simp [whole]
  · rintro ⟨rfl, _, ⟨gapBlank, assigns, spaceBlank, closed, trimmed, closingBlank⟩, rfl⟩
    rename_i gap mark space closing
    refine ⟨space ++ (side ++ (closing ++ ['>', '>'])) ++ after,
      ⟨gap, mark, gapBlank, (Assigns.append_iff (by simp) after).mpr assigns, by simp⟩,
      (side, after), ?_, rfl⟩
    refine rightHandSide_eq_some_iff.mpr ⟨closed, fun _ => trimmed.last_shown, ?_⟩
    rw [List.append_assoc, trimStart_append_of_blank spaceBlank]
    cases side with
    | nil =>
        -- All blanks around an empty right-hand side have been passed over.
        refine ⟨[], allBlank_nil, ?_⟩
        rw [List.nil_append, List.append_assoc, trimStart_append_of_blank closingBlank]
        exact trimStart_eq_self (by rintro _ ⟨⟩; rfl)
    | cons first others =>
        refine ⟨closing, closingBlank, ?_⟩
        rw [trimStart_eq_self (by rintro _ ⟨⟩; exact trimmed.head_shown rfl)]
        simp

theorem commandText_of_commandAt {text after : List Char} {raw : RawCommand}
    (found : commandAt text = some (raw, after)) :
    ∃ command, CommandText raw.flag raw.expression command ∧ text = command ++ after := by
  rw [commandAt_eq] at found
  obtain ⟨body, opening, split⟩ := Option.bind_eq_some_iff.mp found
  obtain ⟨name, rest, isName, rfl, read, -⟩ := exists_of_findSome?_nameSplits split
  obtain ⟨rfl, assignment, assigned, rfl⟩ := commandBehind_eq_some_iff.mp read
  obtain ⟨blanks, spaces, blanksBlank, spacesBlank, spaced, rfl⟩ :=
    afterOpening_eq_some_iff.mp opening
  exact ⟨_, .intro blanksBlank spacesBlank spaced isName assigned, by simp⟩

private theorem isSome_commandAt_iff {text : List Char} :
    (commandAt text).isSome = true ↔
      ∃ name side command after, CommandText name side command ∧ text = command ++ after := by
  constructor
  · intro found
    obtain ⟨⟨raw, after⟩, found⟩ := Option.isSome_iff_exists.mp found
    obtain ⟨command, isText, split⟩ := commandText_of_commandAt found
    exact ⟨_, _, command, after, isText, split⟩
  · rintro ⟨name, side, _, after, ⟨blanksBlank, spacesBlank, spaced, isName, assigned⟩, rfl⟩
    rename_i blanks spaces assignment
    have opening : afterOpening ((['<', '<'] ++ (blanks ++ ("set".toList ++ (spaces ++
        '$' :: (name ++ assignment))))) ++ after) = some (name ++ (assignment ++ after)) :=
      afterOpening_eq_some_iff.mpr ⟨blanks, spaces, blanksBlank, spacesBlank, spaced, by simp⟩
    have read : commandBehind name (assignment ++ after) = some (⟨name, side⟩, after) :=
      commandBehind_eq_some_iff.mpr ⟨rfl, assignment, assigned, rfl⟩
    rw [commandAt_eq, opening, Option.bind_some]
    exact isSome_findSome?_nameSplits.mpr
      ⟨name, _, isName, rfl, Option.isSome_iff_exists.mpr ⟨_, read⟩⟩

/-! ## Commands anywhere -/

/-- Whether a set command stands somewhere in a text. -/
def HoldsCommand (text : List Char) : Prop :=
  ∃ name side command, CommandText name side command ∧ command <:+: text

theorem commands_cons_of_none {character : Char} {rest : List Char}
    (noCommand : commandAt (character :: rest) = none) :
    commands (character :: rest) = commands rest := by
  simp only [commands, pieces, piecesFrom, noCommand]
  exact List.filterMap_cons_none rfl

private theorem commands_cons {character : Char} (plain : character ≠ '<') (rest : List Char) :
    commands (character :: rest) = commands rest := by
  refine commands_cons_of_none ?_
  have noLead : List.isPrefixOf? ['<', '<'] (character :: rest) = none := by
    simp [List.isPrefixOf?, Ne.symm plain]
  simp [commandAt, afterOpening, noLead]

/-- A text without angle brackets in front of another one has no commands. -/
theorem commands_append {front : List Char} (plain : '<' ∉ front) (rest : List Char) :
    commands (front ++ rest) = commands rest := by
  induction front with
  | nil => rfl
  | cons character front inductionHypothesis =>
      obtain ⟨different, absent⟩ := not_or.mp (List.mem_cons.not.mp plain)
      rw [List.cons_append, commands_cons (Ne.symm different), inductionHypothesis absent]

theorem commands_cons_of_some {character : Char} {rest after : List Char} {raw : RawCommand}
    (found : commandAt (character :: rest) = some (raw, after)) :
    commands (character :: rest) ≠ [] := by
  simp [commands, pieces, piecesFrom, found, Piece.command?]

private theorem commands_eq_nil_iff_suffix {text : List Char} :
    commands text = [] ↔ ∀ suffix, suffix <:+ text → commandAt suffix = none := by
  induction text with
  | nil =>
      refine ⟨fun _ suffix within => ?_, fun _ => rfl⟩
      rw [List.suffix_nil.mp within]
      rfl
  | cons character rest inductionHypothesis =>
      cases found : commandAt (character :: rest) with
      | none =>
          rw [commands_cons_of_none found, inductionHypothesis]
          simp [List.suffix_cons_iff, or_imp, forall_and, found]
      | some parts =>
          refine ⟨fun empty => absurd empty (commands_cons_of_some found), fun none => ?_⟩
          rw [none _ (List.suffix_refl _)] at found
          cases found

/-- The scan finds no command in a text exactly when none stands there. -/
theorem commands_eq_nil_iff {text : List Char} : commands text = [] ↔ ¬ HoldsCommand text := by
  rw [commands_eq_nil_iff_suffix]
  constructor
  · rintro none ⟨name, side, command, isText, before, after, rfl⟩
    have noCommand := none (command ++ after) ⟨before, by simp⟩
    have found := isSome_commandAt_iff.mpr ⟨name, side, command, after, isText, rfl⟩
    rw [noCommand] at found
    cases found
  · rintro none suffix ⟨before, rfl⟩
    rw [← Option.not_isSome_iff_eq_none, isSome_commandAt_iff]
    rintro ⟨name, side, command, after, isText, rfl⟩
    exact none ⟨name, side, command, isText, before, after, by simp⟩

end BranchingDialogue.Script

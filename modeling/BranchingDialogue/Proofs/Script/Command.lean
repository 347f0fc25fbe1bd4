import BranchingDialogue.Proofs.Script.CommandText
import BranchingDialogue.Script.Writer

/-! A line of markup is a keyword and an argument between double angle brackets. An assignment on a
line of its own is read back when its right-hand side can be one, as is the command that raises a
flag, and every complete set command is markup with the keyword `set`. -/

namespace BranchingDialogue.Script

open Text

/-! ## Keywords -/

/-- The keyword and the argument of a line of markup. -/
def keywordAndArgument (line : List Char) : Option (List Char × List Char) :=
  ((List.isPrefixOf? ['<', '<'] line).bind (List.isSuffixOf? ['>', '>'])).map fun inside =>
    match cutWhere isBlank (trim inside) with
    | some (word, rest) => (word, trim rest)
    | none => (trim inside, [])

private theorem trimmed_of_word {word : List Char}
    (shown : ∀ character ∈ word, isBlank character = false)
    (filled : word ≠ []) {argument : List Char} (trimmed : Trimmed argument) :
    Trimmed (word ++ if argument.isEmpty then [] else ' ' :: argument) := by
  have wordTrimmed := trimmed_of_forall shown
  split
  · rw [List.append_nil]
    exact wordTrimmed
  · rename_i argumentFilled
    have joined := wordTrimmed.append filled trimmed (by simpa using argumentFilled) [' ']
    simpa using joined

/-- Markup is read as the keyword and the argument that it is made of. -/
theorem keywordAndArgument_markup {word : String} {argument : List Char}
    (shown : ∀ character ∈ word.toList, isBlank character = false) (filled : word.toList ≠ [])
    (trimmed : Trimmed argument) :
    keywordAndArgument (markup word argument) = some (word.toList, argument) := by
  have inner := trimmed_of_word shown filled trimmed
  have lead : List.isPrefixOf? ['<', '<'] (markup word argument) =
      some (word.toList ++ (if argument.isEmpty then [] else ' ' :: argument) ++ ['>', '>']) := by
    rw [markup, List.append_assoc, List.append_assoc, isPrefixOf?_append_self, List.append_assoc]
  unfold keywordAndArgument
  rw [lead, Option.bind_some, isSuffixOf?_append_self, Option.map_some, inner]
  split
  · rename_i first rest cutEq
    split at cutEq
    · rw [List.append_nil, cutWhere_eq_none shown] at cutEq
      cases cutEq
    · rw [cutWhere_append_cons argument shown rfl] at cutEq
      cases cutEq
      rw [trimmed]
  · rename_i cutEq
    split at cutEq
    · rename_i empty
      rw [List.isEmpty_iff] at empty
      simp [empty]
    · rw [cutWhere_append_cons argument shown rfl] at cutEq
      cases cutEq

/-! ## Commands on lines of their own -/

/-- The line that assigns a right-hand side to a flag. -/
def assignmentLine (name side : List Char) : List Char :=
  markup "set" ('$' :: (name ++ (" = ".toList ++ side)))

private theorem assignmentLine_eq (name side : List Char) :
    assignmentLine name side =
      "<<set $".toList ++ (name ++ (" = ".toList ++ (side ++ ['>', '>']))) := by
  simp [assignmentLine, markup]

private theorem trimmed_assignmentLine (name side : List Char) :
    Trimmed (assignmentLine name side) := by
  have front : Trimmed "<<set $".toList := by decide
  have back : Trimmed ['>', '>'] := by decide
  have ends := front.append (by decide) back (by decide) (name ++ (" = ".toList ++ side))
  rw [assignmentLine_eq]
  simpa only [List.append_assoc] using ends

/-- Behind the name of the flag the whole right-hand side is read, if it can be one. -/
theorem commandBehind_assignment {name side : List Char} {raw : RawCommand} (filled : side ≠ [])
    (trimmed : Trimmed side) :
    commandBehind name (" = ".toList ++ (side ++ ['>', '>'])) = some (raw, []) ↔
      raw = ⟨name, side⟩ ∧ SideText false side := by
  have assigned : afterAssignment name (" = ".toList ++ (side ++ ['>', '>'])) =
      some (' ' :: (side ++ ['>', '>'])) := rfl
  have start : trimStart (' ' :: (side ++ ['>', '>'])) = side ++ ['>', '>'] := by
    rw [trimStart_space_cons]
    refine trimStart_eq_self fun character first => trimmed.head_shown ?_
    rwa [List.head?_append_of_ne_nil _ filled] at first
  have read (found : List Char) : rightHandSide false (side ++ ['>', '>']) = some (found, []) ↔
      found = side ∧ SideText false side := by
    rw [rightHandSide_eq_some_iff]
    constructor
    · rintro ⟨closed, -, blanks, allBlank, split⟩
      rw [← List.append_assoc, List.append_left_inj] at split
      obtain rfl := (split ▸ trimmed).eq_nil_of_append allBlank
      rw [List.append_nil] at split
      exact ⟨split.symm, split ▸ closed⟩
    · rintro ⟨rfl, closed⟩
      exact ⟨closed, fun _ => trimmed.last_shown, [], allBlank_nil, rfl⟩
  simp only [commandBehind, assigned, start, Option.bind_eq_bind, Option.bind_some,
    Option.bind_eq_some_iff]
  constructor
  · rintro ⟨⟨found, after⟩, sideRead, equality⟩
    cases equality
    obtain ⟨rfl, closed⟩ := (read found).mp sideRead
    exact ⟨rfl, closed⟩
  · rintro ⟨rfl, closed⟩
    exact ⟨(side, []), (read side).mpr ⟨rfl, closed⟩, rfl⟩

/-- A line that assigns a right-hand side is read as the assignment of the whole of it exactly when
it can be a right-hand side. -/
theorem commandAt_assignmentLine_iff {name side : List Char} {raw : RawCommand}
    (isName : isFlagName name = true) (filled : side ≠ []) (trimmed : Trimmed side)
    (same : raw.flag = name) :
    commandAt (assignmentLine name side) = some (raw, []) ↔
      raw = ⟨name, side⟩ ∧ SideText false side := by
  have opening : afterOpening (assignmentLine name side) =
      some (name ++ (" = ".toList ++ (side ++ ['>', '>']))) := by
    rw [assignmentLine_eq]
    exact afterOpening_eq_some_iff.mpr
      ⟨[], [' '], allBlank_nil, allBlank_space, List.cons_ne_nil _ _, rfl⟩
  rw [← commandBehind_assignment filled trimmed, commandAt_eq, opening, Option.bind_some]
  constructor
  · intro found
    obtain ⟨other, rest, -, split, read, -⟩ := exists_of_findSome?_nameSplits found
    obtain ⟨rfl, -⟩ := commandBehind_eq_some_iff.mp read
    rw [same, List.append_right_inj] at split
    rwa [← split, same] at read
  · intro read
    obtain ⟨others, splits⟩ :=
      @nameSplits_append name (" = ".toList ++ (side ++ ['>', '>'])) isName (by rintro _ ⟨⟩; rfl)
    rw [splits, List.findSome?_cons]
    dsimp only
    rw [read]

theorem readCommand_assignmentLine_iff {flag : String} {side : List Char}
    {expression : SetExpression} (scriptable : isScriptable flag = true) (filled : side ≠ [])
    (trimmed : Trimmed side) :
    readCommand (assignmentLine flag.toList side) = some ⟨flag, expression⟩ ↔
      SideText false side ∧ readSetExpression side = some expression := by
  unfold readCommand
  rw [trimmed_assignmentLine flag.toList side]
  constructor
  · intro read
    split at read
    · rename_i raw found
      obtain ⟨value, sideRead, equality⟩ := Option.map_eq_some_iff.mp read
      obtain ⟨flagEq, rfl⟩ := SetCommand.mk.inj equality
      have same : raw.flag = flag.toList := by rw [← flagEq, String.toList_ofList]
      obtain ⟨rfl, closed⟩ := (commandAt_assignmentLine_iff scriptable filled trimmed same).mp found
      exact ⟨closed, sideRead⟩
    · cases read
  · rintro ⟨closed, sideRead⟩
    rw [(commandAt_assignmentLine_iff scriptable filled trimmed rfl).mpr ⟨rfl, closed⟩]
    dsimp only [RawCommand.read]
    rw [sideRead, String.ofList_toList]
    rfl

/-! ## Raising flags -/

theorem readCommand_raiseCommand {flag : String} (scriptable : isScriptable flag = true) :
    readCommand (raiseCommand flag) = some ⟨flag, .literal (.bool true)⟩ := by
  have line : raiseCommand flag = assignmentLine flag.toList "true".toList := by
    simp [raiseCommand, assignmentLine]
  have closed : SideText false "true".toList :=
    sideText_of_plain (by decide)
  have value : readSetExpression "true".toList = some (.literal (.bool true)) := by
    decide
  have trimmed : Trimmed "true".toList := by
    decide
  rw [line]
  exact (readCommand_assignmentLine_iff scriptable (by decide) trimmed).mpr ⟨closed, value⟩

/-! ## Complete commands -/

theorem exists_eq_append_of_commandText {name side command : List Char}
    (isText : CommandText name side command) :
    ∃ blanks space spaces front, AllBlank blanks ∧ isBlank space = true ∧
      command = ['<', '<'] ++
        ((blanks ++ ("set".toList ++ space :: (spaces ++ '$' :: front))) ++ ['>', '>']) := by
  obtain ⟨blanksBlank, spacesBlank, spaced, -, ⟨⟩⟩ := isText
  rename_i blanks spaces gap mark around closing _ _ _ _ _ _
  obtain ⟨space, others, rfl⟩ := List.exists_cons_of_ne_nil spaced
  refine ⟨blanks, space, others, name ++ (gap ++ (mark ++ (around ++ (side ++ closing)))),
    blanksBlank, spacesBlank space List.mem_cons_self, ?_⟩
  simp

/-- A line that is a complete set command is markup with the keyword `set`. -/
theorem exists_keywordAndArgument_of_readCommand {line : List Char} {command : SetCommand}
    (trimmed : Trimmed line) (found : readCommand line = some command) :
    ∃ argument, keywordAndArgument line = some ("set".toList, argument) := by
  unfold readCommand at found
  rw [trimmed] at found
  split at found
  · rename_i raw whole
    obtain ⟨command, isText, lineEq⟩ := commandText_of_commandAt whole
    obtain ⟨blanks, space, spaces, front, blanksBlank, spaceBlank, rfl⟩ :=
      exists_eq_append_of_commandText isText
    have between : (List.isPrefixOf? ['<', '<'] line).bind (List.isSuffixOf? ['>', '>']) =
        some (blanks ++ ("set".toList ++ space :: (spaces ++ '$' :: front))) := by
      rw [lineEq, List.append_nil, isPrefixOf?_append_self, Option.bind_some,
        isSuffixOf?_append_self]
    have inside : trim (blanks ++ ("set".toList ++ space :: (spaces ++ '$' :: front))) =
        "set".toList ++ space :: (spaces ++ trimEnd ('$' :: front)) := by
      rw [trim_append_of_blank blanksBlank, trim, trimStart_eq_self (by rintro _ ⟨⟩; rfl)]
      have dollar := @trimEnd_append_cons '$' rfl ("set".toList ++ space :: spaces) front
      simpa using dollar
    unfold keywordAndArgument
    rw [between, Option.map_some, inside,
      cutWhere_append_cons _ (by decide) spaceBlank]
    exact ⟨_, rfl⟩
  · cases found

end BranchingDialogue.Script

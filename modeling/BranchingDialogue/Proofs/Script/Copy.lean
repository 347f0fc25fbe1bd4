import BranchingDialogue.Proofs.Decimal.Reading
import BranchingDialogue.Proofs.Script.Command
import BranchingDialogue.Proofs.Script.Literal

/-! What follows the dollar sign of a right-hand side is an offset when it can be one, with any flag
name in front, and the source of a copy otherwise. So a name that ends in a sign and an amount has
no copy, and a copy can have a source that is no name. -/

namespace BranchingDialogue.Script

open Text

/-! ## Amounts -/

/-- The texts of amounts without sign: digits, which can have decimal places behind a point. -/
inductive UnsignedAmount : List Char → Prop
  | whole {digits} (allDigits : Decimal.AllDigits digits) (filled : digits ≠ []) : UnsignedAmount digits
  | places {digits places} (allDigits : Decimal.AllDigits digits) (filled : digits ≠ [])
      (placeDigits : Decimal.AllDigits places) (placesFilled : places ≠ []) :
      UnsignedAmount (digits ++ '.' :: places)

/-- The texts of amounts, which can have a minus. -/
inductive AmountText : List Char → Prop
  | plain {text} (digits : UnsignedAmount text) : AmountText text
  | minus {text} (digits : UnsignedAmount text) : AmountText ('-' :: text)

theorem UnsignedAmount.exists_cons {text : List Char} (digits : UnsignedAmount text) :
    ∃ digit rest, text = digit :: rest ∧ digit.isDigit = true := by
  cases digits with
  | whole allDigits filled =>
      obtain ⟨digit, rest, rfl⟩ := List.exists_cons_of_ne_nil filled
      exact ⟨digit, rest, rfl, allDigits digit List.mem_cons_self⟩
  | places allDigits filled _ _ =>
      obtain ⟨digit, rest, rfl⟩ := List.exists_cons_of_ne_nil filled
      exact ⟨digit, _, rfl, allDigits digit List.mem_cons_self⟩

private theorem UnsignedAmount.isSome_readMagnitude {text : List Char}
    (digits : UnsignedAmount text) : (Decimal.readMagnitude text).isSome = true := by
  obtain ⟨digit, rest, textEq, isDigit⟩ := digits.exists_cons
  rw [textEq, Decimal.readMagnitude_of_isDigit isDigit, ← textEq]
  cases digits with
  | whole allDigits filled =>
      rw [Decimal.readDigits_whole allDigits filled]
      rfl
  | places allDigits filled placeDigits _ =>
      rw [Decimal.readDigits_places allDigits placeDigits filled]
      rfl

private theorem AmountText.isSome_read {text : List Char} (isAmount : AmountText text) :
    (Decimal.read text).isSome = true := by
  unfold Decimal.read
  rw [Option.isSome_map]
  cases isAmount with
  | plain digits =>
      obtain ⟨digit, rest, rfl, isDigit⟩ := digits.exists_cons
      rw [Decimal.signAndRest_of_isDigit isDigit]
      exact digits.isSome_readMagnitude
  | minus digits => exact digits.isSome_readMagnitude

/-- Whether a text has the shape of an amount without sign. -/
def hasDigits (text : List Char) : Bool :=
  let (whole, rest) := Decimal.leadingDigits text
  !whole.isEmpty &&
    match rest with
    | [] => true
    | '.' :: places => !places.isEmpty && places.all Char.isDigit
    | _ => false

private theorem offsetNumber_eq (text : List Char) :
    offsetNumber text =
      if hasDigits ((List.isPrefixOf? ['-'] text).getD text) then Decimal.read text else none := by
  have swap (empty plain : Bool) : (if empty || !plain then none else Decimal.read text) =
      if !empty && plain then Decimal.read text else none := by
    cases empty <;> cases plain <;> rfl
  exact swap _ _

private theorem hasDigits_iff {text : List Char} : hasDigits text = true ↔ UnsignedAmount text := by
  unfold hasDigits
  dsimp only
  constructor
  · intro shape
    obtain ⟨filled, shape⟩ := Bool.and_eq_true_iff.mp shape
    have split : text = (Decimal.leadingDigits text).1 ++ (Decimal.leadingDigits text).2 :=
      List.takeWhile_append_dropWhile.symm
    have digits : Decimal.AllDigits (Decimal.leadingDigits text).1 :=
      fun _ member => List.mem_takeWhile_imp member
    have filled : (Decimal.leadingDigits text).1 ≠ [] := by simpa using filled
    rw [split]
    split at shape
    · rename_i rest ended
      rw [ended, List.append_nil]
      exact .whole digits filled
    · rename_i rest places point
      obtain ⟨placesFilled, placeDigits⟩ := Bool.and_eq_true_iff.mp shape
      rw [point]
      exact .places digits filled (List.all_eq_true.mp placeDigits) (by simpa using placesFilled)
    · cases shape
  · rintro (⟨digits, filled⟩ | ⟨digits, filled, placeDigits, placesFilled⟩)
    · rw [Decimal.leadingDigits_of_allDigits digits]
      simp [filled]
    · rw [Decimal.leadingDigits_append_point digits]
      simp [filled, placesFilled]
      exact placeDigits

private theorem isSome_offsetNumber_iff {text : List Char} :
    (offsetNumber text).isSome = true ↔ AmountText text := by
  rw [offsetNumber_eq]
  constructor
  · intro read
    split at read
    · rename_i shape
      rw [hasDigits_iff] at shape
      cases lead : List.isPrefixOf? ['-'] text with
      | none =>
          rw [lead, Option.getD_none] at shape
          exact .plain shape
      | some rest =>
          rw [lead, Option.getD_some] at shape
          rw [← List.append_eq_of_isPrefixOf?_eq_some lead]
          exact .minus shape
    · cases read
  · intro isAmount
    have shape : hasDigits ((List.isPrefixOf? ['-'] text).getD text) = true := by
      rw [hasDigits_iff]
      cases isAmount with
      | plain digits =>
          obtain ⟨digit, rest, rfl, isDigit⟩ := digits.exists_cons
          have noMinus : List.isPrefixOf? ['-'] (digit :: rest) = none := by
            rw [isPrefixOf?_eq_none_iff]
            rintro ⟨others, equality⟩
            cases equality
            cases isDigit
          rw [noMinus]
          exact digits
      | minus digits => exact digits
    rw [if_pos shape]
    exact isAmount.isSome_read

/-! ## Offsets -/

/-- The texts of offsets behind the dollar sign: a flag name, a sign and an amount, with blanks
around the sign. -/
inductive OffsetText : List Char → Prop
  | intro {name gap space amount sign} (isName : isFlagName name = true) (gapBlank : AllBlank gap)
      (isSign : sign = '+' ∨ sign = '-') (spaceBlank : AllBlank space)
      (isAmount : AmountText amount) : OffsetText (name ++ (gap ++ sign :: (space ++ amount)))

theorem AmountText.head_shown {text : List Char} (isAmount : AmountText text) {character : Char}
    (first : text.head? = some character) : isBlank character = false := by
  cases isAmount with
  | plain digits =>
      obtain ⟨digit, rest, rfl, isDigit⟩ := digits.exists_cons
      cases first
      exact isBlank_of_isDigit isDigit
  | minus digits =>
      cases first
      rfl

private theorem isSome_offsetDelta_iff {text : List Char} :
    (offsetDelta text).isSome = true ↔
      ∃ gap sign space amount, AllBlank gap ∧ (sign = '+' ∨ sign = '-') ∧ AllBlank space ∧
        AmountText amount ∧ text = gap ++ sign :: (space ++ amount) := by
  constructor
  · intro read
    obtain ⟨gap, textEq, gapBlank⟩ := exists_eq_append_trimStart text
    unfold offsetDelta at read
    split at read
    · rename_i rest start
      obtain ⟨space, restEq, spaceBlank⟩ := exists_eq_append_trimStart rest
      rw [start, restEq] at textEq
      exact ⟨gap, '+', space, _, gapBlank, Or.inl rfl, spaceBlank,
        isSome_offsetNumber_iff.mp read, textEq⟩
    · rename_i rest start
      obtain ⟨space, restEq, spaceBlank⟩ := exists_eq_append_trimStart rest
      rw [start, restEq] at textEq
      rw [Option.isSome_map] at read
      exact ⟨gap, '-', space, _, gapBlank, Or.inr rfl, spaceBlank,
        isSome_offsetNumber_iff.mp read, textEq⟩
    · cases read
  · rintro ⟨gap, sign, space, amount, gapBlank, isSign, spaceBlank, isAmount, rfl⟩
    have read := isSome_offsetNumber_iff.mpr isAmount
    have shown : isBlank sign = false := by rcases isSign with rfl | rfl <;> rfl
    unfold offsetDelta
    rw [trimStart_append_of_head? gapBlank (by rintro _ ⟨⟩; exact shown)]
    have start : trimStart (space ++ amount) = amount :=
      trimStart_append_of_head? spaceBlank fun _ => isAmount.head_shown
    rcases isSign with rfl | rfl
    · show (offsetNumber (trimStart (space ++ amount))).isSome = true
      rwa [start]
    · show (Option.map _ (offsetNumber (trimStart (space ++ amount)))).isSome = true
      rwa [start, Option.isSome_map]

private theorem isSome_readOffset_iff {text : List Char} :
    (readOffset text).isSome = true ↔ OffsetText text := by
  unfold readOffset
  rw [isSome_findSome?_nameSplits]
  constructor
  · rintro ⟨name, rest, isName, rfl, read⟩
    rw [Option.isSome_map, isSome_offsetDelta_iff] at read
    obtain ⟨gap, sign, space, amount, gapBlank, isSign, spaceBlank, isAmount, rfl⟩ := read
    exact ⟨isName, gapBlank, isSign, spaceBlank, isAmount⟩
  · rintro ⟨isName, gapBlank, isSign, spaceBlank, isAmount⟩
    refine ⟨_, _, isName, rfl, ?_⟩
    rw [Option.isSome_map, isSome_offsetDelta_iff]
    exact ⟨_, _, _, _, gapBlank, isSign, spaceBlank, isAmount, rfl⟩

/-! ## Copies -/

private theorem readOffset_ne_copy {text : List Char} {source : String} :
    readOffset text ≠ some (.copy source) := by
  intro read
  obtain ⟨⟨name, rest⟩, -, found⟩ := List.exists_of_findSome?_eq_some read
  obtain ⟨delta, -, equality⟩ := Option.map_eq_some_iff.mp found
  cases equality

/-- A right-hand side is a copy when it has a dollar sign in front of the source and is no offset. -/
theorem readSetExpression_eq_copy_iff {raw : List Char} {source : String} :
    readSetExpression raw = some (.copy source) ↔
      trim raw = '$' :: source.toList ∧ ¬ OffsetText source.toList := by
  unfold readSetExpression
  rw [← isSome_readOffset_iff, Option.not_isSome_iff_eq_none]
  split
  · rename_i rest start
    rw [start, List.cons.injEq, and_iff_right rfl]
    constructor
    · intro read
      rcases Option.or_eq_some_iff.mp (Option.orElse_eq_or.symm.trans read) with offset | ⟨none, copy⟩
      · exact absurd offset readOffset_ne_copy
      · cases copy
        exact ⟨String.toList_ofList.symm, by rwa [String.toList_ofList]⟩
    · rintro ⟨rfl, none⟩
      rw [none, String.ofList_toList]
      rfl
  · rename_i noDollar
    constructor
    · intro read
      obtain ⟨value, -, equality⟩ := Option.map_eq_some_iff.mp read
      cases equality
    · rintro ⟨start, -⟩
      exact absurd start (noDollar _)

private theorem sideText_dollar_iff {source : List Char} :
    SideText false ('$' :: source) ↔ SideText false source := by
  constructor
  · rintro (_ | _ | _ | ⟨-, closed⟩)
    exact closed
  · exact fun closed => .unquoted (by decide) closed

private theorem trimmed_dollar_iff {source : List Char} :
    Trimmed ('$' :: source) ↔ EndsShown source := by
  constructor
  · exact fun trimmed => EndsShown.of_cons fun _ => trimmed.last_shown
  · intro shown
    exact trimmed_of_ends (by rintro _ ⟨⟩; rfl) (shown.cons fun _ => rfl)

/-- Whether a flag can be the source of a copy: the text is a right-hand side behind its dollar
sign, and it is no offset. -/
structure CanBeCopied (source : List Char) : Prop where
  closed : SideText false source
  shown : EndsShown source
  noOffset : ¬ OffsetText source

private theorem canBeCopied_iff_of_name {source : List Char} (isName : isFlagName source = true) :
    CanBeCopied source ↔ ¬ OffsetText source := by
  refine ⟨CanBeCopied.noOffset, fun noOffset => ⟨?_, fun character last => ?_, noOffset⟩⟩
  · refine sideText_of_plain fun character member => ⟨?_, ?_⟩
    · rintro rfl
      exact not_mem_flag isName rfl member
    · rintro rfl
      exact not_mem_flag isName rfl member
  · exact shown_of_isFlagCharacter (isFlagCharacter_of_mem isName (List.mem_of_getLast? last))

private theorem readCommand_copyLine {flag source : String} (scriptable : isScriptable flag = true)
    (canBeCopied : CanBeCopied source.toList) :
    readCommand (assignmentLine flag.toList ('$' :: source.toList)) =
      some ⟨flag, .copy source⟩ := by
  have trimmed : Trimmed ('$' :: source.toList) := trimmed_dollar_iff.mpr canBeCopied.shown
  rw [readCommand_assignmentLine_iff scriptable (List.cons_ne_nil _ _) trimmed]
  exact ⟨sideText_dollar_iff.mpr canBeCopied.closed,
    readSetExpression_eq_copy_iff.mpr ⟨trimmed, canBeCopied.noOffset⟩⟩

private theorem of_readCommand_copy {line : List Char} {flag source : String}
    (read : readCommand line = some ⟨flag, .copy source⟩) :
    isScriptable flag = true ∧ CanBeCopied source.toList := by
  unfold readCommand at read
  split at read
  · rename_i raw found
    obtain ⟨expression, sideRead, equality⟩ := Option.map_eq_some_iff.mp read
    obtain ⟨rfl, rfl⟩ := SetCommand.mk.inj equality
    obtain ⟨command, isText, -⟩ := commandText_of_commandAt found
    obtain ⟨start, noOffset⟩ := readSetExpression_eq_copy_iff.mp sideRead
    rw [isText.trimmed_side] at start
    refine ⟨?_, ?_, ?_, noOffset⟩
    · rw [isScriptable, String.toList_ofList]
      exact isText.isFlagName
    · exact sideText_dollar_iff.mp (start ▸ isText.closed)
    · exact trimmed_dollar_iff.mp (start ▸ isText.trimmed_side)
  · cases read

/-- A command copies a source exactly when its flag is a name and its source can be copied. So the
line that copies one flag to another is read as this copy exactly when the name of the source does
not end in a sign and an amount. -/
theorem readCommand_copy_iff (flag source : String) :
    ((∃ line, readCommand line = some ⟨flag, .copy source⟩) ↔
        isScriptable flag = true ∧ CanBeCopied source.toList) ∧
      (isScriptable flag = true → isScriptable source = true →
        (readCommand (assignmentLine flag.toList ('$' :: source.toList)) =
            some ⟨flag, .copy source⟩ ↔ ¬ OffsetText source.toList)) := by
  refine ⟨⟨?_, ?_⟩, fun scriptable isName => ?_⟩
  · rintro ⟨line, read⟩
    exact of_readCommand_copy read
  · rintro ⟨scriptable, canBeCopied⟩
    exact ⟨_, readCommand_copyLine scriptable canBeCopied⟩
  · rw [← canBeCopied_iff_of_name isName]
    exact ⟨fun read => (of_readCommand_copy read).2, readCommand_copyLine scriptable⟩

theorem readCommand_copy_ale :
    isScriptable "f" = true ∧ isScriptable "ale-x5" = true ∧
      readCommand "<<set $f = $ale-x5>>".toList = some ⟨"f", .copy "ale-x5"⟩ :=
  have scriptable : isScriptable "f" = true := by decide
  have isName : isScriptable "ale-x5" = true := by decide
  have noOffset : ¬ OffsetText "ale-x5".toList := fun offset =>
    absurd (isSome_readOffset_iff.mpr offset) (by decide)
  ⟨scriptable, isName, ((readCommand_copy_iff "f" "ale-x5").2 scriptable isName).mpr noOffset⟩

/-- A name with an amount at its end is not copied, and a source with a blank in it is. -/
theorem copies_misread :
    isScriptable "f" = true ∧ isScriptable "gold-5" = true ∧
      readCommand "<<set $f = $gold-5>>".toList = some ⟨"f", .offset "gold" (-5)⟩ ∧
      readCommand "<<set $f = $a b>>".toList = some ⟨"f", .copy "a b"⟩ ∧
      isScriptable "a b" = false := by
  decide +kernel

end BranchingDialogue.Script

import BranchingDialogue.Proofs.Text.Lines
import BranchingDialogue.Text.WordCharacter

/-! Two texts differ in their spacing only when they are made of the same other characters with runs
of blanks at the same places. The words of a text with single spaces between them are the text with
other spacing, but for the blanks at its ends. -/

namespace BranchingDialogue.Text

/-! ## Blanks -/

private theorem isWordCharacter_of_isBlank {character : Char} (blank : isBlank character = true) :
    isWordCharacter character = false := by
  have points : ∀ point ∈ [0x09, 0x0a, 0x0b, 0x0c, 0x0d, 0x20, 0x85, 0xa0, 0x1680, 0x2000, 0x2001,
      0x2002, 0x2003, 0x2004, 0x2005, 0x2006, 0x2007, 0x2008, 0x2009, 0x200a, 0x2028, 0x2029,
      0x202f, 0x205f, 0x3000], isWordCharacter (Char.ofNat point) = false := by
    decide +kernel
  have same := points character.toNat (by
    simp only [isBlank, Bool.or_eq_true, Bool.and_eq_true, decide_eq_true_eq, beq_iff_eq] at blank
    simp only [List.mem_cons, List.not_mem_nil, or_false]
    omega)
  rwa [Char.ofNat_toNat] at same

/-- Whether a character is blank and can stand inside a line. -/
structure IsSpace (character : Char) : Prop where
  blank : isBlank character = true
  notFeed : character ≠ '\n'

/-! ## The relation -/

/-- Two texts on one line that differ in the lengths and the characters of their runs of blanks. -/
inductive Respaced : List Char → List Char → Prop
  | nil : Respaced [] []
  | shown {character first second} (isShown : isBlank character = false)
      (rest : Respaced first second) : Respaced (character :: first) (character :: second)
  | space {blank other first second} (isSpace : IsSpace blank) (otherSpace : IsSpace other)
      (rest : Respaced first second) : Respaced (blank :: first) (other :: second)
  | longer {blank other first second} (isSpace : IsSpace blank) (otherSpace : IsSpace other)
      (rest : Respaced first (other :: second)) : Respaced (blank :: first) (other :: second)
  | shorter {blank other first second} (isSpace : IsSpace blank) (otherSpace : IsSpace other)
      (rest : Respaced (blank :: first) second) : Respaced (blank :: first) (other :: second)

namespace Respaced

theorem symm {first second : List Char} (respaced : Respaced first second) :
    Respaced second first := by
  induction respaced with
  | nil => exact .nil
  | shown isShown _ inductionHypothesis => exact .shown isShown inductionHypothesis
  | space isSpace otherSpace _ inductionHypothesis =>
      exact .space otherSpace isSpace inductionHypothesis
  | longer isSpace otherSpace _ inductionHypothesis =>
      exact .shorter otherSpace isSpace inductionHypothesis
  | shorter isSpace otherSpace _ inductionHypothesis =>
      exact .longer otherSpace isSpace inductionHypothesis

theorem eq_nil {second : List Char} (respaced : Respaced [] second) : second = [] := by
  cases respaced
  rfl

theorem exists_cons_of_space {blank : Char} {first second : List Char}
    (respaced : Respaced (blank :: first) second) (isSpace : IsSpace blank) :
    ∃ other others, second = other :: others ∧ IsSpace other := by
  cases respaced with
  | shown isShown _ =>
      rw [isSpace.blank] at isShown
      cases isShown
  | space _ otherSpace _ => exact ⟨_, _, rfl, otherSpace⟩
  | longer _ otherSpace _ => exact ⟨_, _, rfl, otherSpace⟩
  | shorter _ otherSpace _ => exact ⟨_, _, rfl, otherSpace⟩

theorem allBlank {first second : List Char} (respaced : Respaced first second)
    (firstBlank : AllBlank first) : AllBlank second := by
  induction respaced with
  | nil => exact allBlank_nil
  | shown isShown _ _ =>
      rw [firstBlank _ List.mem_cons_self] at isShown
      cases isShown
  | space _ otherSpace _ inductionHypothesis =>
      exact List.forall_mem_cons.mpr
        ⟨otherSpace.blank, inductionHypothesis (List.forall_mem_cons.mp firstBlank).2⟩
  | longer _ _ _ inductionHypothesis =>
      exact inductionHypothesis (List.forall_mem_cons.mp firstBlank).2
  | shorter _ otherSpace _ inductionHypothesis =>
      exact List.forall_mem_cons.mpr ⟨otherSpace.blank, inductionHypothesis firstBlank⟩

theorem startsOutsideWord_eq {first second : List Char} (respaced : Respaced first second) :
    startsOutsideWord first = startsOutsideWord second := by
  have outside {character : Char} (isSpace : IsSpace character) (rest : List Char) :
      startsOutsideWord (character :: rest) = true := by
    simp [startsOutsideWord, isWordCharacter_of_isBlank isSpace.blank]
  cases respaced with
  | nil => rfl
  | shown _ _ => rfl
  | space isSpace otherSpace _ => rw [outside isSpace, outside otherSpace]
  | longer isSpace otherSpace _ => rw [outside isSpace, outside otherSpace]
  | shorter isSpace otherSpace _ => rw [outside isSpace, outside otherSpace]

/-- A character that is no blank stands at corresponding places. -/
theorem exists_of_append_cons {front back second : List Char} {character : Char}
    (respaced : Respaced (front ++ character :: back) second)
    (isShown : isBlank character = false) :
    ∃ front' back', second = front' ++ character :: back' ∧ Respaced front front' ∧
      Respaced back back' := by
  have notBlank {blank : Char} {behind rest : List Char} (isSpace : IsSpace blank)
      (equality : character :: behind = blank :: rest) : False := by
    rw [(List.cons.inj equality).1, isSpace.blank] at isShown
    cases isShown
  generalize whole : front ++ character :: back = first at respaced
  induction respaced generalizing front with
  | nil => exact absurd whole (by simp)
  | @shown other first second otherShown rest inductionHypothesis =>
      cases front with
      | nil =>
          cases whole
          exact ⟨[], second, rfl, .nil, rest⟩
      | cons head front =>
          cases whole
          obtain ⟨front', back', rfl, fronts, backs⟩ := inductionHypothesis rfl
          exact ⟨other :: front', back', rfl, .shown otherShown fronts, backs⟩
  | @space blank other first second isSpace otherSpace rest inductionHypothesis =>
      cases front with
      | nil => exact (notBlank isSpace whole).elim
      | cons head front =>
          cases whole
          obtain ⟨front', back', rfl, fronts, backs⟩ := inductionHypothesis rfl
          exact ⟨other :: front', back', rfl, .space isSpace otherSpace fronts, backs⟩
  | @longer blank other first second isSpace otherSpace rest inductionHypothesis =>
      cases front with
      | nil => exact (notBlank isSpace whole).elim
      | cons head front =>
          cases whole
          obtain ⟨front', back', split, fronts, backs⟩ := inductionHypothesis rfl
          cases front' with
          | nil => exact (notBlank otherSpace split.symm).elim
          | cons head' front' =>
              cases split
              exact ⟨_, back', rfl, .longer isSpace otherSpace fronts, backs⟩
  | @shorter blank other first second isSpace otherSpace rest inductionHypothesis =>
      cases front with
      | nil => exact (notBlank isSpace whole).elim
      | cons head front =>
          obtain ⟨front', back', rfl, fronts, backs⟩ := inductionHypothesis whole
          cases whole
          exact ⟨other :: front', back', rfl, .shorter isSpace otherSpace fronts, backs⟩

/-- A run of characters that are no blanks stands at corresponding places. -/
theorem exists_of_append_append {run : List Char}
    (runShown : ∀ character ∈ run, isBlank character = false) (filled : run ≠ [])
    {front back second : List Char} (respaced : Respaced (front ++ (run ++ back)) second) :
    ∃ front' back', second = front' ++ (run ++ back') ∧ Respaced front front' ∧
      Respaced back back' := by
  induction run generalizing front second with
  | nil => exact absurd rfl filled
  | cons character run inductionHypothesis =>
      obtain ⟨isShown, inRest⟩ := List.forall_mem_cons.mp runShown
      obtain ⟨front', behind, rfl, fronts, behinds⟩ :=
        exists_of_append_cons respaced isShown
      cases run with
      | nil => exact ⟨front', behind, rfl, fronts, behinds⟩
      | cons second others =>
          obtain ⟨between, back', rfl, betweens, backs⟩ := inductionHypothesis inRest
            (List.cons_ne_nil _ _) (show Respaced ([] ++ (second :: others ++ back)) behind
              from behinds)
          obtain rfl := betweens.eq_nil
          exact ⟨front', back', rfl, fronts, backs⟩

end Respaced

/-! ## Single spaces -/

private theorem shown_of_mem_firstWordAndRest (text : List Char) :
    ∀ word ∈ (firstWordAndRest text).1 :: (firstWordAndRest text).2,
      ∀ character ∈ word, isBlank character = false := by
  induction text with
  | nil => simp [firstWordAndRest]
  | cons character rest inductionHypothesis =>
      unfold firstWordAndRest
      generalize firstWordAndRest rest = found at inductionHypothesis
      obtain ⟨word, others⟩ := found
      obtain ⟨wordShown, othersShown⟩ := List.forall_mem_cons.mp inductionHypothesis
      dsimp only
      cases blank : isBlank character with
      | false =>
          rw [if_neg (by decide)]
          exact List.forall_mem_cons.mpr
            ⟨List.forall_mem_cons.mpr ⟨blank, wordShown⟩, othersShown⟩
      | true =>
          rw [if_pos rfl]
          refine List.forall_mem_cons.mpr ⟨List.forall_mem_nil _, ?_⟩
          split
          · exact othersShown
          · exact inductionHypothesis

theorem oneLine_singleSpaced (text : List Char) : OneLine (singleSpaced text) := by
  have shown := shown_of_mem_firstWordAndRest text
  have wordsShown : ∀ word ∈ words text, ∀ character ∈ word, isBlank character = false := by
    unfold words
    dsimp only
    split
    · exact (List.forall_mem_cons.mp shown).2
    · exact shown
  refine oneLine_intercalate (by decide) fun word member feed => ?_
  cases wordsShown word member '\n' feed

private theorem intercalate_cons_append (character : Char) (word : List Char)
    (others : List (List Char)) :
    [' '].intercalate ((character :: word) :: others) =
      character :: [' '].intercalate (word :: others) := by
  cases others <;> simp [List.intercalate, List.intersperse]

/-- The first word and the words after it, with single spaces between them, are the text with other
spacing, but for the blanks at its end. -/
theorem exists_respaced_firstWordAndRest {text : List Char} (oneLine : OneLine text) :
    ∃ body after, text = body ++ after ∧ AllBlank after ∧
      Respaced body ([' '].intercalate ((firstWordAndRest text).1 :: (firstWordAndRest text).2)) := by
  have space : IsSpace ' ' := ⟨rfl, by decide⟩
  induction text with
  | nil => exact ⟨[], [], rfl, allBlank_nil, .nil⟩
  | cons character rest inductionHypothesis =>
      obtain ⟨notFeed, restLine⟩ := not_or.mp (List.mem_cons.not.mp oneLine)
      obtain ⟨body, after, restEq, afterBlank, respaced⟩ := inductionHypothesis restLine
      unfold firstWordAndRest
      generalize firstWordAndRest rest = found at respaced
      obtain ⟨word, others⟩ := found
      dsimp only at respaced ⊢
      cases blank : isBlank character with
      | false =>
          rw [if_neg (by decide)]
          refine ⟨character :: body, after, by rw [restEq]; rfl, afterBlank, ?_⟩
          rw [intercalate_cons_append]
          exact .shown blank respaced
      | true =>
          have isSpace : IsSpace character := ⟨blank, Ne.symm notFeed⟩
          rw [if_pos rfl]
          cases word with
          | cons first letters =>
              refine ⟨character :: body, after, by rw [restEq]; rfl, afterBlank, ?_⟩
              exact .space isSpace space respaced
          | nil =>
              cases others with
              | nil =>
                  obtain rfl := respaced.symm.eq_nil
                  exact ⟨[], character :: after, by rw [restEq]; rfl,
                    List.forall_mem_cons.mpr ⟨blank, afterBlank⟩, .nil⟩
              | cons second words =>
                  refine ⟨character :: body, after, by rw [restEq]; rfl, afterBlank, ?_⟩
                  exact .longer isSpace space respaced

end BranchingDialogue.Text

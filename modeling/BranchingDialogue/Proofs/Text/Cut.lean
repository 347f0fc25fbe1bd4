import Mathlib.Data.List.Infix
import BranchingDialogue.Text.Cut

/-! The functions that cut texts are characterized by how the text is put together: what follows a
lead, what comes before a tail, and what stands on the two sides of the first mark. -/

namespace BranchingDialogue.Text

/-! ## Leads and tails -/

@[simp]
theorem isPrefixOf?_append_self (lead rest : List Char) :
    lead.isPrefixOf? (lead ++ rest) = some rest :=
  List.isPrefixOf?_eq_some_iff_append_eq.mpr rfl

@[simp]
theorem isSuffixOf?_append_self (before tail : List Char) :
    tail.isSuffixOf? (before ++ tail) = some before :=
  List.isSuffixOf?_eq_some_iff_append_eq.mpr rfl

theorem isPrefixOf?_eq_none_iff_isPrefixOf {lead text : List Char} :
    lead.isPrefixOf? text = none ↔ lead.isPrefixOf text = false := by
  rw [← List.isSome_isPrefixOf?_eq_isPrefixOf, Option.isSome_eq_false_iff,
    Option.isNone_iff_eq_none]

theorem isPrefixOf?_eq_none_iff {lead text : List Char} :
    lead.isPrefixOf? text = none ↔ ¬ lead <+: text := by
  rw [isPrefixOf?_eq_none_iff_isPrefixOf, ← List.isPrefixOf_iff_prefix, Bool.not_eq_true]

/-! ## The first mark -/

private theorem dropPrefix?_eq_isPrefixOf? (lead text : List Char) :
    text.dropPrefix? lead = lead.isPrefixOf? text := by
  ext rest
  simp only [List.dropPrefix?_eq_some_iff, List.isPrefixOf?_eq_some_iff_append_eq, beq_iff_eq,
    exists_eq_right]
  exact eq_comm

private theorem dropInfix?_go_eq (mark text passed : List Char) :
    List.dropInfix?.go mark text passed =
      (cut mark text).map fun (before, after) => (passed.reverse ++ before, after) := by
  induction text generalizing passed with
  | nil => cases mark <;> simp [List.dropInfix?.go, cut]
  | cons character rest inductionHypothesis =>
      rw [List.dropInfix?.go, cut, dropPrefix?_eq_isPrefixOf?]
      cases mark.isPrefixOf? (character :: rest) with
      | some after => simp
      | none => simp [inductionHypothesis, Function.comp_def]

private theorem cut_eq_dropInfix? (mark text : List Char) :
    cut mark text = text.dropInfix? mark := by
  rw [List.dropInfix?, dropInfix?_go_eq]
  simp

/-- What a cut gives is put together to the text, and no part before a mark is shorter. -/
theorem cut_eq_some_iff {mark text before after : List Char} :
    cut mark text = some (before, after) ↔
      text = before ++ mark ++ after ∧
        ∀ other rest, text = other ++ mark ++ rest → before.length ≤ other.length := by
  simp only [cut_eq_dropInfix?, List.dropInfix?_eq_some_iff, beq_iff_eq, exists_eq_right]
  refine and_congr_right fun _ => ⟨fun shortest other rest textEq => ?_, ?_⟩
  · exact shortest other mark rest textEq rfl
  · rintro shortest other _ rest textEq rfl
    exact shortest other rest textEq

theorem eq_append_of_cut {mark text before after : List Char}
    (found : cut mark text = some (before, after)) : text = before ++ mark ++ after :=
  (cut_eq_some_iff.mp found).1

theorem cut_eq_none_iff {mark text : List Char} : cut mark text = none ↔ ¬ mark <:+: text := by
  induction text with
  | nil =>
      cases mark <;> simp [cut]
  | cons character rest inductionHypothesis =>
      rw [cut, List.infix_cons_iff, not_or, ← isPrefixOf?_eq_none_iff]
      cases mark.isPrefixOf? (character :: rest) with
      | some after => simp
      | none => simp [inductionHypothesis]

/-- No mark stands before the first one. -/
theorem not_infix_of_cut {mark text before after : List Char} (filled : mark ≠ [])
    (found : cut mark text = some (before, after)) : ¬ mark <:+: before := by
  rintro ⟨first, rest, rfl⟩
  obtain ⟨textEq, shortest⟩ := cut_eq_some_iff.mp found
  have longer := shortest first (rest ++ mark ++ after) (by simp [textEq])
  have markLength := List.length_pos_of_ne_nil filled
  simp only [List.length_append] at longer
  omega

@[simp]
theorem cut_append_self (mark rest : List Char) : cut mark (mark ++ rest) = some ([], rest) :=
  cut_eq_some_iff.mpr ⟨rfl, fun _ _ _ => Nat.zero_le _⟩

/-- A lead does not reach over a character that it does not contain. -/
theorem isPrefix_of_append_cons {lead text rest : List Char} {separator : Char}
    (apart : separator ∉ lead) (begins : lead <+: text ++ separator :: rest) : lead <+: text := by
  rcases List.prefix_or_prefix_of_prefix begins (List.prefix_append text _) with inText | longer
  · exact inText
  · obtain ⟨beyond, rfl⟩ := longer
    rw [List.prefix_append_right_inj] at begins
    cases beyond with
    | nil => simp
    | cons character others =>
        obtain rfl : character = separator := (List.cons_prefix_cons.mp begins).1
        simp at apart

/-- The first mark is searched after a character that no mark contains, when no mark stands before
that character. -/
theorem cut_append_cons {mark before : List Char} {separator : Char} (rest : List Char)
    (apart : separator ∉ mark) (absent : ¬ mark <:+: before) :
    cut mark (before ++ separator :: rest) =
      (cut mark rest).map fun (first, after) => (before ++ separator :: first, after) := by
  induction before with
  | nil =>
      have lead : mark.isPrefixOf? (separator :: rest) = none :=
        isPrefixOf?_eq_none_iff.mpr fun begins =>
          absent (@isPrefix_of_append_cons mark [] rest separator apart begins).isInfix
      simp [cut, lead]
  | cons character before inductionHypothesis =>
      rw [List.infix_cons_iff, not_or] at absent
      have lead : mark.isPrefixOf? (character :: (before ++ separator :: rest)) = none :=
        isPrefixOf?_eq_none_iff.mpr fun begins =>
          absent.1 (@isPrefix_of_append_cons mark (character :: before) rest separator apart begins)
      rw [List.cons_append, cut, lead, inductionHypothesis absent.2]
      cases cut mark rest <;> rfl

/-- A mark is the first one when its first character does not stand before it. -/
theorem cut_append_of_not_mem {first : Char} {mark before : List Char} (after : List Char)
    (absent : first ∉ before) :
    cut (first :: mark) (before ++ (first :: mark) ++ after) = some (before, after) := by
  induction before with
  | nil => exact cut_append_self _ _
  | cons character before inductionHypothesis =>
      obtain ⟨different, absentInRest⟩ := not_or.mp (List.mem_cons.not.mp absent)
      have lead : (first :: mark).isPrefixOf? (character :: (before ++ first :: mark ++ after)) =
          none := by
        simp [List.isPrefixOf?, different]
      rw [List.cons_append, List.cons_append, cut, lead, inductionHypothesis absentInRest]
      rfl

/-! ## The first character of a kind -/

theorem cutWhere_append_cons {test : Char → Bool} {before : List Char} {character : Char}
    (after : List Char) (fails : ∀ other ∈ before, test other = false)
    (holds : test character = true) :
    cutWhere test (before ++ character :: after) = some (before, after) := by
  induction before with
  | nil => simp [cutWhere, holds]
  | cons other before inductionHypothesis =>
      obtain ⟨failsHere, failsInRest⟩ := List.forall_mem_cons.mp fails
      simp [cutWhere, failsHere, inductionHypothesis failsInRest]

theorem cutWhere_eq_none {test : Char → Bool} {text : List Char}
    (fails : ∀ character ∈ text, test character = false) : cutWhere test text = none := by
  induction text with
  | nil => rfl
  | cons character rest inductionHypothesis =>
      obtain ⟨failsHere, failsInRest⟩ := List.forall_mem_cons.mp fails
      simp [cutWhere, failsHere, inductionHypothesis failsInRest]

end BranchingDialogue.Text

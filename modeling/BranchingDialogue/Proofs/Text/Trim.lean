import Mathlib.Data.List.DropRight
import BranchingDialogue.Text.Blank

/-! A text is trimmed when it has no blank at either end. Trimming gives such a text, and it leaves
such a text alone. -/

namespace BranchingDialogue.Text

-- What holds of all characters of a text is decided over the text, and never over the finitely many
-- characters there are.
instance (priority := 2000) decidableForallMem (text : List Char) (property : Char → Prop)
    [DecidablePred property] : Decidable (∀ character ∈ text, property character) :=
  List.decidableBAll property text

/-- Whether a text has nothing but blanks. -/
def AllBlank (text : List Char) : Prop :=
  ∀ character ∈ text, isBlank character = true

theorem allBlank_nil : AllBlank [] :=
  List.forall_mem_nil _

theorem allBlank_space : AllBlank [' '] :=
  List.forall_mem_singleton.mpr rfl

theorem ne_of_blank {blank mark : Char} (here : isBlank blank = true)
    (shown : isBlank mark = false) : blank ≠ mark := by
  rintro rfl
  rw [shown] at here
  cases here

theorem not_mem_of_blank {blanks : List Char} (allBlank : AllBlank blanks) {mark : Char}
    (shown : isBlank mark = false) : mark ∉ blanks :=
  fun member => ne_of_blank (allBlank mark member) shown rfl

/-- Whether a text has no blanks at its two ends. -/
def Trimmed (text : List Char) : Prop :=
  trim text = text

instance (text : List Char) : Decidable (Trimmed text) :=
  inferInstanceAs (Decidable (trim text = text))

/-! ## Ends of texts -/

private theorem trimEnd_eq_rdropWhile (text : List Char) :
    trimEnd text = text.rdropWhile isBlank :=
  rfl

theorem trimStart_eq_self {text : List Char}
    (shown : ∀ character, text.head? = some character → isBlank character = false) :
    trimStart text = text := by
  cases text with
  | nil => rfl
  | cons character rest => simp [trimStart, shown character rfl]

theorem trimEnd_eq_self {text : List Char}
    (shown : ∀ character, text.getLast? = some character → isBlank character = false) :
    trimEnd text = text := by
  rw [trimEnd_eq_rdropWhile, List.rdropWhile_eq_self_iff]
  intro notEmpty
  simp [shown _ (List.getLast?_eq_some_getLast notEmpty)]

theorem head?_trimStart (text : List Char) {character : Char}
    (first : (trimStart text).head? = some character) : isBlank character = false := by
  induction text with
  | nil => simp [trimStart] at first
  | cons head rest inductionHypothesis =>
      cases blank : isBlank head with
      | true =>
          simp only [trimStart, List.dropWhile_cons, blank] at first
          exact inductionHypothesis first
      | false =>
          simp only [trimStart, List.dropWhile_cons, blank] at first
          obtain rfl : head = character := by simpa using first
          exact blank

private theorem getLast?_trimEnd (text : List Char) {character : Char}
    (last : (trimEnd text).getLast? = some character) : isBlank character = false := by
  rw [trimEnd, List.getLast?_reverse] at last
  exact head?_trimStart text.reverse last

/-- Trimming at the end keeps what stands at the start. -/
theorem head?_trimEnd {text : List Char} {character : Char}
    (first : text.head? = some character) (shown : isBlank character = false) :
    (trimEnd text).head? = some character := by
  cases text with
  | nil => simp at first
  | cons head rest =>
      obtain rfl : head = character := by simpa using first
      have notEmpty : trimEnd (head :: rest) ≠ [] := by
        rw [trimEnd_eq_rdropWhile, ne_eq, List.rdropWhile_eq_nil_iff]
        intro allBlank
        simp [allBlank head List.mem_cons_self] at shown
      obtain ⟨rest', equality⟩ := List.rdropWhile_prefix isBlank (l := head :: rest)
      rw [trimEnd_eq_rdropWhile] at notEmpty ⊢
      cases found : (head :: rest).rdropWhile isBlank with
      | nil => exact absurd found notEmpty
      | cons other others =>
          rw [found, List.cons_append, List.cons.injEq] at equality
          rw [equality.1]
          rfl

private theorem head?_trim (text : List Char) {character : Char}
    (first : (trim text).head? = some character) : isBlank character = false := by
  cases start : trimStart text with
  | nil => simp [trim, start, trimEnd] at first
  | cons head rest =>
      have shown : isBlank head = false := head?_trimStart text (by rw [start]; rfl)
      have kept : (trim text).head? = some head := by
        rw [trim]
        exact head?_trimEnd (by rw [start]; rfl) shown
      rw [kept] at first
      obtain rfl : head = character := by simpa using first
      exact shown

private theorem getLast?_trim (text : List Char) {character : Char}
    (last : (trim text).getLast? = some character) : isBlank character = false :=
  getLast?_trimEnd (trimStart text) last

/-! ## Trimmed texts -/

theorem trimmed_of_ends {text : List Char}
    (first : ∀ character, text.head? = some character → isBlank character = false)
    (last : ∀ character, text.getLast? = some character → isBlank character = false) :
    Trimmed text := by
  rw [Trimmed, trim, trimStart_eq_self first, trimEnd_eq_self last]

theorem trimmed_of_forall {text : List Char}
    (shown : ∀ character ∈ text, isBlank character = false) : Trimmed text :=
  trimmed_of_ends (fun character first => shown character (List.mem_of_head? first))
    (fun character last => shown character (List.mem_of_getLast? last))

theorem trimmed_trim (text : List Char) : Trimmed (trim text) :=
  trimmed_of_ends (fun _ => head?_trim text) (fun _ => getLast?_trim text)

namespace Trimmed

theorem head_shown {text : List Char} (trimmed : Trimmed text) {character : Char}
    (first : text.head? = some character) : isBlank character = false :=
  head?_trim text (trimmed.symm ▸ first)

theorem last_shown {text : List Char} (trimmed : Trimmed text) {character : Char}
    (last : text.getLast? = some character) : isBlank character = false :=
  getLast?_trim text (trimmed.symm ▸ last)

theorem trim_eq {text : List Char} (trimmed : Trimmed text) : trim text = text :=
  trimmed

private theorem trimEnd_eq {text : List Char} (trimmed : Trimmed text) : trimEnd text = text :=
  trimEnd_eq_self fun _ => trimmed.last_shown

/-- A text that starts like one trimmed text and ends like another is trimmed. -/
theorem append {first last : List Char} (firstTrimmed : Trimmed first)
    (firstFilled : first ≠ []) (lastTrimmed : Trimmed last) (lastFilled : last ≠ [])
    (middle : List Char) : Trimmed (first ++ middle ++ last) := by
  refine trimmed_of_ends (fun character starts => ?_) (fun character ends => ?_)
  · obtain ⟨head, rest, rfl⟩ := List.exists_cons_of_ne_nil firstFilled
    exact firstTrimmed.head_shown (by simpa using starts)
  · rw [List.getLast?_append_of_ne_nil _ lastFilled] at ends
    exact lastTrimmed.last_shown ends

/-- No blanks stand at the end of a trimmed text. -/
theorem eq_nil_of_append {text blanks : List Char} (trimmed : Trimmed (text ++ blanks))
    (allBlank : AllBlank blanks) : blanks = [] := by
  by_contra filled
  have last := List.getLast?_eq_some_getLast filled
  have blank := allBlank _ (List.mem_of_getLast? last)
  have shown := trimmed.last_shown (by rw [List.getLast?_append_of_ne_nil _ filled, last])
  exact ne_of_blank blank shown rfl

end Trimmed

@[simp]
theorem trimmed_nil : Trimmed [] :=
  rfl

/-! ## Trimming away blanks -/

theorem trimStart_append_of_blank {blanks text : List Char}
    (allBlank : ∀ character ∈ blanks, isBlank character = true) :
    trimStart (blanks ++ text) = trimStart text :=
  List.dropWhile_append_of_pos allBlank

theorem trimStart_append_of_head? {blanks text : List Char} (allBlank : AllBlank blanks)
    (shown : ∀ character, text.head? = some character → isBlank character = false) :
    trimStart (blanks ++ text) = text := by
  rw [trimStart_append_of_blank allBlank, trimStart_eq_self shown]

theorem trim_append_of_blank {blanks text : List Char}
    (allBlank : ∀ character ∈ blanks, isBlank character = true) :
    trim (blanks ++ text) = trim text := by
  rw [trim, trimStart_append_of_blank allBlank, trim]

@[simp]
theorem trimStart_space_cons (text : List Char) : trimStart (' ' :: text) = trimStart text :=
  @trimStart_append_of_blank [' '] text (by decide)

@[simp]
theorem trim_space_cons (text : List Char) : trim (' ' :: text) = trim text :=
  @trim_append_of_blank [' '] text (by decide)

theorem trim_append_space {text : List Char} (trimmed : Trimmed text) (filled : text ≠ []) :
    trim (text ++ [' ']) = text := by
  obtain ⟨character, rest, rfl⟩ := List.exists_cons_of_ne_nil filled
  have shown : isBlank character = false := trimmed.head_shown rfl
  have start : trimStart (character :: rest ++ [' ']) = character :: rest ++ [' '] :=
    trimStart_eq_self (by rintro _ ⟨⟩; exact shown)
  have last : trimEnd (character :: rest ++ [' ']) = trimEnd (character :: rest) := by
    have space : isBlank ' ' = true := rfl
    rw [trimEnd_eq_rdropWhile, List.rdropWhile_concat_pos _ _ _ space]
    rfl
  rw [trim, start, last, trimmed.trimEnd_eq]

/-- Blanks at the end do not reach over another character. -/
theorem trimEnd_append_cons {character : Char} (shown : isBlank character = false)
    (before after : List Char) :
    trimEnd (before ++ character :: after) = before ++ trimEnd (character :: after) := by
  have kept : ((character :: after).reverse.dropWhile isBlank).isEmpty = false := by
    rw [List.isEmpty_eq_false_iff, ne_eq, List.dropWhile_eq_nil_iff]
    intro allBlank
    rw [allBlank character (by simp)] at shown
    cases shown
  unfold trimEnd
  rw [List.reverse_append, List.dropWhile_append, kept]
  simp

theorem trim_eq_nil_iff {text : List Char} :
    trim text = [] ↔ ∀ character ∈ text, isBlank character = true := by
  constructor
  · intro empty character member
    rw [trim, trimEnd_eq_rdropWhile, List.rdropWhile_eq_nil_iff] at empty
    have split : text = text.takeWhile isBlank ++ trimStart text :=
      List.takeWhile_append_dropWhile.symm
    rw [split] at member
    rcases List.mem_append.mp member with inBlanks | inRest
    · exact List.mem_takeWhile_imp inBlanks
    · exact empty character inRest
  · intro allBlank
    rw [← List.append_nil text, trim_append_of_blank allBlank]
    rfl

private theorem trimEnd_append_of_blank {text blanks : List Char} (allBlank : AllBlank blanks) :
    trimEnd (text ++ blanks) = trimEnd text := by
  have reversed : ∀ character ∈ blanks.reverse, isBlank character = true :=
    fun character member => allBlank character (List.mem_reverse.mp member)
  rw [trimEnd, List.reverse_append, List.dropWhile_append_of_pos reversed, trimEnd]

theorem trim_append_blank {text blanks : List Char} (allBlank : AllBlank blanks) :
    trim (text ++ blanks) = trim text := by
  by_cases textBlank : AllBlank text
  · have bothBlank : AllBlank (text ++ blanks) := List.forall_mem_append.mpr ⟨textBlank, allBlank⟩
    rw [trim_eq_nil_iff.mpr textBlank, trim_eq_nil_iff.mpr bothBlank]
  · have shown : (trimStart text).isEmpty = false := by
      rw [List.isEmpty_eq_false_iff, trimStart, ne_eq, List.dropWhile_eq_nil_iff]
      exact textBlank
    have start : trimStart (text ++ blanks) = trimStart text ++ blanks := by
      rw [trimStart] at shown
      rw [trimStart, List.dropWhile_append, shown]
      rfl
    rw [trim, start, trimEnd_append_of_blank allBlank, trim]

theorem exists_eq_append_trimStart (text : List Char) :
    ∃ blanks, text = blanks ++ trimStart text ∧
      ∀ character ∈ blanks, isBlank character = true :=
  ⟨text.takeWhile isBlank, List.takeWhile_append_dropWhile.symm,
    fun _ member => List.mem_takeWhile_imp member⟩

/-- A text is its trimmed part between blanks. -/
theorem exists_eq_append_trim (text : List Char) :
    ∃ before after, text = before ++ trim text ++ after ∧
      (∀ character ∈ before, isBlank character = true) ∧
      ∀ character ∈ after, isBlank character = true := by
  refine ⟨text.takeWhile isBlank, (trimStart text).rtakeWhile isBlank, ?_, ?_, ?_⟩
  · rw [List.append_assoc, trim, trimEnd_eq_rdropWhile, List.rdropWhile_append_rtakeWhile]
    exact List.takeWhile_append_dropWhile.symm
  · exact fun character member => List.mem_takeWhile_imp member
  · exact fun character member => List.mem_rtakeWhile_imp member

/-- Trimming keeps a last character that is not blank. -/
theorem getLast?_trim_append {character : Char} (shown : isBlank character = false)
    (text : List Char) : (trim (text ++ [character])).getLast? = some character := by
  obtain ⟨before, after, equality, beforeBlank, afterBlank⟩ :=
    exists_eq_append_trim (text ++ [character])
  have last : (before ++ trim (text ++ [character]) ++ after).getLast? = some character := by
    rw [← equality]
    simp
  cases afterEnd : after.getLast? with
  | some other =>
      have same : other = character := by simpa [List.getLast?_append, afterEnd] using last
      have blank := afterBlank other (List.mem_of_getLast? afterEnd)
      exact absurd same (ne_of_blank blank shown)
  | none =>
      cases trimEnd : (trim (text ++ [character])).getLast? with
      | some other => simpa [List.getLast?_append, afterEnd, trimEnd] using last
      | none =>
          have inBefore : before.getLast? = some character := by
            simpa [List.getLast?_append, afterEnd, trimEnd] using last
          have blank := beforeBlank character (List.mem_of_getLast? inBefore)
          exact absurd rfl (ne_of_blank blank shown)

theorem mem_of_mem_trim {text : List Char} {character : Char}
    (member : character ∈ trim text) : character ∈ text := by
  obtain ⟨before, after, equality, _, _⟩ := exists_eq_append_trim text
  rw [equality]
  simp [member]

end BranchingDialogue.Text

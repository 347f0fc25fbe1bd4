import Mathlib.Data.List.Induction
import BranchingDialogue.Text.Escape

/-! A text whose marked characters are escaped, the backslash among them, reads back unchanged. More
characters may be marked for the reader than for the writer. -/

namespace BranchingDialogue.Text

variable {written marks : List Char}

theorem escape_cons (character : Char) (text : List Char) :
    escape written (character :: text) =
      (if character ∈ written then ['\\', character] else [character]) ++ escape written text :=
  rfl

theorem escape_append (first second : List Char) :
    escape written (first ++ second) = escape written first ++ escape written second :=
  List.flatMap_append

theorem unescape_cons {character : Char} (plain : character ≠ '\\') (text : List Char) :
    unescape marks (character :: text) = character :: unescape marks text := by
  cases text <;> simp [unescape, plain]

theorem unescape_append {front : List Char} (plain : '\\' ∉ front) (text : List Char) :
    unescape marks (front ++ text) = front ++ unescape marks text := by
  induction front with
  | nil => rfl
  | cons character front inductionHypothesis =>
      obtain ⟨different, absent⟩ := not_or.mp (List.mem_cons.not.mp plain)
      have notBackslash : character ≠ '\\' := fun equality => different equality.symm
      rw [List.cons_append, unescape_cons notBackslash, inductionHypothesis absent,
        List.cons_append]

/-- A text that does not end in a backslash is unescaped by itself, whatever follows. -/
theorem unescape_append_of_getLast? {front : List Char} (closed : front.getLast? ≠ some '\\')
    (text : List Char) :
    unescape marks (front ++ text) = unescape marks front ++ unescape marks text := by
  have restClosed {first : Char} {rest : List Char}
      (wholeClosed : (first :: rest).getLast? ≠ some '\\') : rest.getLast? ≠ some '\\' := by
    intro last
    rw [List.getLast?_cons, last] at wholeClosed
    exact wholeClosed rfl
  induction front using unescape.induct marks with
  | case1 => rfl
  | case2 character rest marked inductionHypothesis =>
      simp [unescape, marked, inductionHypothesis (restClosed (restClosed closed))]
  | case3 character rest unmarked inductionHypothesis =>
      simp [unescape, unmarked, inductionHypothesis (restClosed (restClosed closed))]
  | case4 character rest alone inductionHypothesis =>
      have plain : character ≠ '\\' := by
        rintro rfl
        cases rest with
        | nil => exact closed rfl
        | cons second others => exact alone second others rfl rfl
      rw [List.cons_append, unescape_cons plain, unescape_cons plain,
        inductionHypothesis (restClosed closed), List.cons_append]

theorem unescape_backslash_cons {character : Char} (marked : character ∈ marks)
    (text : List Char) :
    unescape marks ('\\' :: character :: text) = character :: unescape marks text := by
  simp [unescape, marked]

/-- The written form of a text reads back before any other text. -/
theorem unescape_escape_append (backslash : '\\' ∈ written) (subset : written ⊆ marks)
    (text rest : List Char) :
    unescape marks (escape written text ++ rest) = text ++ unescape marks rest := by
  induction text with
  | nil => rfl
  | cons character text inductionHypothesis =>
      rw [escape_cons, List.append_assoc]
      by_cases marked : character ∈ written
      · simp only [marked, if_true, List.cons_append, List.nil_append,
          unescape_backslash_cons (subset marked), inductionHypothesis]
      · have plain : character ≠ '\\' := fun equality => marked (equality ▸ backslash)
        simp only [marked, if_false, List.cons_append, List.nil_append, unescape_cons plain,
          inductionHypothesis]

theorem unescape_escape (backslash : '\\' ∈ written) (subset : written ⊆ marks)
    (text : List Char) : unescape marks (escape written text) = text := by
  simpa [unescape] using unescape_escape_append backslash subset text []

/-- An escaped text has a character that is not escaped where the text itself has it. -/
theorem exists_of_escape_eq_append_cons {text before after : List Char} {character : Char}
    (plain : character ≠ '\\') (unmarked : character ∉ written)
    (equality : escape written text = before ++ character :: after) :
    ∃ first second, text = first ++ character :: second ∧ before = escape written first ∧
      after = escape written second := by
  induction text generalizing before with
  | nil => simp [escape] at equality
  | cons head text inductionHypothesis =>
      rw [escape_cons] at equality
      by_cases marked : head ∈ written
      · have different : head ≠ character := fun same => unmarked (same ▸ marked)
        simp only [marked, if_true, List.cons_append, List.nil_append] at equality
        match before with
        | [] => exact absurd (List.cons.inj equality).1.symm plain
        | [_] => exact absurd (List.cons.inj (List.cons.inj equality).2).1 different
        | first :: second :: others =>
            obtain ⟨rfl, rfl, inRest⟩ := by simpa using equality
            obtain ⟨left, right, rfl, rfl, rfl⟩ := inductionHypothesis inRest
            exact ⟨head :: left, right, rfl, by simp [escape_cons, marked], rfl⟩
      · simp only [marked, if_false, List.cons_append, List.nil_append] at equality
        match before with
        | [] =>
            obtain ⟨rfl, rfl⟩ := List.cons.inj equality
            exact ⟨[], text, rfl, rfl, rfl⟩
        | first :: others =>
            obtain ⟨rfl, inRest⟩ := List.cons.inj equality
            obtain ⟨left, right, rfl, rfl, rfl⟩ := inductionHypothesis inRest
            exact ⟨head :: left, right, rfl, by simp [escape_cons, marked], rfl⟩

theorem escape_eq_nil_iff {text : List Char} : escape written text = [] ↔ text = [] := by
  cases text with
  | nil => simp [escape]
  | cons character rest => by_cases marked : character ∈ written <;> simp [escape_cons, marked]

theorem head?_escape (text : List Char) :
    (escape written text).head? =
      text.head?.map fun character => if character ∈ written then '\\' else character := by
  cases text with
  | nil => rfl
  | cons character rest => by_cases marked : character ∈ written <;> simp [escape_cons, marked]

theorem getLast?_escape (text : List Char) :
    (escape written text).getLast? = text.getLast? := by
  cases text using List.reverseRecOn with
  | nil => rfl
  | append_singleton first last =>
      by_cases marked : last ∈ written <;> simp [escape, marked]

theorem mem_escape {text : List Char} {character : Char} (plain : character ≠ '\\') :
    character ∈ escape written text ↔ character ∈ text := by
  induction text with
  | nil => rfl
  | cons head text inductionHypothesis =>
      by_cases marked : head ∈ written <;>
        simp [escape_cons, marked, plain, inductionHypothesis]

/-! ## Unescaped texts -/

theorem unescape_eq_nil_iff {text : List Char} : unescape marks text = [] ↔ text = [] := by
  fun_cases unescape marks text <;> simp_all

theorem getLast?_unescape (text : List Char) : (unescape marks text).getLast? = text.getLast? := by
  induction text using unescape.induct marks with
  | case1 => rfl
  | case2 character rest marked inductionHypothesis =>
      rw [unescape_backslash_cons marked, List.getLast?_cons, inductionHypothesis,
        List.getLast?_cons_cons, List.getLast?_cons]
  | case3 character rest unmarked inductionHypothesis =>
      rw [unescape, if_neg unmarked, List.getLast?_cons_cons, List.getLast?_cons,
        inductionHypothesis, List.getLast?_cons_cons, List.getLast?_cons]
  | case4 character rest alone inductionHypothesis =>
      rw [unescape.eq_3 _ _ _ alone, List.getLast?_cons, inductionHypothesis, List.getLast?_cons]

theorem head?_unescape {text : List Char} {character : Char}
    (first : (unescape marks text).head? = some character) :
    character ∈ marks ∨ text.head? = some character := by
  fun_cases unescape marks text with
  | case1 => cases first
  | case2 other rest marked =>
      rw [unescape_backslash_cons marked] at first
      cases first
      exact Or.inl marked
  | case3 other rest unmarked =>
      rw [unescape, if_neg unmarked] at first
      exact Or.inr first
  | case4 other rest alone =>
      rw [unescape.eq_3 _ _ _ alone] at first
      exact Or.inr first

theorem mem_of_mem_unescape {text : List Char} {character : Char}
    (member : character ∈ unescape marks text) : character ∈ text := by
  induction text using unescape.induct marks with
  | case1 => cases member
  | case2 other rest marked inductionHypothesis =>
      rw [unescape_backslash_cons marked] at member
      rcases List.mem_cons.mp member with rfl | inRest
      · simp
      · simp [inductionHypothesis inRest]
  | case3 other rest unmarked inductionHypothesis =>
      rw [unescape, if_neg unmarked] at member
      rcases List.mem_cons.mp member with rfl | inOthers
      · simp
      · rcases List.mem_cons.mp inOthers with rfl | inRest
        · simp
        · simp [inductionHypothesis inRest]
  | case4 other rest alone inductionHypothesis =>
      rw [unescape.eq_3 _ _ _ alone] at member
      rcases List.mem_cons.mp member with rfl | inRest
      · simp
      · simp [inductionHypothesis inRest]

/-- A character that needs no escape stands for itself only. -/
theorem exists_of_unescape_eq_cons {text rest : List Char} {character : Char}
    (unmarked : character ∉ marks) (plain : character ≠ '\\')
    (undone : unescape marks text = character :: rest) :
    ∃ others, text = character :: others ∧ unescape marks others = rest := by
  fun_cases unescape marks text with
  | case1 => cases undone
  | case2 other others marked =>
      rw [unescape_backslash_cons marked] at undone
      cases undone
      exact absurd marked unmarked
  | case3 other others otherUnmarked =>
      rw [unescape, if_neg otherUnmarked] at undone
      cases undone
      exact absurd rfl plain
  | case4 other others alone =>
      rw [unescape.eq_3 _ _ _ alone] at undone
      cases undone
      exact ⟨others, rfl, rfl⟩

/-- A text stands for one with a beginning that needs no escapes only if it begins so itself. -/
theorem exists_of_unescape_eq_append {lead text rest : List Char}
    (unmarked : ∀ character ∈ lead, character ∉ marks ∧ character ≠ '\\')
    (undone : unescape marks text = lead ++ rest) :
    ∃ others, text = lead ++ others ∧ unescape marks others = rest := by
  induction lead generalizing text with
  | nil => exact ⟨text, rfl, undone⟩
  | cons character lead inductionHypothesis =>
      obtain ⟨⟨noMark, plain⟩, othersUnmarked⟩ := List.forall_mem_cons.mp unmarked
      obtain ⟨middle, rfl, middleEq⟩ := exists_of_unescape_eq_cons noMark plain undone
      obtain ⟨others, rfl, othersEq⟩ := inductionHypothesis othersUnmarked middleEq
      exact ⟨others, rfl, othersEq⟩

end BranchingDialogue.Text

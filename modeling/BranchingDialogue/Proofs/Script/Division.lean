import BranchingDialogue.Proofs.Script.Expression

/-! An expression is taken from left to right. A whole literal between double quotes stays in its
term, and every other conjunction divides terms. -/

namespace BranchingDialogue.Script

open Text

/-! ## Conjunctions -/

/-- The conjunctions, with the blanks that belong to them. -/
inductive Conjunction : List Char → Prop
  | word {before after} (beforeBlank : AllBlank before) (beforeFilled : before ≠ [])
      (afterBlank : AllBlank after) (afterFilled : after ≠ []) :
      Conjunction (before ++ ("and".toList ++ after))
  | sign {before after} (beforeBlank : AllBlank before) (afterBlank : AllBlank after) :
      Conjunction (before ++ ("&&".toList ++ after))

def BeginsShown (text : List Char) : Prop :=
  ∀ character, text.head? = some character → isBlank character = false

private theorem takeWhile_isBlank {blanks text : List Char} (allBlank : AllBlank blanks)
    (shown : BeginsShown text) : (blanks ++ text).takeWhile isBlank = blanks := by
  rw [List.takeWhile_append_of_pos allBlank]
  cases text with
  | nil => simp
  | cons character rest => simp [shown character rfl]

/-- The size of the conjunction that a text begins with behind a number of blanks. -/
def sizeBehind (before : Nat) : List Char → Nat
  | 'a' :: 'n' :: 'd' :: rest =>
      let after := (rest.takeWhile isBlank).length
      if before = 0 || after = 0 then 0 else before + 3 + after
  | '&' :: '&' :: rest => before + 2 + (rest.takeWhile isBlank).length
  | _ => 0

private theorem conjunctionSize_append {blanks text : List Char} (allBlank : AllBlank blanks)
    (shown : BeginsShown text) :
    conjunctionSize (blanks ++ text) = sizeBehind blanks.length text := by
  have size : conjunctionSize (blanks ++ text) =
      sizeBehind ((blanks ++ text).takeWhile isBlank).length
        ((blanks ++ text).drop ((blanks ++ text).takeWhile isBlank).length) := rfl
  rw [size, takeWhile_isBlank allBlank shown, List.drop_left]

/-- A conjunction that no blank follows is found in its whole length. -/
theorem Conjunction.conjunctionSize_eq {mark : List Char} (conjunction : Conjunction mark)
    {rest : List Char} (shown : BeginsShown rest) : conjunctionSize (mark ++ rest) = mark.length := by
  cases conjunction with
  | @word before after beforeBlank beforeFilled afterBlank afterFilled =>
      rw [List.append_assoc, List.append_assoc, conjunctionSize_append beforeBlank
        (by rintro _ ⟨⟩; rfl)]
      simp [sizeBehind, takeWhile_isBlank afterBlank shown, beforeFilled, afterFilled]
      omega
  | @sign before after beforeBlank afterBlank =>
      rw [List.append_assoc, List.append_assoc, conjunctionSize_append beforeBlank
        (by rintro _ ⟨⟩; rfl)]
      simp [sizeBehind, takeWhile_isBlank afterBlank shown]
      omega

private theorem exists_of_conjunctionSize {text : List Char} (found : conjunctionSize text ≠ 0) :
    ∃ mark rest, Conjunction mark ∧ BeginsShown rest ∧ text = mark ++ rest := by
  obtain ⟨before, split, beforeBlank⟩ := exists_eq_append_trimStart text
  have shown : BeginsShown (trimStart text) := fun _ => head?_trimStart text
  rw [split, conjunctionSize_append beforeBlank shown] at found
  rw [split]
  generalize trimStart text = behind at found
  unfold sizeBehind at found
  split at found
  · rename_i rest
    obtain ⟨after, restEq, afterBlank⟩ := exists_eq_append_trimStart rest
    have restShown : BeginsShown (trimStart rest) := fun _ => head?_trimStart rest
    have blanks : rest.takeWhile isBlank = after := by
      rw [restEq]
      exact takeWhile_isBlank afterBlank restShown
    obtain ⟨beforeFilled, afterFilled⟩ : before ≠ [] ∧ after ≠ [] := by
      rw [blanks] at found
      simpa [not_or] using found
    refine ⟨_, trimStart rest, .word beforeBlank beforeFilled afterBlank afterFilled, restShown, ?_⟩
    conv_lhs => rw [restEq]
    simp
  · rename_i rest
    obtain ⟨after, restEq, afterBlank⟩ := exists_eq_append_trimStart rest
    refine ⟨_, trimStart rest, .sign beforeBlank afterBlank, fun _ => head?_trimStart rest, ?_⟩
    conv_lhs => rw [restEq]
    simp
  · exact absurd rfl found

private theorem Conjunction.append_blank {mark blanks : List Char} (conjunction : Conjunction mark)
    (allBlank : AllBlank blanks) : Conjunction (mark ++ blanks) := by
  cases conjunction with
  | word beforeBlank beforeFilled afterBlank afterFilled =>
      rw [List.append_assoc, List.append_assoc]
      exact .word beforeBlank beforeFilled (List.forall_mem_append.mpr ⟨afterBlank, allBlank⟩)
        (by simp [afterFilled])
  | sign beforeBlank afterBlank =>
      rw [List.append_assoc, List.append_assoc]
      exact .sign beforeBlank (List.forall_mem_append.mpr ⟨afterBlank, allBlank⟩)

theorem Conjunction.filled {mark : List Char} (conjunction : Conjunction mark) : mark ≠ [] := by
  cases conjunction <;> simp

private theorem conjunctionSize_eq_zero_iff {text : List Char} :
    conjunctionSize text = 0 ↔ ∀ mark, Conjunction mark → ¬ mark <+: text := by
  constructor
  · rintro none mark conjunction ⟨rest, rfl⟩
    obtain ⟨blanks, split, allBlank⟩ := exists_eq_append_trimStart rest
    have size := (conjunction.append_blank allBlank).conjunctionSize_eq
      (fun _ => head?_trimStart rest)
    rw [List.append_assoc, ← split, none, List.length_append] at size
    exact conjunction.filled (List.eq_nil_of_length_eq_zero (by omega))
  · intro none
    by_contra found
    obtain ⟨mark, rest, conjunction, -, rfl⟩ := exists_of_conjunctionSize found
    exact none mark conjunction (List.prefix_append mark rest)

/-! ## Quoted literals -/

/-- Whether a text begins with a whole literal between double quotes. -/
def BeginsQuoted (text : List Char) : Prop :=
  ∃ inner rest, QuotedText inner ∧ text = '"' :: inner ++ '"' :: rest

private theorem exists_of_quotedTail {text : List Char} {size : Nat}
    (found : quotedTail text = some size) :
    ∃ inner rest, QuotedText inner ∧ text = inner ++ '"' :: rest := by
  induction text using quotedTail.induct generalizing size with
  | case1 | case3 => cases found
  | case2 rest => exact ⟨[], rest, .empty, rfl⟩
  | case4 rest => simp [quotedTail] at found
  | case5 character rest notFeed inductionHypothesis =>
      rw [quotedTail_backslash notFeed] at found
      obtain ⟨inside, foundInside, -⟩ := Option.map_eq_some_iff.mp found
      obtain ⟨inner, after, quoted, rfl⟩ := inductionHypothesis foundInside
      exact ⟨_, after, .escaped notFeed quoted, rfl⟩
  | case6 character rest noQuote notAlone noEscape inductionHypothesis =>
      have noBackslash : character ≠ '\\' := by
        rintro rfl
        cases rest with
        | nil => exact notAlone rfl rfl
        | cons second others => exact noEscape second others rfl rfl
      rw [quotedTail_cons noBackslash noQuote] at found
      obtain ⟨inside, foundInside, -⟩ := Option.map_eq_some_iff.mp found
      obtain ⟨inner, after, quoted, rfl⟩ := inductionHypothesis foundInside
      exact ⟨_, after, .plain noBackslash noQuote quoted, rfl⟩

private theorem quotedSize_eq_zero_iff {text : List Char} :
    quotedSize text = 0 ↔ ¬ BeginsQuoted text := by
  constructor
  · rintro none ⟨inner, rest, quoted, rfl⟩
    simp [quotedSize, quoted.quotedTail_append] at none
  · intro none
    unfold quotedSize
    split
    · rename_i rest
      cases found : quotedTail rest with
      | none => rfl
      | some size =>
          obtain ⟨inner, after, quoted, rfl⟩ := exists_of_quotedTail found
          exact absurd ⟨inner, after, quoted, rfl⟩ none
    · rfl

/-! ## Division into terms -/

/-- The terms that a text is divided into: it is taken from left to right, a quoted literal stays in
its term as a whole, and every other conjunction divides terms, with all blanks around it. -/
inductive Divided : List Char → List (List Char) → Prop
  | last : Divided [] [[]]
  | quoted {inner rest first others} (literal : QuotedText inner)
      (divided : Divided rest (first :: others)) :
      Divided ('"' :: inner ++ '"' :: rest) (('"' :: inner ++ '"' :: first) :: others)
  | plain {character rest first others} (noLiteral : ¬ BeginsQuoted (character :: rest))
      (noConjunction : ∀ mark, Conjunction mark → ¬ mark <+: character :: rest)
      (divided : Divided rest (first :: others)) :
      Divided (character :: rest) ((character :: first) :: others)
  | conjunction {mark rest terms} (conjunction : Conjunction mark) (shown : BeginsShown rest)
      (divided : Divided rest terms) : Divided (mark ++ rest) ([] :: terms)

/-- The characters that belong to a conjunction are passed over. -/
theorem splitTermsFrom_dropped (dropped rest : List Char) :
    splitTermsFrom 0 dropped.length (dropped ++ rest) = splitTermsFrom 0 0 rest := by
  induction dropped with
  | nil => rfl
  | cons character dropped inductionHypothesis =>
      rw [List.length_cons, List.cons_append, splitTermsFrom, inductionHypothesis]

private theorem splitTermsFrom_conjunction {mark rest : List Char} (conjunction : Conjunction mark)
    (shown : BeginsShown rest) :
    splitTermsFrom 0 0 (mark ++ rest) = [] :: splitTermsFrom 0 0 rest := by
  obtain ⟨character, others, rfl⟩ := List.exists_cons_of_ne_nil conjunction.filled
  have noQuote : character ≠ '"' := by
    rintro rfl
    generalize equality : '"' :: others = whole at conjunction
    cases conjunction with
    | @word before after beforeBlank beforeFilled _ _ =>
        obtain ⟨blank, blanks, rfl⟩ := List.exists_cons_of_ne_nil beforeFilled
        cases equality
        cases beforeBlank '"' List.mem_cons_self
    | @sign before after beforeBlank _ =>
        cases before with
        | nil => cases equality
        | cons blank blanks =>
            cases equality
            cases beforeBlank '"' List.mem_cons_self
  have size := conjunction.conjunctionSize_eq shown
  rw [List.cons_append] at size ⊢
  rw [splitTermsFrom, quotedSize_cons noQuote, size, List.length_cons]
  exact congrArg ([] :: ·) (splitTermsFrom_dropped others rest)

theorem splitTerms_of_divided {text : List Char} {terms : List (List Char)}
    (divided : Divided text terms) : splitTerms text = terms := by
  unfold splitTerms
  induction divided with
  | last => rfl
  | quoted literal _ inductionHypothesis =>
      have taken := literal.whole _ _ _ inductionHypothesis
      simpa using taken
  | plain noLiteral noConjunction _ inductionHypothesis =>
      rw [splitTermsFrom, quotedSize_eq_zero_iff.mpr noLiteral,
        conjunctionSize_eq_zero_iff.mpr noConjunction, inductionHypothesis]
      rfl
  | conjunction conjunction shown _ inductionHypothesis =>
      rw [splitTermsFrom_conjunction conjunction shown, inductionHypothesis]

theorem exists_divided (text : List Char) :
    ∃ first others, Divided text (first :: others) := by
  by_cases literal : BeginsQuoted text
  · obtain ⟨inner, rest, quoted, rfl⟩ := literal
    obtain ⟨first, others, divided⟩ := exists_divided rest
    exact ⟨_, _, .quoted quoted divided⟩
  · by_cases found : conjunctionSize text = 0
    · cases text with
      | nil => exact ⟨[], [], .last⟩
      | cons character rest =>
          obtain ⟨first, others, divided⟩ := exists_divided rest
          exact ⟨_, _, .plain literal (conjunctionSize_eq_zero_iff.mp found) divided⟩
    · obtain ⟨mark, rest, conjunction, shown, rfl⟩ := exists_of_conjunctionSize found
      have shorter := List.length_pos_of_ne_nil conjunction.filled
      obtain ⟨first, others, divided⟩ := exists_divided rest
      exact ⟨[], first :: others, .conjunction conjunction shown divided⟩
termination_by text.length
decreasing_by all_goals (simp_all; try omega)

/-- The terms of an expression are those that it is divided into. -/
theorem divided_iff {text : List Char} {terms : List (List Char)} :
    Divided text terms ↔ splitTerms text = terms := by
  constructor
  · exact splitTerms_of_divided
  · rintro rfl
    obtain ⟨first, others, divided⟩ := exists_divided text
    rw [splitTerms_of_divided divided]
    exact divided

/-! ## Single terms -/

theorem Divided.filled {text : List Char} {terms : List (List Char)} (divided : Divided text terms) :
    terms ≠ [] := by
  cases divided <;> exact List.cons_ne_nil _ _

theorem Divided.eq_of_singleton {text only : List Char} (divided : Divided text [only]) :
    only = text := by
  generalize equality : [only] = terms at divided
  induction divided generalizing only with
  | last =>
      cases equality
      rfl
  | quoted _ _ inductionHypothesis =>
      cases equality
      rw [inductionHypothesis rfl]
  | plain _ _ _ inductionHypothesis =>
      cases equality
      rw [inductionHypothesis rfl]
  | conjunction _ _ divided _ =>
      cases equality
      exact absurd rfl divided.filled

/-- A text that is kept in one piece does not matter for the division of what follows it. -/
theorem Whole.divided_iff {front rest : List Char} (whole : Whole front) :
    Divided (front ++ rest) [front ++ rest] ↔ Divided rest [rest] := by
  obtain ⟨first, others, divided⟩ := exists_divided rest
  have split := splitTerms_of_divided divided
  have joined : splitTerms (front ++ rest) = (front ++ first) :: others := whole _ _ _ split
  rw [Script.divided_iff, Script.divided_iff, joined, split]
  simp

end BranchingDialogue.Script

import BranchingDialogue.Proofs.Text.Trim
import BranchingDialogue.Script.FlagName
import BranchingDialogue.Text.WordCharacter

/-! A flag name stands apart from what follows it in a script, because no character of the syntax
around it and no blank can be a part of it. -/

namespace BranchingDialogue.Script

open Text

def AllNamed (text : List Char) : Prop :=
  ∀ character ∈ text, isFlagCharacter character = true

theorem allNamed_nil : AllNamed [] :=
  List.forall_mem_nil _

theorem AllNamed.append {front back : List Char} (frontNamed : AllNamed front)
    (backNamed : AllNamed back) : AllNamed (front ++ back) :=
  List.forall_mem_append.mpr ⟨frontNamed, backNamed⟩

theorem isFlagName_iff {name : List Char} :
    isFlagName name = true ↔ name ≠ [] ∧ AllNamed name := by
  simp [isFlagName, AllNamed]

theorem flag_ne_nil {name : List Char} (isName : isFlagName name = true) : name ≠ [] :=
  (isFlagName_iff.mp isName).1

theorem isFlagCharacter_of_mem {name : List Char} (isName : isFlagName name = true)
    {character : Char} (member : character ∈ name) : isFlagCharacter character = true :=
  (isFlagName_iff.mp isName).2 character member

theorem shown_of_isFlagCharacter {character : Char} (allowed : isFlagCharacter character = true) :
    isBlank character = false := by
  simp only [isFlagCharacter, Bool.and_eq_true, Bool.not_eq_true'] at allowed
  exact allowed.1

theorem not_mem_flag {name : List Char} (isName : isFlagName name = true) {character : Char}
    (refused : isFlagCharacter character = false) : character ∉ name := by
  intro member
  rw [isFlagCharacter_of_mem isName member] at refused
  cases refused

theorem shown_dollar_flag {name : List Char} (isName : isFlagName name = true) :
    ∀ character ∈ '$' :: name, isBlank character = false := by
  intro character member
  rcases List.mem_cons.mp member with rfl | inName
  · rfl
  · exact shown_of_isFlagCharacter (isFlagCharacter_of_mem isName inName)

theorem trimmed_dollar_flag {name : List Char} (isName : isFlagName name = true) :
    Trimmed ('$' :: name) :=
  trimmed_of_forall (shown_dollar_flag isName)

theorem readFlag_cons {name : List Char} (isName : isFlagName name = true) :
    readFlag ('$' :: name) = some (String.ofList name) := by
  simp [readFlag, isName]

/-! ## Names in front -/

/-- The first way to divide a text puts the whole run of flag characters into the name. -/
theorem nameSplits_append {name rest : List Char} (isName : isFlagName name = true)
    (stops : ∀ character, rest.head? = some character → isFlagCharacter character = false) :
    ∃ others, nameSplits (name ++ rest) = (name, rest) :: others := by
  have run : (name ++ rest).takeWhile isFlagCharacter = name := by
    rw [List.takeWhile_append_of_pos fun _ => isFlagCharacter_of_mem isName]
    cases rest with
    | nil => simp
    | cons character rest => simp [stops character rfl]
  obtain ⟨size, length⟩ : ∃ size, name.length = size + 1 :=
    Nat.exists_eq_succ_of_ne_zero (by simpa using flag_ne_nil isName)
  unfold nameSplits
  rw [run, length, nameSplitsUpTo, ← length, List.take_left, List.drop_left]
  exact ⟨_, rfl⟩

private theorem mem_nameSplitsUpTo_iff {text name rest : List Char} {size : Nat} :
    (name, rest) ∈ nameSplitsUpTo text size ↔
      ∃ count, 0 < count ∧ count ≤ size ∧ name = text.take count ∧ rest = text.drop count := by
  induction size with
  | zero =>
      simp only [nameSplitsUpTo, List.not_mem_nil, false_iff]
      rintro ⟨count, positive, bound, -⟩
      exact absurd positive (Nat.not_lt.mpr bound)
  | succ size inductionHypothesis =>
      rw [nameSplitsUpTo, List.mem_cons, inductionHypothesis]
      constructor
      · rintro (here | ⟨count, positive, bound, parts⟩)
        · obtain ⟨nameEq, restEq⟩ := Prod.mk.inj here
          exact ⟨size + 1, Nat.succ_pos size, Nat.le_refl _, nameEq, restEq⟩
        · exact ⟨count, positive, Nat.le_succ_of_le bound, parts⟩
      · rintro ⟨count, positive, bound, rfl, rfl⟩
        rcases Nat.eq_or_lt_of_le bound with rfl | smaller
        · exact Or.inl rfl
        · exact Or.inr ⟨count, positive, Nat.le_of_lt_succ smaller, rfl, rfl⟩

/-- The ways to divide a text are those that put a flag name in front. -/
theorem mem_nameSplits_iff {text name rest : List Char} :
    (name, rest) ∈ nameSplits text ↔ isFlagName name = true ∧ text = name ++ rest := by
  rw [nameSplits, mem_nameSplitsUpTo_iff]
  constructor
  · rintro ⟨count, positive, bound, rfl, rfl⟩
    have taken : text.take count = (text.takeWhile isFlagCharacter).take count := by
      conv_lhs => rw [← List.takeWhile_append_dropWhile (p := isFlagCharacter) (l := text)]
      exact List.take_append_of_le_length bound
    have filled : text.take count ≠ [] := by
      intro empty
      have size : (text.take count).length = count := by
        rw [taken, List.length_take, Nat.min_eq_left bound]
      rw [empty] at size
      exact absurd positive (by simp [← size])
    have allowed : AllNamed (text.take count) := by
      intro character member
      rw [taken] at member
      exact List.mem_takeWhile_imp (List.mem_of_mem_take member)
    exact ⟨isFlagName_iff.mpr ⟨filled, allowed⟩, (List.take_append_drop count text).symm⟩
  · rintro ⟨isName, rfl⟩
    refine ⟨name.length, List.length_pos_of_ne_nil (flag_ne_nil isName), ?_, ?_, ?_⟩
    · rw [List.takeWhile_append_of_pos fun _ => isFlagCharacter_of_mem isName]
      simp
    · simp
    · simp

private theorem pairwise_nameSplits (text : List Char) :
    (nameSplits text).Pairwise fun earlier later => later.1.length < earlier.1.length := by
  have upTo (size : Nat) (bound : size ≤ text.length) : (nameSplitsUpTo text size).Pairwise
      fun earlier later => later.1.length < earlier.1.length := by
    induction size with
    | zero => exact List.Pairwise.nil
    | succ size inductionHypothesis =>
        refine List.pairwise_cons.mpr ⟨?_, inductionHypothesis (Nat.le_of_succ_le bound)⟩
        rintro ⟨name, rest⟩ member
        obtain ⟨count, -, smaller, rfl, -⟩ := mem_nameSplitsUpTo_iff.mp member
        simp only [List.length_take]
        omega
  exact upTo _ (List.takeWhile_prefix isFlagCharacter).length_le

section Search

variable {result : Type} {text : List Char} {find : List Char × List Char → Option result}

theorem isSome_findSome?_nameSplits :
    ((nameSplits text).findSome? find).isSome = true ↔
      ∃ name rest, isFlagName name = true ∧ text = name ++ rest ∧
        (find (name, rest)).isSome = true := by
  rw [List.findSome?_isSome_iff]
  constructor
  · rintro ⟨⟨name, rest⟩, member, found⟩
    obtain ⟨isName, split⟩ := mem_nameSplits_iff.mp member
    exact ⟨name, rest, isName, split, found⟩
  · rintro ⟨name, rest, isName, split, found⟩
    exact ⟨(name, rest), mem_nameSplits_iff.mpr ⟨isName, split⟩, found⟩

/-- What is found is found behind the longest name behind which there is something. -/
theorem exists_of_findSome?_nameSplits {found : result}
    (search : (nameSplits text).findSome? find = some found) :
    ∃ name rest, isFlagName name = true ∧ text = name ++ rest ∧ find (name, rest) = some found ∧
      ∀ longer tail, isFlagName longer = true → text = longer ++ tail →
        (find (longer, tail)).isSome = true → longer.length ≤ name.length := by
  obtain ⟨before, ⟨name, rest⟩, after, splitsEq, here, earlier⟩ :=
    List.findSome?_eq_some_iff.mp search
  have member : (name, rest) ∈ nameSplits text := by
    rw [splitsEq]
    exact List.mem_append_right _ List.mem_cons_self
  obtain ⟨isName, split⟩ := mem_nameSplits_iff.mp member
  refine ⟨name, rest, isName, split, here, fun longer tail longerName longerSplit longerFound => ?_⟩
  have listed := mem_nameSplits_iff.mpr ⟨longerName, longerSplit⟩
  have order := pairwise_nameSplits text
  rw [splitsEq] at listed order
  rcases List.mem_append.mp listed with inBefore | inOthers
  · rw [earlier _ inBefore] at longerFound
    cases longerFound
  · rcases List.mem_cons.mp inOthers with same | inAfter
    · obtain ⟨rfl, -⟩ := Prod.mk.inj same
      exact Nat.le_refl _
    · have later := (List.pairwise_append.mp order).2.1
      exact Nat.le_of_lt ((List.pairwise_cons.mp later).1 _ inAfter)

end Search

/-! ## Words behind names -/

theorem startsOutsideWord_append {text : List Char} (filled : text ≠ []) (after : List Char) :
    startsOutsideWord (text ++ after) = startsOutsideWord text := by
  obtain ⟨character, rest, rfl⟩ := List.exists_cons_of_ne_nil filled
  rfl

/-- Whether what comes behind a name and a gap is a word of its own: it continues no word of the
name, from which a gap keeps it apart, and `rest` continues no word. -/
structure StandsApart (name gap rest : List Char) : Prop where
  before : gap = [] → name.getLast?.any isWordCharacter = false
  after : startsOutsideWord rest = true

theorem apart_iff {name gap text : List Char} :
    (decide (text.length < (gap ++ text).length) || !name.getLast?.any isWordCharacter) = true ↔
      (gap = [] → name.getLast?.any isWordCharacter = false) := by
  rw [Bool.or_eq_true, decide_eq_true_eq, Bool.not_eq_true', List.length_append,
    ← List.length_eq_zero_iff]
  constructor
  · rintro (longer | outside) empty
    · omega
    · exact outside
  · intro apart
    by_cases empty : gap.length = 0
    · exact Or.inr (apart empty)
    · exact Or.inl (by omega)

end BranchingDialogue.Script

import Mathlib.Logic.Relation
import BranchingDialogue.Proofs.Script.Portion
import BranchingDialogue.Proofs.Script.Written

/-! The reading sees the lines of a script without blanks at their ends. Empty lines tell it nothing
anywhere, and comments tell it nothing after the heading of the first section. Changes of the layout
therefore change neither the tree of a script nor whether the strict reading accepts it. -/

namespace BranchingDialogue.Script

open Text

/-! ## Changes of the layout -/

/-- A text with a carriage return before each line feed. -/
def withReturns (text : List Char) : List Char :=
  text.flatMap fun character => if character = '\n' then ['\r', '\n'] else [character]

/-- Whether two rows have the same text between blanks. -/
def SameShown (row other : List Char) : Prop :=
  ∃ shown lead tail otherLead otherTail,
    AllBlank lead ∧ AllBlank tail ∧ AllBlank otherLead ∧ AllBlank otherTail ∧
      row = lead ++ shown ++ tail ∧ other = otherLead ++ shown ++ otherTail

/-- One change of the layout of a script. Its rows are what stands between its line feeds. -/
inductive LayoutChange : List Char → List Char → Prop
  /-- Each line feed becomes a carriage return and a line feed. -/
  | returns (script : List Char) : LayoutChange script (withReturns script)
  /-- Blanks are added or removed at the ends of rows. -/
  | respace {script other : List Char} (same : List.Forall₂ SameShown (rows script) (rows other)) :
      LayoutChange script other
  /-- A row of blanks is inserted. -/
  | insertBlank {script other row : List Char} {before after : List (List Char)}
      (old : rows script = before ++ after) (new : rows other = before ++ row :: after)
      (blank : AllBlank row) : LayoutChange script other
  /-- A row of blanks is removed. -/
  | removeBlank {script other row : List Char} {before after : List (List Char)}
      (old : rows script = before ++ row :: after) (new : rows other = before ++ after)
      (blank : AllBlank row) : LayoutChange script other
  /-- A comment is inserted after a row that starts a body. -/
  | insertComment {script other row : List Char} {before after : List (List Char)}
      (old : rows script = before ++ after) (new : rows other = before ++ row :: after)
      (comment : isComment (trim row) = true)
      (begun : ∃ mark ∈ before, trim mark = bodyStart) : LayoutChange script other

/-! ## Lines after a change -/

private theorem withReturns_append (first second : List Char) :
    withReturns (first ++ second) = withReturns first ++ withReturns second :=
  List.flatMap_append

private theorem withReturns_of_oneLine {line : List Char} (oneLine : OneLine line) :
    withReturns line = line := by
  induction line with
  | nil => rfl
  | cons character line inductionHypothesis =>
      obtain ⟨notFeed, rest⟩ := not_or.mp (List.mem_cons.not.mp oneLine)
      have single : withReturns [character] = [character] := by
        simp [withReturns, Ne.symm notFeed]
      have whole := withReturns_append [character] line
      rwa [single, inductionHypothesis rest] at whole

private theorem shownLines_withReturns_joinLines {parts : List (List Char)}
    (oneLine : ∀ part ∈ parts, OneLine part) :
    shownLines (withReturns (joinLines parts)) = shownLines (joinLines parts) := by
  match parts with
  | [] => rfl
  | [part] =>
      rw [joinLines_singleton, withReturns_of_oneLine (oneLine part List.mem_cons_self)]
  | first :: second :: others =>
      obtain ⟨firstLine, othersLine⟩ := List.forall_mem_cons.mp oneLine
      have returned : withReturns ('\n' :: joinLines (second :: others)) =
          '\r' :: '\n' :: withReturns (joinLines (second :: others)) :=
        withReturns_append ['\n'] _
      have ended : OneLine (first ++ ['\r']) := firstLine.append (by decide)
      have sameTrim : trim (first ++ ['\r']) = trim first :=
        trim_append_blank (List.forall_mem_singleton.mpr rfl)
      have sameLine : shownLines (first ++ ['\r']) = shownLines first := by
        rw [shownLines_of_oneLine ended, shownLines_of_oneLine firstLine, shownRows, List.map_cons,
          sameTrim]
        rfl
      have divided : first ++ '\r' :: '\n' :: withReturns (joinLines (second :: others)) =
          (first ++ ['\r']) ++ '\n' :: withReturns (joinLines (second :: others)) := by
        simp
      rw [joinLines_cons_cons, withReturns_append, withReturns_of_oneLine firstLine, returned,
        divided, shownLines_append_feed, shownLines_append_feed, sameLine,
        shownLines_withReturns_joinLines othersLine]

private theorem shownLines_withReturns (script : List Char) :
    shownLines (withReturns script) = shownLines script := by
  have ofRows := @shownLines_withReturns_joinLines (rows script) fun _ => oneLine_of_mem_rows
  rwa [joinLines_rows] at ofRows

theorem SameShown.trim_eq {row other : List Char} (same : SameShown row other) :
    trim row = trim other := by
  obtain ⟨shown, lead, tail, otherLead, otherTail, leadBlank, tailBlank, otherLeadBlank,
    otherTailBlank, rfl, rfl⟩ := same
  rw [trim_append_blank tailBlank, trim_append_of_blank leadBlank,
    trim_append_blank otherTailBlank, trim_append_of_blank otherLeadBlank]

private theorem map_trim_of_sameShown {parts others : List (List Char)}
    (same : List.Forall₂ SameShown parts others) : parts.map trim = others.map trim := by
  induction same with
  | nil => rfl
  | cons first _ inductionHypothesis =>
      rw [List.map_cons, List.map_cons, first.trim_eq, inductionHypothesis]

private theorem shownLines_of_respaced {script other : List Char}
    (same : List.Forall₂ SameShown (rows script) (rows other)) :
    shownLines other = shownLines script := by
  rw [shownLines_eq_rows, shownLines_eq_rows, shownRows, shownRows, map_trim_of_sameShown same]

private theorem shownLines_of_rows {script : List Char} {parts : List (List Char)}
    (same : rows script = parts) : shownLines script = shownRows parts := by
  rw [shownLines_eq_rows, same]

private theorem mem_shownRows_bodyStart {before : List (List Char)}
    (begun : ∃ mark ∈ before, trim mark = bodyStart) : bodyStart ∈ shownRows before := by
  obtain ⟨mark, listed, isStart⟩ := begun
  exact List.mem_filter.mpr ⟨List.mem_map.mpr ⟨mark, listed, isStart⟩, rfl⟩

/-! ## Scripts that are read alike -/

/-- Whether two scripts have the same tree, and the strict reading accepts both or none of them. -/
def ReadAlike (script other : List Char) : Prop :=
  readLeniently other = readLeniently script ∧
    ∀ tree, read .strict script = .ok tree ↔ read .strict other = .ok tree

theorem ReadAlike.trans {first second third : List Char} (left : ReadAlike first second)
    (right : ReadAlike second third) : ReadAlike first third :=
  ⟨right.1.trans left.1, fun tree => (left.2 tree).trans (right.2 tree)⟩

/-- The preamble that some lines tell. -/
def preambleOf (texts : List (List Char)) : Preamble :=
  (texts.takeWhile fun text => !Preamble.endsAt text).foldl Preamble.readLine {}

/-- Empty lines tell nothing about the dialogue. -/
theorem preambleOf_filter (texts : List (List Char)) :
    preambleOf (texts.filter fun text => !text.isEmpty) = preambleOf texts := by
  unfold preambleOf
  -- The lines are read one after the other, so any preamble may be there before them.
  suffices same : ∀ preamble : Preamble,
      ((texts.filter fun text => !text.isEmpty).takeWhile fun text =>
          !Preamble.endsAt text).foldl Preamble.readLine preamble =
        (texts.takeWhile fun text => !Preamble.endsAt text).foldl Preamble.readLine preamble from
    same {}
  induction texts with
  | nil => exact fun _ => rfl
  | cons text texts inductionHypothesis =>
      intro preamble
      cases text with
      | nil => exact inductionHypothesis preamble
      | cons character rest =>
          have filled : (!(character :: rest).isEmpty) = true := rfl
          rw [List.filter_cons, if_pos filled, List.takeWhile_cons, List.takeWhile_cons]
          split
          · exact inductionHypothesis (preamble.readLine (character :: rest))
          · rfl

private theorem ofLines_numberedLines (script : List Char) :
    Preamble.ofLines (numberedLines script) = preambleOf (shownLines script) := by
  rw [ofLines_eq_foldl, texts_numberedLines, shownLines, shownRows, preambleOf_filter]
  rfl

/-- Nothing after a line that starts a body tells about the dialogue. -/
theorem preambleOf_append {before : List (List Char)} (begun : bodyStart ∈ before)
    (after : List (List Char)) : preambleOf (before ++ after) = preambleOf before := by
  have ended : ¬ (before.takeWhile fun text => !Preamble.endsAt text).length = before.length := by
    intro whole
    have all := List.takeWhile_eq_self_iff.mp (List.takeWhile_prefix _ |>.eq_of_length whole)
    exact absurd (all bodyStart begun) (by decide)
  rw [preambleOf, List.takeWhile_append, if_neg ended, preambleOf]

private theorem readLeniently_eq (script : List Char) :
    readLeniently script =
      (preambleOf (shownLines script)).tree ((writtenNodes script).foldl keepNode []) := by
  have parsed := read_lenient script
  rw [read_eq_settle, settle_lenient, foldl_keepSection_sectionsFrom, ofLines_numberedLines]
    at parsed
  exact (Except.ok.inj parsed).symm

private theorem read_strict_iff {script : List Char} {tree : DialogueTree} :
    read .strict script = .ok tree ↔ discards script = [] ∧ readLeniently script = tree := by
  rw [readLeniently_eq, read_eq_settle, foldl_keepSection_sectionsFrom, ofLines_numberedLines]
  cases discards script with
  | nil => simp [Mode.settle]
  | cons first others => simp [Mode.settle]

private theorem readAlike_of_same {script other : List Char}
    (preamble : preambleOf (shownLines other) = preambleOf (shownLines script))
    (samePortions : portions other = portions script) : ReadAlike script other := by
  have sameTree : readLeniently other = readLeniently script := by
    rw [readLeniently_eq, readLeniently_eq, preamble, writtenNodes, writtenNodes, samePortions]
  refine ⟨sameTree, fun tree => ?_⟩
  rw [read_strict_iff, read_strict_iff, discards_eq_nil_iff, discards_eq_nil_iff, sameTree,
    samePortions]

private theorem readAlike_of_shownLines {script other : List Char}
    (same : shownLines other = shownLines script) : ReadAlike script other :=
  readAlike_of_same (by rw [same]) (by rw [portions, same, portions])

private theorem readAlike_of_comment {script other row : List Char}
    {before after : List (List Char)}
    (old : rows script = before ++ after) (new : rows other = before ++ row :: after)
    (comment : isComment (trim row) = true) (begun : ∃ mark ∈ before, trim mark = bodyStart) :
    ReadAlike script other := by
  have shows : trim row ≠ [] := by
    intro empty
    rw [empty] at comment
    cases comment
  have started := mem_shownRows_bodyStart begun
  have oldLines : shownLines script = shownRows before ++ shownRows after := by
    rw [shownLines_of_rows old, shownRows_append]
  have newLines : shownLines other = shownRows before ++ trim row :: shownRows after := by
    rw [shownLines_of_rows new, shownRows_append, shownRows_cons shows]
  apply readAlike_of_same
  · rw [oldLines, newLines, preambleOf_append started, preambleOf_append started]
  · rw [portions, portions, oldLines, newLines, List.filter_append, List.filter_append,
      List.filter_cons, comment]
    rfl

private theorem readAlike_of_layoutChange {script other : List Char}
    (change : LayoutChange script other) : ReadAlike script other := by
  cases change with
  | returns => exact readAlike_of_shownLines (shownLines_withReturns script)
  | respace same => exact readAlike_of_shownLines (shownLines_of_respaced same)
  | insertBlank old new blank =>
      apply readAlike_of_shownLines
      rw [shownLines_of_rows old, shownLines_of_rows new, shownRows_append, shownRows_append,
        shownRows_cons_of_blank blank]
  | removeBlank old new blank =>
      apply readAlike_of_shownLines
      rw [shownLines_of_rows old, shownLines_of_rows new, shownRows_append, shownRows_append,
        shownRows_cons_of_blank blank]
  | insertComment old new comment begun => exact readAlike_of_comment old new comment begun

/-- Changes of the layout of a script keep its tree, and the strict reading still accepts the script
if it did, with the same tree. -/
theorem readAlike_of_layoutChanges {script other : List Char}
    (changes : Relation.ReflTransGen LayoutChange script other) :
    readLeniently other = readLeniently script ∧
      ∀ tree, read .strict script = .ok tree ↔ read .strict other = .ok tree := by
  induction changes with
  | refl => exact ⟨rfl, fun _ => Iff.rfl⟩
  | tail _ change inductionHypothesis =>
      exact ReadAlike.trans inductionHypothesis (readAlike_of_layoutChange change)

/-- A scene at a gate. -/
def plainGate : List Char :=
  "title: gate\n---\nHalt!\n===\n".toList

def commentedGate : List Char :=
  "title: gate\n---\n// It is locked.\nHalt!\n===\n".toList

/-- The scene with a comment and a row of blanks before it. -/
def spacedGate : List Char :=
  " \ntitle: gate\n---\n// It is locked.\nHalt!\n===\n".toList

/-- The tree of the scene. -/
def haltTree : DialogueTree :=
  (DialogueTree.bare "gate" "gate" "gate").withNode (.npc "gate" "Halt!")

theorem readAlike_spacedGate :
    Relation.ReflTransGen LayoutChange plainGate (withReturns spacedGate) ∧
      read .strict plainGate = .ok haltTree ∧
      readLeniently (withReturns spacedGate) = haltTree ∧
      read .strict (withReturns spacedGate) = .ok haltTree := by
  have commented : LayoutChange plainGate commentedGate := by
    have old : rows plainGate =
        ["title: gate".toList, bodyStart] ++ ["Halt!".toList, sectionEnd, []] := by
      decide +kernel
    have new : rows commentedGate = ["title: gate".toList, bodyStart] ++
        "// It is locked.".toList :: ["Halt!".toList, sectionEnd, []] := by
      decide +kernel
    exact .insertComment old new (by decide) ⟨bodyStart, by decide, by decide⟩
  have spaced : LayoutChange commentedGate spacedGate := by
    have new : rows spacedGate = [] ++ [' '] :: rows commentedGate := by decide +kernel
    exact .insertBlank (List.nil_append _).symm new (List.forall_mem_singleton.mpr rfl)
  have changes : Relation.ReflTransGen LayoutChange plainGate (withReturns spacedGate) :=
    ((Relation.ReflTransGen.single commented).tail spaced).tail (.returns spacedGate)
  have plainStrictly : read .strict plainGate = .ok haltTree := by decide +kernel
  have plain : readLeniently plainGate = haltTree := by decide +kernel
  obtain ⟨sameTree, strictly⟩ := readAlike_of_layoutChanges changes
  exact ⟨changes, plainStrictly, sameTree.trans plain, (strictly haltTree).mp plainStrictly⟩

end BranchingDialogue.Script

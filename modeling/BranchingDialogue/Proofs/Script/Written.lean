import Mathlib.Data.List.Forall2
import BranchingDialogue.Proofs.Graph.Tree
import BranchingDialogue.Proofs.Script.Section

/-! The lines of the script of a sound tree: comments about the dialogue, and the section of each
node with its own heading and its own body. -/

namespace BranchingDialogue

namespace Script

open Text

/-! ## Written nodes -/

private theorem trimmed_key {key : List Char} (trimmed : Trimmed (key ++ [':'])) {name : String}
    (label : IsLabel name) : Trimmed (key ++ ": ".toList ++ name.toList) := by
  have whole := trimmed.append (by simp) label.trimmed label.filled [' ']
  simpa using whole

private theorem map_trim_writeNode {node : Node} (keeps : node.KeepsSection) :
    (writeNode node).map trim = sectionTexts [] node ++ [sectionEnd] := by
  have title : Trimmed ("title: ".toList ++ node.id.toList) :=
    @trimmed_key "title".toList (by decide) node.id keeps.id
  have speaker : (writeSpeaker (headingSpeaker node)).map trim =
      writeSpeaker (headingSpeaker node) := by
    cases named : headingSpeaker node with
    | none => rfl
    | some name =>
        have trimmed : Trimmed ("speaker: ".toList ++ name.toList) :=
          @trimmed_key "speaker".toList (by decide) name (keeps.speaker name named)
        exact congrArg (fun line => [line]) trimmed
  have start : trim bodyStart = bodyStart := rfl
  have last : trim sectionEnd = sectionEnd := rfl
  rw [writeNode_eq]
  simpa [sectionTexts, speaker, start, last] using title.trim_eq

private theorem isLine_writeNode {node : Node} (keeps : node.KeepsSection) {line : List Char}
    (member : line ∈ writeNode node) : IsLine line := by
  have key (word : List Char) (wordLine : OneLine word) {name : String} (label : IsLabel name) :
      IsLine (word ++ name.toList) :=
    (label.trimmed.isLine label.oneLine).append label.filled wordLine
  rw [writeNode_eq] at member
  rcases List.mem_append.mp member with inFront | isEnd
  · rcases List.mem_append.mp inFront with inHeading | inBody
    · rcases List.mem_cons.mp inHeading with rfl | inSpeaker
      · exact key "title: ".toList (by decide) keeps.id
      · cases named : headingSpeaker node with
        | none =>
            rw [named] at inSpeaker
            cases inSpeaker
        | some name =>
            rw [named] at inSpeaker
            rw [List.mem_singleton.mp inSpeaker]
            exact key "speaker: ".toList (by decide) (keeps.speaker name named)
    · rcases List.mem_cons.mp inBody with rfl | inLines
      · exact ⟨by decide, by decide⟩
      · exact (keeps.body line inLines).isLine
  · rw [List.mem_singleton.mp isEnd]
    exact ⟨by decide, by decide⟩

/-! ## All nodes -/

private theorem writeSections_eq {written : List (List Char)} (filled : written ≠ [])
    (nodes : List Node) :
    writeSections written nodes = written ++ nodes.flatMap fun node => [] :: writeNode node := by
  unfold writeSections
  induction nodes generalizing written with
  | nil => simp
  | cons node nodes inductionHypothesis =>
      have more : written ++ (if written.isEmpty then [] else [[]]) ++ writeNode node ≠ [] := by
        simp [filled]
      rw [List.foldl_cons, inductionHypothesis more]
      simp [filled]

private theorem isPlainLine_nil : IsPlainLine [] :=
  ⟨by decide, by decide, fun _ => rfl⟩

/-- Whether a section has the heading and the body of a node. -/
def IsWritten (node : Node) (part : Section) : Prop :=
  ∃ body, readHeading {} part.lines =
      (⟨some node.id.toList, (headingSpeaker node).map String.toList⟩, some body) ∧
    body.map NumberedLine.text = (writeBody node).map trim

/-- The sections of written nodes are those of the nodes. -/
theorem sectionsFrom_writeNodes {nodes : List Node} (keeps : ∀ node ∈ nodes, node.KeepsSection)
    {front : List (List Char)} (plain : ∀ text ∈ front, IsPlainLine text)
    (ended : nodes = [] → front = []) {lines : List NumberedLine}
    (texts : lines.map NumberedLine.text =
      front ++ nodes.flatMap fun node => [] :: (writeNode node).map trim)
    (firstLine : Nat) : List.Forall₂ IsWritten nodes (sectionsFrom firstLine lines) := by
  induction nodes generalizing front lines firstLine with
  | nil =>
      rw [ended rfl] at texts
      obtain rfl : lines = [] := by simpa using texts
      exact .nil
  | cons node nodes inductionHypothesis =>
      obtain ⟨nodeKeeps, othersKeep⟩ := List.forall_mem_cons.mp keeps
      have shape : front ++ ((node :: nodes).flatMap fun node => [] :: (writeNode node).map trim) =
          sectionTexts (front ++ [[]]) node ++
            sectionEnd :: nodes.flatMap fun node => [] :: (writeNode node).map trim := by
        rw [List.flatMap_cons, map_trim_writeNode nodeKeeps]
        simp [sectionTexts]
      rw [shape] at texts
      obtain ⟨own, rest, rfl, ownEq, restEq⟩ := List.map_eq_append_iff.mp texts
      obtain ⟨mark, others, rfl, markEq, othersEq⟩ := List.map_eq_cons_iff.mp restEq
      have ownPlain : ∀ text ∈ front ++ [[]], IsPlainLine text := by
        intro text member
        rcases List.mem_append.mp member with inFront | isEmpty
        · exact plain text inFront
        · rw [List.mem_singleton.mp isEmpty]
          exact isPlainLine_nil
      have apart : ∀ line ∈ own, line.text ≠ sectionEnd := by
        intro line member
        apply mem_sectionTexts nodeKeeps ownPlain
        rw [← ownEq]
        exact List.mem_map_of_mem member
      rw [sectionsFrom_append apart markEq]
      refine .cons (readHeading_writeNode nodeKeeps ownPlain ownEq) ?_
      exact @inductionHypothesis othersKeep [] (by simp) (fun _ => rfl) others othersEq
        (mark.number + 1)

/-! ## The preamble -/

private theorem writeComment_eq (key : String) {value : String} (label : IsLabel value) :
    writeComment key value = ["// ".toList ++ key.toList ++ ": ".toList ++ value.toList] := by
  have filled : value ≠ "" := by
    rintro rfl
    exact label.filled rfl
  simp [writeComment, filled]

private theorem isLine_comment {key : List Char} (keyLine : OneLine key) {value : String}
    (label : IsLabel value) : IsLine ("// ".toList ++ key ++ ": ".toList ++ value.toList) := by
  have slashes : OneLine "// ".toList := by decide
  have mark : OneLine ": ".toList := by decide
  have front := (slashes.append keyLine).append mark
  exact (label.trimmed.isLine label.oneLine).append label.filled front

private theorem trimmed_comment {key : List Char} {value : String} (label : IsLabel value) :
    Trimmed ("// ".toList ++ key ++ ": ".toList ++ value.toList) := by
  have whole := Trimmed.append (show Trimmed "//".toList from rfl) (by simp) label.trimmed
    label.filled (' ' :: key ++ ": ".toList)
  simpa using whole

/-- A comment is found again with its key and its value. -/
theorem keyAndValue_comment {key : List Char} (noColon : ':' ∉ key) (trimmed : Trimmed key)
    {value : String} (label : IsLabel value) :
    (List.isPrefixOf? ['/', '/'] ("// ".toList ++ key ++ ": ".toList ++ value.toList)).bind
      keyAndValue = some (key, value.toList) := by
  have lead : List.isPrefixOf? ['/', '/'] ("// ".toList ++ key ++ ": ".toList ++ value.toList) =
      some (' ' :: key ++ ": ".toList ++ value.toList) := rfl
  have absent : ':' ∉ ' ' :: key := by simp [noColon]
  rw [lead, Option.bind_some, keyAndValue_append absent, label.trimmed, trim_space_cons, trimmed]

private theorem isPlainLine_comment {key : List Char} (noColon : ':' ∉ key) (value : List Char) :
    IsPlainLine ("// ".toList ++ key ++ ": ".toList ++ value) := by
  refine ⟨fun same => ?_, fun same => ?_, fun heading => ?_⟩
  · cases same
  · cases same
  · have absent : ':' ∉ "// ".toList ++ key := by simp [noColon]
    have slash : (trim ("// ".toList ++ key)).head? = some '/' := by
      have start : trimStart ("// ".toList ++ key) = "// ".toList ++ key := rfl
      rw [trim, start]
      exact head?_trimEnd rfl rfl
    have noTitle : trim ("// ".toList ++ key) ≠ "title".toList := by
      intro same
      rw [same] at slash
      cases slash
    have noSpeaker : trim ("// ".toList ++ key) ≠ "speaker".toList := by
      intro same
      rw [same] at slash
      cases slash
    unfold Heading.readLine
    rw [keyAndValue_append absent]
    simp only [noTitle, noSpeaker, if_false, ite_self]

private theorem endsAt_comment (rest : List Char) :
    Preamble.endsAt ("// ".toList ++ rest) = false :=
  rfl

private theorem endsAt_title (title : List Char) :
    Preamble.endsAt ("title: ".toList ++ title) = true :=
  rfl

def preambleTexts (tree : DialogueTree) : List (List Char) :=
  ["// ".toList ++ "dialogue".toList ++ ": ".toList ++ tree.id.toList,
    "// ".toList ++ "name".toList ++ ": ".toList ++ tree.title.toList,
    "// ".toList ++ "start".toList ++ ": ".toList ++ tree.start.toList]

variable {tree : DialogueTree}

theorem ofLines_eq_foldl (lines : List NumberedLine) :
    Preamble.ofLines lines =
      ((lines.map NumberedLine.text).takeWhile fun text => !Preamble.endsAt text).foldl
        Preamble.readLine {} := by
  rw [List.takeWhile_map, List.foldl_map]
  rfl

/-- The comments about a tree are read back. -/
theorem ofLines_preambleTexts (id : IsLabel tree.id) (title : IsLabel tree.title)
    (start : IsLabel tree.start) {lines : List NumberedLine} {first : List Char}
    {rest : List (List Char)}
    (texts : lines.map NumberedLine.text =
      preambleTexts tree ++ [] :: ("title: ".toList ++ first) :: rest) :
    Preamble.ofLines lines = ⟨some tree.id, some tree.title, some tree.start⟩ := by
  have idRead := keyAndValue_comment (show ':' ∉ "dialogue".toList by decide) (by decide) id
  have titleRead := keyAndValue_comment (show ':' ∉ "name".toList by decide) (by decide) title
  have startRead := keyAndValue_comment (show ':' ∉ "start".toList by decide) (by decide) start
  have before : (preambleTexts tree ++ [] :: ("title: ".toList ++ first) :: rest).takeWhile
      (fun text => !Preamble.endsAt text) = preambleTexts tree ++ [[]] := by
    simp only [preambleTexts, List.cons_append, List.nil_append, List.append_assoc,
      List.takeWhile_cons, endsAt_comment, endsAt_title]
    rfl
  rw [ofLines_eq_foldl, texts, before]
  simp only [preambleTexts, List.cons_append, List.nil_append, List.foldl_cons, List.foldl_nil,
    Preamble.readLine, idRead, titleRead, startRead]
  simp [id.filled, title.filled, start.filled, List.isPrefixOf?]

/-! ## The whole script -/

theorem sound_of_mem (sound : tree.Sound) : ∀ node ∈ tree.nodeList, node.Sound := by
  intro node member
  obtain ⟨entry, listed, rfl⟩ := List.mem_map.mp member
  exact (sound.nodes entry listed).2

theorem ownIds_of_sound (sound : tree.Sound) : tree.HasOwnIds :=
  fun entry member => (sound.nodes entry member).1

theorem exists_start (sound : tree.Sound) :
    ∃ node ∈ tree.nodeList, node.id = tree.start ∧ node.Sound := by
  obtain ⟨node, listed, id⟩ := (ownIds_of_sound sound).contains_iff.mp sound.start
  exact ⟨node, listed, id, sound_of_mem sound node listed⟩

theorem isLabel_start (sound : tree.Sound) : IsLabel tree.start := by
  obtain ⟨startNode, -, startId, startSound⟩ := exists_start sound
  rw [← startId]
  exact startSound.1

private theorem writePreamble_of_sound (sound : tree.Sound) :
    writePreamble tree = preambleTexts tree := by
  unfold writePreamble
  rw [writeComment_eq _ sound.id, writeComment_eq _ sound.title,
    writeComment_eq _ (isLabel_start sound)]
  rfl

end Script

open Script Text

/-- Whether the lines of the script of a tree stay lines of their comments and sections. The id and
the title are not written when they are empty. -/
structure DialogueTree.KeepsSections (tree : DialogueTree) : Prop where
  id : tree.id ≠ "" → IsLabel tree.id
  title : tree.title ≠ "" → IsLabel tree.title
  start : IsLabel tree.start
  nodes : ∀ node ∈ tree.nodeList, node.KeepsSection

variable {tree : DialogueTree}

theorem DialogueTree.Sound.keepsSections (sound : tree.Sound) : tree.KeepsSections :=
  ⟨fun _ => sound.id, fun _ => sound.title, isLabel_start sound, fun node listed =>
    (sound_of_mem sound node listed).keepsSection⟩

namespace Script

private theorem exists_of_mem_writePreamble (keeps : tree.KeepsSections) {line : List Char}
    (member : line ∈ writePreamble tree) :
    ∃ key value, ':' ∉ key ∧ OneLine key ∧ IsLabel value ∧
      line = "// ".toList ++ key ++ ": ".toList ++ value.toList := by
  have ofComment {key value : String} (label : value ≠ "" → IsLabel value)
      (inComment : line ∈ writeComment key value) :
      IsLabel value ∧ line = "// ".toList ++ key.toList ++ ": ".toList ++ value.toList := by
    have filled : value ≠ "" := by
      rintro rfl
      cases inComment
    rw [writeComment_eq key (label filled)] at inComment
    exact ⟨label filled, List.mem_singleton.mp inComment⟩
  unfold writePreamble at member
  rcases List.mem_append.mp member with inFront | inStart
  · rcases List.mem_append.mp inFront with inId | inTitle
    · exact ⟨_, _, by decide, by decide, ofComment keeps.id inId⟩
    · exact ⟨_, _, by decide, by decide, ofComment keeps.title inTitle⟩
  · exact ⟨_, _, by decide, by decide, ofComment (fun _ => keeps.start) inStart⟩

private theorem texts_write (keeps : tree.KeepsSections) :
    (numberedLines (write tree)).map NumberedLine.text =
      writePreamble tree ++ tree.nodeList.flatMap fun node => [] :: (writeNode node).map trim := by
  have filled : writePreamble tree ≠ [] := by
    unfold writePreamble
    rw [writeComment_eq "start" keeps.start]
    simp
  have preambleLines : ∀ text ∈ writePreamble tree, IsLine text ∧ Trimmed text := by
    intro text member
    obtain ⟨key, value, -, keyLine, label, rfl⟩ := exists_of_mem_writePreamble keeps member
    exact ⟨isLine_comment keyLine label, trimmed_comment label⟩
  have areLines : ∀ line ∈ writePreamble tree ++
      tree.nodeList.flatMap fun node => [] :: writeNode node, IsLine line := by
    intro line member
    rcases List.mem_append.mp member with inPreamble | inNodes
    · exact (preambleLines line inPreamble).1
    · obtain ⟨node, listed, inNode⟩ := List.mem_flatMap.mp inNodes
      rcases List.mem_cons.mp inNode with rfl | inSection
      · exact isLine_nil
      · exact isLine_writeNode (keeps.nodes node listed) inSection
  have trimmed := map_trim_eq_self fun text member => (preambleLines text member).2
  unfold write
  rw [texts_numberedLines, writeSections_eq filled, lines_flatMap_endLine areLines, List.map_append,
    trimmed, List.map_flatMap]
  rfl

theorem sectionsFrom_write (keeps : tree.KeepsSections) (filled : tree.nodeList ≠ []) :
    List.Forall₂ IsWritten tree.nodeList (sectionsFrom 1 (numberedLines (write tree))) := by
  have plain : ∀ text ∈ writePreamble tree, IsPlainLine text := by
    intro text member
    obtain ⟨key, value, noColon, -, -, rfl⟩ := exists_of_mem_writePreamble keeps member
    exact isPlainLine_comment noColon _
  exact sectionsFrom_writeNodes keeps.nodes plain (fun empty => absurd empty filled)
    (texts_write keeps) 1

theorem nodeList_ne_nil (sound : tree.Sound) : tree.nodeList ≠ [] := by
  obtain ⟨startNode, startListed, -⟩ := exists_start sound
  exact List.ne_nil_of_mem startListed

theorem ofLines_write (sound : tree.Sound) :
    Preamble.ofLines (numberedLines (write tree)) =
      ⟨some tree.id, some tree.title, some tree.start⟩ := by
  have keeps := sound.keepsSections
  obtain ⟨node, others, listEq⟩ := List.exists_cons_of_ne_nil (nodeList_ne_nil sound)
  have nodeKeeps := keeps.nodes node (by rw [listEq]; simp)
  have shape : sectionTexts [] node = ("title: ".toList ++ node.id.toList) ::
      (writeSpeaker (headingSpeaker node) ++ bodyStart :: (writeBody node).map trim) := rfl
  have texts := texts_write keeps
  rw [writePreamble_of_sound sound, listEq, List.flatMap_cons, map_trim_writeNode nodeKeeps, shape,
    List.cons_append, List.cons_append, List.cons_append] at texts
  exact ofLines_preambleTexts sound.id sound.title (isLabel_start sound) texts

end Script

end BranchingDialogue

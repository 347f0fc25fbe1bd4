import BranchingDialogue.Graph.Lint
import BranchingDialogue.Proofs.Play.FlagChange
import BranchingDialogue.Proofs.Script.Offset

/-! The listed flags of a node are meant to be all flags that a visit of the node depends on and all
flags that it changes. The list takes the commands of the whole content at once, and a visit takes
them line by line. The two scans differ where a command of the first one goes over the end of a
line. -/

namespace BranchingDialogue

open Script

/-- Whether the visits of a node depend on its listed flags only, and change no others. -/
structure Node.HasFootprint (node : Node) : Prop where
  visit_congr : ∀ (schema : FlagSchema) (left right : Store),
    (∀ flag ∈ node.flags, left.held flag = right.held flag) →
      (node.visit left schema).1 = (node.visit right schema).1 ∧
        ∀ flag ∈ node.flags,
          (node.visit left schema).2.held flag = (node.visit right schema).2.held flag
  held_of_not_mem : ∀ (schema : FlagSchema) (store : Store), ∀ flag ∉ node.flags,
    (node.visit store schema).2.held flag = store.held flag

def playedFlags (content : String) : List String :=
  (commandChanges (contentCommands content)).flatMap FlagChange.flags

/-! ## Conditions -/

section Conditions

variable {flags : Set String} {left right : Store}

private theorem Condition.holds_congr {condition : Condition}
    (agree : left.held condition.flag = right.held condition.flag) :
    condition.holds left = condition.holds right := by
  obtain ⟨value, memory⟩ := Prod.mk.inj agree
  have isSet : left.isSet condition.flag = right.isSet condition.flag := by
    rw [Store.isSet, Store.isSet, value, memory]
  simp only [holds, value, isSet]

private theorem Condition.allHold_congr {conditions : List Condition}
    (agree : ∀ flag ∈ flags, left.held flag = right.held flag)
    (covered : ∀ condition ∈ conditions, condition.flag ∈ flags) :
    Condition.allHold conditions left = Condition.allHold conditions right := by
  induction conditions with
  | nil => rfl
  | cons condition conditions inductionHypothesis =>
      obtain ⟨first, others⟩ := List.forall_mem_cons.mp covered
      have same := Condition.holds_congr (agree condition.flag first)
      have rest := inductionHypothesis others
      unfold allHold at rest ⊢
      rw [List.all_cons, List.all_cons, same, rest]

private theorem Block.select_congr {blocks : List Block}
    (agree : ∀ flag ∈ flags, left.held flag = right.held flag)
    (covered : ∀ block ∈ blocks, ∀ condition ∈ block.conditions, condition.flag ∈ flags) :
    Block.select left blocks = Block.select right blocks := by
  induction blocks with
  | nil => rfl
  | cons block blocks inductionHypothesis =>
      obtain ⟨first, others⟩ := List.forall_mem_cons.mp covered
      have same : block.applies left = block.applies right := by
        rw [applies, applies, Condition.allHold_congr agree first]
      have rest := inductionHypothesis others
      unfold select at rest ⊢
      rw [List.find?_cons, List.find?_cons, same, rest]

end Conditions

namespace Node

variable {node : Node} {schema : FlagSchema} {store left right : Store}

/-! ## Listed flags -/

private theorem mem_flags_of_condition {condition : Condition}
    (listed : condition ∈ node.conditions) : condition.flag ∈ node.flags :=
  List.mem_append_left _ (List.mem_append_left _ (List.mem_map_of_mem listed))

private theorem mem_flags_of_entryFlag {flag : String} (raised : flag ∈ node.entryFlags) :
    flag ∈ node.flags := by
  refine List.mem_append_left _ (List.mem_append_right _ ?_)
  unfold entryFlags at raised
  unfold ownFlags
  cases kind : node.kind with
  | npc speech =>
      rw [kind] at raised
      exact List.mem_append_right _ raised
  | player choices | conditional blocks =>
      rw [kind] at raised
      cases raised

private theorem mem_conditions_of_block (noChoices : node.choices? = none) {block : Block}
    (listed : block ∈ node.blocks) {condition : Condition} (inBlock : condition ∈ block.conditions) :
    condition ∈ node.conditions := by
  unfold conditions
  rw [noChoices]
  exact List.mem_flatMap.mpr ⟨block, listed, inBlock⟩

/-! ## What a visit depends on -/

/-- Stores that hold the same for the listed flags of a node make it play the same. -/
theorem scene_congr (agree : ∀ flag ∈ node.flags, left.held flag = right.held flag) :
    node.scene left = node.scene right := by
  have selected (noChoices : node.choices? = none) :
      Block.select left node.blocks = Block.select right node.blocks :=
    @Block.select_congr {flag | flag ∈ node.flags} _ _ _ agree fun block listed condition inBlock =>
      mem_flags_of_condition (mem_conditions_of_block noChoices listed inBlock)
  obtain ⟨id, speaker, kind⟩ := node
  cases kind with
  | npc speech =>
      obtain ⟨content, next, raises, blocks⟩ := speech
      cases blocks with
      | none => rfl
      | some blocks =>
          have same : Block.select left blocks = Block.select right blocks := selected rfl
          simp only [scene, same]
  | player choices => rfl
  | conditional blocks =>
      have same : Block.select left blocks = Block.select right blocks := selected rfl
      simp only [scene, same]

private theorem visible_congr (agree : ∀ flag ∈ node.flags, left.held flag = right.held flag) :
    (node.choices?.getD []).filter (Choice.isVisible left) =
      (node.choices?.getD []).filter (Choice.isVisible right) := by
  refine List.filter_congr fun choice listed => ?_
  refine @Condition.allHold_congr {flag | flag ∈ node.flags} _ _ _ agree fun condition gated => ?_
  refine mem_flags_of_condition ?_
  unfold conditions
  cases choices : node.choices? with
  | none => simp [choices] at listed
  | some found =>
      rw [choices, Option.getD_some] at listed
      exact List.mem_flatMap.mpr ⟨choice, listed, gated⟩

end Node

/-! ## Warnings -/

namespace Store

private theorem warnings_assign (left right : Store) (schema : FlagSchema) (flag : String)
    (value : Value) : (left.assign schema flag value).2 = (right.assign schema flag value).2 := by
  unfold assign
  split
  · rfl
  · split
    · rfl
    · split
      · rfl
      · split
        · rfl
        · split <;> rfl

theorem warnings_raise (left right : Store) (schema : FlagSchema) (flags : List String) :
    (left.raise schema flags).2 = (right.raise schema flags).2 := by
  have ofStates (flags : List String) (first second : GameState) :
      (GameState.raise schema first flags).2 = (GameState.raise schema second flags).2 := by
    induction flags generalizing first second with
    | nil => rfl
    | cons flag flags inductionHypothesis =>
        have one : (GameState.raiseOne schema first flag).2 =
            (GameState.raiseOne schema second flag).2 := by
          unfold GameState.raiseOne
          split <;> rfl
        simp only [GameState.raise, one]
        rw [inductionHypothesis]
  exact ofStates _ _ _

variable {schema : FlagSchema} {left right : Store}

private theorem warnings_runCommands_append (schema : FlagSchema) (store : Store)
    (first second : List RawCommand) :
    (store.runCommands schema (first ++ second)).2 =
      (store.runCommands schema first).2 ++
        ((runChanges schema store (commandChanges first)).runCommands schema second).2 := by
  rw [runChanges_commandChanges]
  induction first generalizing store with
  | nil => rfl
  | cons raw first inductionHypothesis =>
      simp only [List.cons_append, runCommands]
      rw [inductionHypothesis, List.append_assoc]

/-- The warnings of commands depend only on the flags that the commands set and read. -/
theorem warnings_runCommands_congr {flags : Set String} {raws : List RawCommand}
    (agree : ∀ flag ∈ flags, left.held flag = right.held flag)
    (covered : ∀ change ∈ commandChanges raws, ∀ flag ∈ change.flags, flag ∈ flags) :
    (left.runCommands schema raws).2 = (right.runCommands schema raws).2 := by
  induction raws generalizing left right with
  | nil => rfl
  | cons raw raws inductionHypothesis =>
      have first : (left.runCommand schema raw).2 = (right.runCommand schema raw).2 ∧
          ∀ flag ∈ flags, (left.runCommand schema raw).1.held flag =
            (right.runCommand schema raw).1.held flag := by
        unfold runCommand
        cases read : raw.read with
        | none => exact ⟨rfl, agree⟩
        | some command =>
            have inFlags : ∀ flag ∈ (FlagChange.assign command).flags, flag ∈ flags :=
              covered _ (by simp [commandChanges, read])
            refine ⟨?_, FlagChange.held_run_of_agree agree inFlags⟩
            have resolved := resolve_congr fun flag source =>
              agree flag (inFlags flag (List.mem_cons_of_mem _ source))
            dsimp only
            rw [resolved]
            exact warnings_assign left right schema command.flag _
      have others : ∀ change ∈ commandChanges raws, ∀ flag ∈ change.flags, flag ∈ flags :=
        fun change listed => covered change <| by
          rw [← List.singleton_append, commandChanges_append]
          exact List.mem_append_right _ listed
      simp only [runCommands]
      rw [first.1, inductionHypothesis first.2 others]

end Store

namespace Node

variable {node : Node} {schema : FlagSchema} {store left right : Store}

def playedCommands (node : Node) (store : Store) : List RawCommand :=
  (node.scene store).content.elim [] contentCommands

private theorem changes_eq (node : Node) (store : Store) :
    node.changes store = commandChanges (node.playedCommands store) ++
      node.entryFlags.map .raise := by
  unfold changes playedCommands
  cases (node.scene store).content <;> rfl

/-- What a visit comes to, with the warnings of its commands and of its raises. -/
theorem visit_fst (node : Node) (store : Store) (schema : FlagSchema) :
    (node.visit store schema).1 =
      { node := node.id
        speaker := (node.scene store).speaker
        content := (node.scene store).content.elim "" shownContent
        choices := (node.choices?.getD []).filter (Choice.isVisible store)
        next := (node.scene store).next
        isDecision := node.choices?.isSome
        warnings := (store.runCommands schema (node.playedCommands store)).2 ++
          (store.raise schema node.entryFlags).2 } := by
  unfold visit playedCommands
  cases played : (node.scene store).content with
  | none => simp [played, Store.runCommands]
  | some content =>
      have raised := Store.warnings_raise (store.play schema content).1 store schema node.entryFlags
      simp only [played, Option.elim_some, raised]
      rfl

/-- A node whose listed flags cover the played commands has its footprint. -/
theorem hasFootprint_of_covered
    (covered : ∀ store, ∀ change ∈ commandChanges (node.playedCommands store),
      ∀ flag ∈ change.flags, flag ∈ node.flags) : node.HasFootprint := by
  have inFlags (store : Store) : ∀ change ∈ node.changes store,
      ∀ flag ∈ change.flags, flag ∈ node.flags := by
    rw [changes_eq]
    intro change listed
    rcases List.mem_append.mp listed with command | raise
    · exact covered store change command
    · obtain ⟨raised, entry, rfl⟩ := List.mem_map.mp raise
      intro flag member
      obtain rfl : flag = raised := List.mem_singleton.mp member
      exact mem_flags_of_entryFlag entry
  constructor
  · intro schema left right agree
    have scene := scene_congr agree
    have commands : node.playedCommands left = node.playedCommands right := by
      rw [playedCommands, playedCommands, scene]
    constructor
    · have warnings := @Store.warnings_runCommands_congr schema left right {flag | flag ∈ node.flags}
        _ agree (covered left)
      have raises := Store.warnings_raise left right schema node.entryFlags
      rw [visit_fst, visit_fst, ← commands, ← scene, visible_congr agree, warnings, raises]
    · have changes : node.changes right = node.changes left := by
        rw [changes_eq, changes_eq, commands]
      rw [visit_eq_runChanges, visit_eq_runChanges, changes]
      exact @held_runChanges_of_agree schema _ {flag | flag ∈ node.flags} _ _ agree (inFlags left)
  · intro schema store flag unlisted
    rw [visit_eq_runChanges]
    refine Store.held_runChanges_of_ne fun change listed same => unlisted ?_
    exact inFlags store change listed flag (same ▸ change.flag_mem_flags)

/-! ## Flags that are not listed -/

/-- A flag that is not listed is set by no played command. -/
theorem HasFootprint.not_set (footprint : node.HasFootprint) {command : SetCommand}
    (played : .assign command ∈ commandChanges (node.playedCommands store)) :
    command.flag ∈ node.flags := by
  by_contra unlisted
  -- Without a value of the flag, the node plays the same and gives it one.
  have agree : ∀ flag ∈ node.flags, store.held flag = (store.remove command.flag).held flag := by
    intro flag listed
    have other : flag ≠ command.flag := fun same => unlisted (same ▸ listed)
    simp [Store.held, Store.get?, Store.remove, Store.remembers, SortedMap.get?_erase, other]
  have unset : (store.remove command.flag).get? command.flag = none := by
    simp [Store.get?, Store.remove, SortedMap.get?_erase]
  have listed : .assign command ∈ node.changes (store.remove command.flag) := by
    rw [changes_eq, playedCommands, ← scene_congr agree]
    exact List.mem_append_left _ played
  obtain ⟨earlier, later, changesEq⟩ := List.append_of_mem listed
  have given : ((node.visit (store.remove command.flag) .empty).2.get? command.flag).isSome =
      true := by
    rw [visit_eq_runChanges, changesEq, ← List.singleton_append, runChanges_append,
      runChanges_append]
    exact isSome_get?_runChanges _ _ (FlagChange.isSome_get?_assign _ _ command)
  have kept : (node.visit (store.remove command.flag) .empty).2.get? command.flag =
      (store.remove command.flag).get? command.flag :=
    (Prod.mk.inj (footprint.held_of_not_mem .empty _ _ unlisted)).1
  rw [kept, unset] at given
  cases given

def textSchema (flag : String) : FlagSchema :=
  FlagSchema.empty.insert ⟨flag, flag, .stat, some .string, none, none⟩

private theorem warnings_assign_textSchema (store : Store) (flag : String) (amount : Float) :
    (store.assign (textSchema flag) flag (.number amount)).2 =
      [.typeCoerced flag (.number amount) (.text (Value.number amount).display)] := by
  have declared : (textSchema flag).get? flag =
      some ⟨flag, flag, .stat, some .string, none, none⟩ := List.lookup_cons_self
  simp [Store.assign, declared, FlagDefinition.isTransient, FlagType.isTransient, ValueType.admits,
    ValueType.convert]

/-- After commands that leave a flag alone, a command with an amount that comes from the flag warns
of the amount. -/
theorem exists_warning_of_untouched {earlier later : List RawCommand} {raw : RawCommand}
    {command : SetCommand} {flag : String} {given : Value} {amount : Float}
    (untouched : ∀ change ∈ commandChanges earlier, flag ≠ change.flag)
    (read : raw.read = some command)
    (resolved : ∀ store : Store, store.get? flag = some given →
      command.expression.resolve store = .number amount)
    (value : store.get? flag = some given) :
    ∃ rest, (store.runCommands (textSchema command.flag) (earlier ++ raw :: later)).2 =
      (store.runCommands (textSchema command.flag) earlier).2 ++
        .typeCoerced command.flag (.number amount) (.text (Value.number amount).display) ::
          rest := by
  let reached := runChanges (textSchema command.flag) store (commandChanges earlier)
  have kept : reached.held flag = store.held flag := Store.held_runChanges_of_ne untouched
  have valueKept : reached.get? flag = some given := (Prod.mk.inj kept).1.trans value
  have assigned := warnings_assign_textSchema reached command.flag amount
  rw [Store.warnings_runCommands_append, Store.runCommands, Store.runCommand, read]
  dsimp only
  rw [resolved reached valueKept, assigned]
  exact ⟨_, rfl⟩

def reads (flag : String) (raw : RawCommand) : Bool :=
  raw.read.any fun command => command.expression.sources.contains flag

/-- The commands before the first one that reads a flag without being listed leave it alone. -/
private theorem HasFootprint.not_mem_flags_of_earlier (footprint : node.HasFootprint)
    {flag : String} (unlisted : flag ∉ node.flags) {earlier later : List RawCommand}
    (commandsEq : node.playedCommands store = earlier ++ later)
    (unread : ∀ raw ∈ earlier, reads flag raw = false) :
    ∀ change ∈ commandChanges earlier, flag ∉ change.flags := by
  intro change listed inChange
  obtain ⟨command, commandListed, rfl⟩ := List.mem_map.mp listed
  obtain ⟨raw, inEarlier, read⟩ := List.mem_filterMap.mp commandListed
  rcases List.mem_cons.mp inChange with target | source
  · apply unlisted
    rw [target]
    refine @HasFootprint.not_set node store footprint command ?_
    rw [commandsEq, commandChanges_append]
    exact List.mem_append_left _ listed
  · have notRead := unread raw inEarlier
    simp [reads, read, source] at notRead

private theorem exists_visit_warning {earlier later : List RawCommand} {raw : RawCommand}
    {command : SetCommand} {flag : String} {given : Value} {amount : Float}
    (commandsEq : node.playedCommands store = earlier ++ raw :: later)
    (untouched : ∀ change ∈ commandChanges earlier, flag ∉ change.flags)
    (read : raw.read = some command)
    (resolved : ∀ store : Store, store.get? flag = some given →
      command.expression.resolve store = .number amount)
    (value : store.get? flag = some given) :
    ∃ rest, (node.visit store (textSchema command.flag)).1.warnings =
      (store.runCommands (textSchema command.flag) earlier).2 ++
        .typeCoerced command.flag (.number amount) (.text (Value.number amount).display) ::
          rest := by
  have unset : ∀ change ∈ commandChanges earlier, flag ≠ change.flag :=
    fun change listed same => untouched change listed (same ▸ change.flag_mem_flags)
  obtain ⟨rest, warned⟩ :=
    @exists_warning_of_untouched store earlier later _ _ _ _ _ unset read resolved value
  rw [visit_fst]
  dsimp only
  rw [commandsEq, warned, List.append_assoc]
  exact ⟨_, rfl⟩

/-- A flag that is not listed is read by no played command. -/
theorem HasFootprint.not_read (footprint : node.HasFootprint) {flag : String} {raw : RawCommand}
    (played : raw ∈ node.playedCommands store) (read : reads flag raw = true) :
    flag ∈ node.flags := by
  by_contra unlisted
  -- The first command that reads the flag gives different values, of which the warnings tell, when
  -- the flag has different infinities. Up to this command nothing depends on the flag.
  obtain ⟨first, found⟩ := Option.isSome_iff_exists.mp
    (List.find?_isSome.mpr ⟨raw, played, read⟩)
  obtain ⟨firstReads, earlier, later, commandsEq, before⟩ := List.find?_eq_some_iff_append.mp found
  obtain ⟨command, commandRead, source⟩ := (Option.any_eq_true _ _).mp firstReads
  obtain ⟨expression, expressionRead, commandEq⟩ := Option.map_eq_some_iff.mp commandRead
  obtain rfl : expression = command.expression := by rw [← commandEq]
  obtain ⟨amount, apart, resolved⟩ :=
    exists_resolve_ne expressionRead (by simpa using source)
  let start (negative : Bool) : Store := store.set flag (.number (infiniteNumber negative))
  have agreeStart (negative : Bool) : ∀ asked ∈ node.flags,
      store.held asked = (start negative).held asked := by
    intro asked listed
    have other : asked ≠ flag := fun same => unlisted (same ▸ listed)
    simp [start, other]
  have sameCommands (negative : Bool) :
      node.playedCommands (start negative) = earlier ++ first :: later := by
    rw [← commandsEq, playedCommands, playedCommands, scene_congr (agreeStart negative)]
  have untouched := footprint.not_mem_flags_of_earlier unlisted commandsEq
    fun other inEarlier => by simpa using before other inEarlier
  have warnings (negative : Bool) := exists_visit_warning (sameCommands negative) untouched
    commandRead (fun store => resolved store negative) (by simp [start])
  obtain ⟨positiveRest, positive⟩ := warnings false
  obtain ⟨negativeRest, negative⟩ := warnings true
  have sameStart : ((start false).runCommands (textSchema command.flag) earlier).2 =
      ((start true).runCommands (textSchema command.flag) earlier).2 := by
    refine @Store.warnings_runCommands_congr _ _ _ {asked | asked ≠ flag} _ ?_ ?_
    · intro asked other
      have other : asked ≠ flag := other
      simp [start, other]
    · exact fun change listed asked inChange same => untouched change listed (same ▸ inChange)
  have sameVisit := (footprint.visit_congr (textSchema command.flag) (start false) (start true)
    fun asked listed =>
      (agreeStart false asked listed).symm.trans (agreeStart true asked listed)).1
  rw [sameVisit, negative, sameStart] at positive
  have sameWarning := (List.cons.inj (List.append_cancel_left positive)).1
  injection sameWarning with _ sameValue _
  injection sameValue with sameAmount
  exact apart sameAmount.symm

/-- A node has its footprint exactly when it lists the flags that the content it plays sets and
reads line by line. -/
theorem hasFootprint_iff (node : Node) :
    node.HasFootprint ↔ ∀ store, ∀ content ∈ (node.scene store).content,
      ∀ flag ∈ playedFlags content, flag ∈ node.flags := by
  constructor
  · intro footprint store content played flag used
    have commands : node.playedCommands store = contentCommands content := by
      unfold playedCommands
      rw [Option.mem_def.mp played, Option.elim_some]
    obtain ⟨change, listed, inChange⟩ := List.mem_flatMap.mp used
    obtain ⟨command, commandListed, rfl⟩ := List.mem_map.mp listed
    obtain ⟨raw, rawListed, read⟩ := List.mem_filterMap.mp commandListed
    rw [← commands] at listed rawListed
    rcases List.mem_cons.mp inChange with target | source
    · rw [target]
      exact footprint.not_set listed
    · exact footprint.not_read rawListed (by simp [reads, read, source])
  · intro covered
    refine hasFootprint_of_covered fun store change listed flag inChange => ?_
    unfold playedCommands at listed
    cases played : (node.scene store).content with
    | none => simp [played, commandChanges] at listed
    | some content =>
        rw [played, Option.elim_some] at listed
        exact covered store content played flag (List.mem_flatMap.mpr ⟨change, listed, inChange⟩)

/-- A command that is open at the end of a line hides the one on the next line from the list. -/
def splitCommandNode : Node :=
  .npc "a" "Take <<set $gold = 5\nor leave <<set $silver = 3>>"

theorem silver_set_unlisted :
    splitCommandNode.flags = ["gold"] ∧
      (splitCommandNode.visit (.ofSchema .empty .empty) .empty).2.get? "silver" =
        some (.number 3) ∧ ¬ splitCommandNode.HasFootprint := by
  have listed : splitCommandNode.flags = ["gold"] := by decide +kernel
  have given : (splitCommandNode.visit (.ofSchema .empty .empty) .empty).2.get? "silver" =
      some (.number 3) := by decide +kernel
  refine ⟨listed, given, fun footprint => ?_⟩
  have kept := footprint.held_of_not_mem .empty (.ofSchema .empty .empty) "silver"
    (by rw [listed]; decide)
  have value : some (Value.number 3) = none := given.symm.trans (Prod.mk.inj kept).1
  cases value

end Node

end BranchingDialogue

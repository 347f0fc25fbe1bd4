import BranchingDialogue.Editor
import BranchingDialogue.Proofs.Flag.Schema
import BranchingDialogue.Proofs.Json.GameState
import BranchingDialogue.Proofs.Json.ShortNumber
import BranchingDialogue.Proofs.Play.FlagChange
import BranchingDialogue.Proofs.Play.SessionStep

/-! A game is saved as the text of its game state, and resumed when a new session starts from that
text. A flag that has a value keeps having one while a session is played, so that a saved game gives
values to all flags with defaults and hides no default of the schema. What can be lost is in the
text itself: the numbers that are not read back from it. -/

namespace BranchingDialogue

namespace Session

/-- What stays the same in a session while it is played: the tree, the schema and the values that
the store was created with. The flags of these values keep having values. -/
structure Stays (tree : DialogueTree) (schema : FlagSchema) (initial : SortedMap Value)
    (session : Session) : Prop where
  sameTree : session.tree = tree
  sameSchema : session.schema = schema
  created : session.store.initial = initial
  valued : ∀ flag, (initial.get? flag).isSome = true → (session.store.get? flag).isSome = true

section

variable {tree : DialogueTree} {schema : FlagSchema} {initial : SortedMap Value}
  {session : Session}

theorem Stays.step {next : Session} (step : session.Step next)
    (stays : session.Stays tree schema initial) : next.Stays tree schema initial := by
  obtain ⟨sameTree, sameSchema, created, valued⟩ := stays
  cases step with
  | @enter id node unseen here stored =>
      refine ⟨sameTree, sameSchema, by simpa [enter] using created, fun flag listed => ?_⟩
      dsimp only [enter]
      rw [node.visit_eq_runChanges]
      exact isSome_get?_runChanges _ _ (valued flag listed)
  | follow seen speech => exact ⟨sameTree, sameSchema, created, valued⟩
  | @take visit choice seen visible =>
      refine ⟨sameTree, sameSchema, ?_, fun flag listed => ?_⟩
      · exact (choice.initial_take session.store session.schema).trans created
      · dsimp only [moveTo, take, Choice.take]
        rw [← runChanges_raises]
        exact isSome_get?_runChanges _ _ (valued flag listed)
  | restart =>
      refine ⟨sameTree, sameSchema, created, fun _ listed => ?_⟩
      simpa [Session.restart, begin, Store.reset, Store.get?, created] using listed

end

/-- A text that saves a session: that of its game state, with the entries in some order. -/
def Saves (session : Session) (text : String) : Prop :=
  ∃ entries, entries.Perm session.gameState.entries ∧ text = GameState.textOf entries

end Session

namespace Editor

def operate (session : Session) : Session.Operation → Session
  | .look => (current session).2
  | .advance => (advance session).2
  | .choose index => (choose session index).2
  | .restart => session.restart

def operateAll (session : Session) (operations : List Session.Operation) : Session :=
  operations.foldl operate session

private theorem steps_afterMove (moved : Except PlayError (Option Visit) × Session) :
    moved.2.Steps (afterMove moved).2 := by
  obtain ⟨answer, session⟩ := moved
  cases answer with
  | error refusal => exact .refl
  | ok visit => exact session.steps_look

private theorem steps_operate (session : Session) (operation : Session.Operation) :
    session.Steps (operate session operation) := by
  cases operation with
  | look => exact session.steps_look
  | advance => exact session.steps_advance.trans (steps_afterMove _)
  | choose index => exact (session.steps_choose index).trans (steps_afterMove _)
  | restart => exact .single .restart

private theorem steps_operateAll (session : Session) (operations : List Session.Operation) :
    session.Steps (operateAll session operations) :=
  List.foldlRecOn operations _ .refl fun _ steps operation _ =>
    steps.trans (steps_operate _ operation)

/-! ## Starting a session -/

private theorem mapError_eq_ok_iff {Reason Other Result : Type} {outcome : Except Reason Result}
    {convert : Reason → Other} {result : Result} :
    outcome.mapError convert = .ok result ↔ outcome = .ok result := by
  cases outcome <;> simp [Except.mapError]

private theorem isKeyed_of_readSchema {text : String} {schema : FlagSchema}
    (read : readSchema text = .ok schema) : schema.IsKeyed := by
  unfold readSchema at read
  split at read
  · cases read
    exact FlagSchema.isKeyed_empty
  · have parsed := mapError_eq_ok_iff.mp read
    unfold FlagSchema.ofJson at parsed
    split at parsed
    · cases parsed
    · exact FlagSchema.isKeyed_of_ofDefinitions (mapError_eq_ok_iff.mp parsed)

private theorem readState_textOf (entries : List (String × Value)) (state : GameState) :
    readState (GameState.textOf entries) = .ok state ↔
      GameState.read? (GameState.textOf entries) = some state := by
  -- A blank text would be read as the empty state.
  have shown : isBlank (GameState.textOf entries) = false := by
    obtain ⟨inside, starts⟩ : ∃ inside, (GameState.textOf entries).toList = '{' :: inside := by
      cases entries <;> exact ⟨_, String.toList_ofList⟩
    rw [isBlank, starts]
    rfl
  unfold readState
  rw [shown]
  cases GameState.read? (GameState.textOf entries) <;> simp

/-- A session starts from a tree and a schema that are read, at the start of the tree, whatever the
game state is. -/
theorem startSession_eq_ok_iff {treeText schemaText stateText : String} {session : Session} :
    startSession treeText schemaText stateText = .ok session ↔
      ∃ tree schema state, readTree treeText = .ok tree ∧ readSchema schemaText = .ok schema ∧
        readState stateText = .ok state ∧ tree.isEmpty = false ∧
        tree.contains tree.start = true ∧
        session = Session.begin tree schema tree.start (Store.ofSchema schema state) := by
  unfold startSession
  cases readTree treeText with
  | error reason => simp [bind, Except.bind]
  | ok tree =>
      cases readSchema schemaText with
      | error reason => simp [bind, Except.bind]
      | ok schema =>
          cases readState stateText with
          | error reason => simp [bind, Except.bind]
          | ok state =>
              simp only [bind, Except.bind, mapError_eq_ok_iff, Session.build, Option.getD_none,
                Except.ok.injEq, ↓existsAndEq, true_and]
              cases tree.isEmpty <;> cases tree.contains tree.start <;> simp [eq_comm]

/-! ## Resuming a game -/

section Resumed

variable {treeText schemaText stateText saved : String} {session : Session}

/-- What a session that has started and was played saves: values of saved flags only, and of all
flags with defaults. -/
theorem gameState_operateAll (started : startSession treeText schemaText stateText = .ok session)
    (operations : List Session.Operation) :
    let state := (operateAll session operations).gameState
    (∀ id, (state.get? id).isSome = true → session.schema.isSaved id = true) ∧
      ∀ id, (session.schema.defaults.get? id).isSome = true → (state.get? id).isSome = true := by
  obtain ⟨tree, schema, begun, -, schemaRead, -, -, -, rfl⟩ := startSession_eq_ok_iff.mp started
  have keyed : schema.IsKeyed := isKeyed_of_readSchema schemaRead
  let initial := schema.defaults.insertAll begun.entries
  have stays : (Session.begin tree schema tree.start (Store.ofSchema schema begun)).Stays tree schema
      initial := ⟨rfl, rfl, rfl, fun _ listed => listed⟩
  have played := (steps_operateAll _ operations).keep Session.Stays.step stays
  generalize operateAll _ operations = last at played
  have found (id : String) : last.gameState.get? id =
      (last.store.get? id).filter fun _ => schema.isSaved id := by
    rw [Session.gameState, played.sameSchema, Store.get?_gameState]
  refine ⟨fun id valued => ?_, fun id listed => ?_⟩
  · rw [found] at valued
    obtain ⟨value, equality⟩ := Option.isSome_iff_exists.mp valued
    exact (Option.filter_eq_some_iff.mp equality).2
  · have isSaved : schema.isSaved id = true := FlagSchema.isSaved_of_default keyed listed
    have started : (initial.get? id).isSome = true :=
      (SortedMap.isSome_get?_insertAll _ _ _).mpr (Or.inr listed)
    obtain ⟨value, equality⟩ := Option.isSome_iff_exists.mp (played.valued id started)
    simp [found, equality, isSaved]

/-- The session that is resumed with what the texts of the values are read as. -/
def resumedWith (session : Session) (state : GameState) : Session :=
  Session.begin session.tree session.schema session.start (Store.ofSchema session.schema state)

private theorem gameState_resumedWith
    (started : startSession treeText schemaText stateText = .ok session)
    (operations : List Session.Operation) {state : GameState}
    (readAs : (operateAll session operations).gameState.ReadsAs state) :
    (resumedWith session state).gameState = state := by
  obtain ⟨declared, covers⟩ := gameState_operateAll started operations
  refine Store.gameState_ofSchema (fun id valued => ?_) fun id listed => ?_
  · rw [readAs.isSome_get?] at valued
    exact declared id valued
  · rw [readAs.isSome_get?]
    exact covers id listed

/-- A saved game starts a session if its text is read as a game state, and only then. -/
theorem startSession_saved_iff
    (started : startSession treeText schemaText stateText = .ok session)
    (operations : List Session.Operation) (saves : (operateAll session operations).Saves saved)
    (resumed : Session) :
    startSession treeText schemaText saved = .ok resumed ↔
      ∃ state, (operateAll session operations).gameState.ReadsAs state ∧
        resumed = resumedWith session state := by
  obtain ⟨tree, schema, begun, treeRead, schemaRead, -, filled, present, rfl⟩ :=
    startSession_eq_ok_iff.mp started
  obtain ⟨entries, order, rfl⟩ := saves
  have stateRead (state : GameState) := (readState_textOf entries state).trans
    (GameState.read?_textOf_iff order)
  rw [startSession_eq_ok_iff]
  constructor
  · rintro ⟨otherTree, otherSchema, state, treeAgain, schemaAgain, read, -, -, rfl⟩
    cases treeRead.symm.trans treeAgain
    cases schemaRead.symm.trans schemaAgain
    exact ⟨state, (stateRead state).mp read, rfl⟩
  · rintro ⟨state, readAs, rfl⟩
    exact ⟨tree, schema, state, treeRead, schemaRead, (stateRead state).mpr readAs, filled, present,
      rfl⟩

/-- Whether a text resumes a game with a state: it starts a session with that state, whose own texts
write the state again. -/
def Resumes (treeText schemaText saved : String) (state : GameState) : Prop :=
  ∃ resumed, startSession treeText schemaText saved = .ok resumed ∧ resumed.gameState = state ∧
    ∀ again, resumed.Saves again → GameState.read? again = some state

/-- Whatever was done in a session, its saved game is resumed if all its numbers are read back from
their texts, and only then. Finite numbers with short texts are. -/
theorem resumes_iff (started : startSession treeText schemaText stateText = .ok session)
    (operations : List Session.Operation) (saves : (operateAll session operations).Saves saved) :
    let state := (operateAll session operations).gameState
    (Resumes treeText schemaText saved state ↔
      ∀ id amount, state.get? id = some (.number amount) → Json.Survives amount) ∧
      ((∀ id amount, state.get? id = some (.number amount) →
          amount.isFinite = true ∧ Json.IsShort amount) →
        Resumes treeText schemaText saved state) := by
  intro state
  have starts := startSession_saved_iff started operations saves
  have stateOf := @gameState_resumedWith _ _ _ _ started operations
  have resumes : Resumes treeText schemaText saved state ↔ state.ReadsAs state := by
    constructor
    · rintro ⟨resumed, startedAgain, same, -⟩
      obtain ⟨other, readAs, rfl⟩ := (starts resumed).mp startedAgain
      rw [stateOf readAs] at same
      rw [same] at readAs
      exact readAs
    · intro readAs
      -- The resumed session is new, so that its own texts write the state that was read.
      have same : (resumedWith session state).gameState = state := stateOf readAs
      refine ⟨resumedWith session state, (starts _).mpr ⟨state, readAs, rfl⟩, same, ?_⟩
      rintro again ⟨entries, order, rfl⟩
      rw [same] at order
      exact (GameState.read?_textOf_iff order).mpr readAs
  rw [resumes, GameState.readsAs_self_iff]
  refine ⟨Iff.rfl, fun short id amount stored => ?_⟩
  obtain ⟨finite, isShort⟩ := short id amount stored
  exact Json.survives_of_isShort finite isShort

end Resumed

/-! ## Purses of gold -/

def purseTree (content : String) : DialogueTree :=
  (DialogueTree.bare "purse" "Purse" "open").withNode (Node.npc "open" content)

/-- A schema with gold as a number, of which there is one piece at first. -/
def purseSchema : FlagSchema :=
  FlagSchema.empty.insert ⟨"gold", "Gold", .stat, some .number, some (.number 1.0), none⟩

def purseSession (content : String) : Session :=
  Session.begin (purseTree content) purseSchema "open" (Store.ofSchema purseSchema .empty)

private theorem startSession_purse (content : String) :
    startSession (purseTree content).toJson.compact purseSchema.toJson.compact "" =
      .ok (purseSession content) := by
  have keys : (purseTree content).toJson.hasKeys = true := rfl
  have tree : readTree (purseTree content).toJson.compact = .ok (purseTree content) := by
    unfold readTree DialogueTree.read?
    rw [Json.read_compact keys]
    rfl
  have schema : readSchema purseSchema.toJson.compact = .ok purseSchema := by decide +kernel
  exact startSession_eq_ok_iff.mpr
    ⟨_, _, .empty, tree, schema, by decide +kernel, rfl, rfl, rfl⟩

/-- Two and a half pieces of gold are resumed. -/
theorem resumes_halfGold :
    let content := "Some gold. <<set $gold = 2.5>>"
    let treeText := (purseTree content).toJson.compact
    let schemaText := purseSchema.toJson.compact
    let played := operateAll (purseSession content) [.look]
    let saved := "\x7b\"gold\":2.5\x7d"
    startSession treeText schemaText "" = .ok (purseSession content) ∧ played.Saves saved ∧
      Resumes treeText schemaText saved played.gameState := by
  intro content treeText schemaText played saved
  have started : startSession treeText schemaText "" = .ok (purseSession content) :=
    startSession_purse content
  have state : played.gameState = SortedMap.ofList [("gold", .number 2.5)] := by decide +kernel
  have saves : played.Saves saved := ⟨[("gold", .number 2.5)], by decide +kernel, by decide +kernel⟩
  refine ⟨started, saves, (resumes_iff started [.look] saves).2 fun id amount stored => ?_⟩
  have listed : (id, Value.number amount) ∈ played.gameState.entries :=
    SortedMap.get?_eq_some_iff.mp stored
  rw [state] at listed
  obtain ⟨-, rfl⟩ : id = "gold" ∧ amount = 2.5 := by
    simpa [SortedMap.ofList, SortedMap.insertAll, SortedMap.insert, SortedMap.putIn,
      SortedMap.empty] using listed
  decide +kernel

/-- Infinite gold is saved as a text that starts no session. -/
theorem infinite_gold_refused :
    let content := "Some gold. <<set $gold = inf>>"
    let treeText := (purseTree content).toJson.compact
    let schemaText := purseSchema.toJson.compact
    let played := operateAll (purseSession content) [.look]
    let saved := "\x7b\"gold\":null\x7d"
    startSession treeText schemaText "" = .ok (purseSession content) ∧ played.Saves saved ∧
      startSession treeText schemaText saved = .error .invalidState := by
  intro content treeText schemaText played saved
  have started : startSession treeText schemaText "" = .ok (purseSession content) :=
    startSession_purse content
  have saves : played.Saves saved :=
    ⟨[("gold", .number (1.0 / 0.0))], by decide +kernel, by decide +kernel⟩
  have refused : readState saved = .error .invalidState := by decide +kernel
  obtain ⟨tree, schema, -, treeRead, schemaRead, -⟩ := startSession_eq_ok_iff.mp started
  refine ⟨started, saves, ?_⟩
  unfold startSession
  rw [treeRead, schemaRead, refused]
  rfl

end Editor

end BranchingDialogue

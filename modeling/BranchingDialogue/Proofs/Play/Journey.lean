import BranchingDialogue.Play.Session
import BranchingDialogue.Proofs.Play.Snapshot

/-! A journey is what a playthrough comes to when nothing is put off: the list of the nodes that
were visited and the choices that were taken, and the place that was reached. Store and warnings of
a journey are those of its deeds, carried out one after another. A session visits its nodes late and
keeps the visit it has made. This module proves that it still goes the way of the journey. -/

namespace BranchingDialogue

/-! ## Deeds -/

/-- What can change the flags of a playthrough: the visit of a node or the taking of a choice. -/
inductive Deed
  | visit (node : Node)
  | take (choice : Choice)
  deriving DecidableEq

def Deed.run (schema : FlagSchema) (store : Store) : Deed → Store × List FlagWarning
  | .visit node =>
      let (made, after) := node.visit store schema
      (after, made.warnings)
  | .take choice => choice.take store schema

def runDeeds (schema : FlagSchema) (store : Store) : List Deed → Store × List FlagWarning
  | [] => (store, [])
  | deed :: rest =>
      let (next, warnings) := deed.run schema store
      let (last, others) := runDeeds schema next rest
      (last, warnings ++ others)

private theorem runDeeds_concat (schema : FlagSchema) (store : Store) (deeds : List Deed)
    (deed : Deed) :
    runDeeds schema store (deeds ++ [deed]) =
      (((deed.run schema (runDeeds schema store deeds).1).1),
        (runDeeds schema store deeds).2 ++
          (deed.run schema (runDeeds schema store deeds).1).2) := by
  induction deeds generalizing store with
  | nil => simp [runDeeds]
  | cons first rest inductionHypothesis =>
      simp only [List.cons_append, runDeeds, inductionHypothesis, List.append_assoc]

@[simp]
theorem Deed.initial_run (schema : FlagSchema) (store : Store) (deed : Deed) :
    (deed.run schema store).1.initial = store.initial := by
  cases deed with
  | visit node => exact Node.initial_visit node store schema
  | take choice => exact Choice.initial_take choice store schema

private theorem initial_runDeeds (schema : FlagSchema) (deeds : List Deed) (store : Store) :
    (runDeeds schema store deeds).1.initial = store.initial := by
  induction deeds generalizing store with
  | nil => rfl
  | cons deed rest inductionHypothesis =>
      simp only [runDeeds, inductionHypothesis, Deed.initial_run]

/-! ## Moves -/

inductive Move
  | advance
  | choose (index : Nat)
  deriving DecidableEq

/-- The moves asked for since the last restart, after one more operation. -/
def noteMove (moves : List Move) : Session.Operation → List Move
  | .look => moves
  | .advance => moves ++ [.advance]
  | .choose index => moves ++ [.choose index]
  | .restart => []

/-- The moves that were asked for since the last restart, whether or not they were possible. -/
def movesSinceRestart (operations : List Session.Operation) : List Move :=
  operations.foldl noteMove []

/-! ## Journeys -/

/-- The deeds so far, and the name and the visit of the node that was reached. At the end of the
dialogue there is no such node. -/
structure Journey where
  deeds : List Deed
  place : Option (String × Visit)
  deriving DecidableEq

namespace Journey

section

variable (tree : DialogueTree) (schema : FlagSchema) (initial : Store)

/-- The journey that goes on to a target after some deeds. The node there is visited once. Without
a node the dialogue is over. -/
def enter (deeds : List Deed) (target : Option String) : Journey :=
  match target.bind fun id => (tree.get? id).map fun node => (id, node) with
  | none => ⟨deeds, none⟩
  | some (id, node) =>
      let store := (runDeeds schema initial deeds).1
      ⟨deeds ++ [.visit node], some (id, (node.visit store schema).1)⟩

/-- The journey after a move. A speech is followed to its target, and a visible choice is taken and
leads to its target. Any other move is impossible and changes nothing. -/
def follow (journey : Journey) (move : Move) : Journey :=
  match journey.place, move with
  | none, _ => journey
  | some (_, visit), .advance =>
      if visit.isDecision then
        journey
      else
        enter tree schema initial journey.deeds visit.next.live
  | some (_, visit), .choose index =>
      match visit.choices[index]? with
      | none => journey
      | some choice =>
          enter tree schema initial (journey.deeds ++ [.take choice]) choice.next.live

/-- The journey from a start with moves one after another. -/
def along (start : String) (moves : List Move) : Journey :=
  moves.foldl (follow tree schema initial) (enter tree schema initial [] (some start))

/-- The session that has gone a journey and has looked at its place. -/
def session (start : String) (journey : Journey) : Session :=
  let (store, warnings) := runDeeds schema initial journey.deeds
  { tree, schema, start, store, warnings
    current := journey.place.map Prod.fst
    visited := journey.place.map Prod.snd }

end

end Journey

/-! ## Targets -/

/-- What is live stays live. -/
@[simp]
theorem Slot.live_live (slot : Slot) : Slot.live (Slot.live slot) = slot.live := by
  simp [live, Option.filter_filter]

/-- The target of a visit is no empty name. -/
theorem Node.live_next_visit (node : Node) (store : Store) (schema : FlagSchema) :
    (node.visit store schema).1.next.live = (node.visit store schema).1.next := by
  have orElse_live (first second : Slot) :
      Slot.live (first.live <|> second.live) = (first.live <|> second.live) := by
    cases found : first.live with
    | none => simp
    | some target =>
        have live : Slot.live (some target) = some target := by
          rw [← found, Slot.live_live]
        simpa using live
  have sceneOfBlock_live (next : Slot) (blocks : List Block) :
      ((Block.select store blocks).elim (⟨node.speaker, none, none⟩ : Scene)
        (node.sceneOfBlock next)).next.live =
      ((Block.select store blocks).elim (⟨node.speaker, none, none⟩ : Scene)
        (node.sceneOfBlock next)).next := by
    cases Block.select store blocks with
    | none => rfl
    | some block => exact orElse_live block.next next
  show (node.scene store).next.live = (node.scene store).next
  unfold scene
  cases node.kind with
  | player choices => rfl
  | conditional blocks => exact sceneOfBlock_live none blocks
  | npc speech =>
      obtain ⟨content, next, raises, blocks⟩ := speech
      cases blocks with
      | none => exact Slot.live_live next
      | some blocks => exact sceneOfBlock_live next blocks

/-! ## Looking -/

namespace Session

private theorem visited_look (session : Session) : session.look.2.visited = session.look.1 := by
  unfold look
  cases seen : session.visited with
  | some visit => simp [seen]
  | none =>
      cases session.current.bind session.tree.get? with
      | none => simp [seen]
      | some node => rfl

/-- Looking changes neither what is played nor where a restart goes. -/
theorem fixed_look (session : Session) :
    session.look.2.tree = session.tree ∧ session.look.2.schema = session.schema ∧
      session.look.2.start = session.start ∧
      session.look.2.store.initial = session.store.initial := by
  unfold look
  cases session.visited with
  | some visit => simp
  | none =>
      cases session.current.bind session.tree.get? with
      | none => simp
      | some node => simp

end Session

/-! ## Sessions follow journeys -/

section

variable {tree : DialogueTree} {schema : FlagSchema} {initial : Store} {start : String}

/-- The visit of the place of a journey leads to no empty name. -/
def Journey.HasLiveNext (journey : Journey) : Prop :=
  ∀ id visit, journey.place = some (id, visit) → visit.next.live = visit.next

private theorem Journey.hasLiveNext_enter (deeds : List Deed) (target : Option String) :
    (enter tree schema initial deeds target).HasLiveNext := by
  intro id visit reached
  unfold enter at reached
  split at reached
  · simp at reached
  · rename_i node _
    obtain ⟨_, rfl⟩ := Prod.mk.inj (Option.some.inj reached)
    exact Node.live_next_visit node _ schema

private theorem Journey.hasLiveNext_follow {journey : Journey} (live : journey.HasLiveNext)
    (move : Move) : (follow tree schema initial journey move).HasLiveNext := by
  unfold follow
  split
  · exact live
  · split
    · exact live
    · exact hasLiveNext_enter _ _
  · split
    · exact live
    · exact hasLiveNext_enter _ _

private theorem Journey.hasLiveNext_along (moves : List Move) :
    (along tree schema initial start moves).HasLiveNext :=
  List.foldlRecOn moves _ (hasLiveNext_enter _ _)
    fun _ live move _ => hasLiveNext_follow live move

/-- A session that was moved to a target, and has not looked at it yet, enters it when it does. -/
theorem Session.look_moveTo (deeds : List Deed) (target : Option String) (session : Session)
    (sameTree : session.tree = tree) (sameSchema : session.schema = schema)
    (sameStart : session.start = start)
    (sameFlags : (session.store, session.warnings) = runDeeds schema initial deeds) :
    (session.moveTo target).look.2 =
      (Journey.enter tree schema initial deeds target).session tree schema initial start := by
  have storeEq : session.store = (runDeeds schema initial deeds).1 := congrArg Prod.fst sameFlags
  have warningsEq : session.warnings = (runDeeds schema initial deeds).2 :=
    congrArg Prod.snd sameFlags
  subst sameTree sameSchema sameStart
  cases target with
  | none => simp [moveTo, look, Journey.enter, Journey.session, storeEq, warningsEq]
  | some id =>
      cases found : session.tree.get? id with
      | none =>
          have absent : session.tree.contains id = false := by
            simpa [DialogueTree.contains, OrderedMap.contains, DialogueTree.get?] using found
          have stopped : (some id).filter session.tree.contains = none := by simp [absent]
          simp [moveTo, look, Journey.enter, Journey.session, found, stopped, storeEq, warningsEq]
      | some node =>
          have present : session.tree.contains id = true := by
            have stored : session.tree.nodes.get? id = some node := found
            simp [DialogueTree.contains, OrderedMap.contains, stored]
          have moved : (some id).filter session.tree.contains = some id := by simp [present]
          simp [moveTo, look, Journey.enter, Journey.session, found, moved, storeEq, warningsEq,
            runDeeds_concat, Deed.run]

/-- A session at its start enters the start when it looks. -/
theorem Session.look_begin (present : tree.contains start = true) :
    (begin tree schema start initial).look.2 =
      (Journey.along tree schema initial start []).session tree schema initial start := by
  have moved : (begin tree schema start initial).moveTo (some start) =
      begin tree schema start initial := by
    simp [begin, moveTo, present]
  rw [← moved]
  exact look_moveTo [] (some start) (begin tree schema start initial) rfl rfl rfl rfl

/-- A session goes along with moves when a look brings it to the end of their journey. -/
def Session.GoesAlong (tree : DialogueTree) (schema : FlagSchema) (initial : Store)
    (start : String) (session : Session) (moves : List Move) : Prop :=
  session.look.2 = (Journey.along tree schema initial start moves).session tree schema initial start

/-- A session that has looked at the place of its journey sees the same visit again. -/
theorem Journey.look_session (journey : Journey) :
    (journey.session tree schema initial start).look =
      (journey.place.map Prod.snd, journey.session tree schema initial start) := by
  unfold session Session.look
  cases journey.place with
  | none => rfl
  | some reached => rfl

/-- What a session that goes along sees when it looks. -/
theorem Session.GoesAlong.look_eq {session : Session} {moves : List Move}
    (along : session.GoesAlong tree schema initial start moves) :
    session.look =
      ((Journey.along tree schema initial start moves).place.map Prod.snd,
        (Journey.along tree schema initial start moves).session tree schema initial start) := by
  refine Prod.ext ?_ along
  rw [← visited_look, along]
  rfl

theorem Session.GoesAlong.advance {session : Session} {moves : List Move}
    (along : session.GoesAlong tree schema initial start moves) :
    session.advance.2.GoesAlong tree schema initial start (moves ++ [.advance]) := by
  have live : (Journey.along tree schema initial start moves).HasLiveNext :=
    Journey.hasLiveNext_along moves
  unfold GoesAlong Journey.along Session.advance
  rw [List.foldl_append, along.look_eq]
  unfold Journey.along at live ⊢
  generalize moves.foldl _ _ = journey at live ⊢
  cases reached : journey.place with
  | none => simp [Journey.follow, reached, Journey.look_session]
  | some place =>
      obtain ⟨id, visit⟩ := place
      cases decision : visit.isDecision with
      | true => simp [Journey.follow, reached, decision, Journey.look_session]
      | false =>
          have moved := @look_moveTo tree schema initial start journey.deeds visit.next
            (journey.session tree schema initial start) rfl rfl rfl rfl
          have next : visit.next.live = visit.next := live id visit reached
          simp [Journey.follow, reached, decision, next, moved, Journey.look_session]

theorem Session.GoesAlong.choose {session : Session} {moves : List Move} (index : Nat)
    (along : session.GoesAlong tree schema initial start moves) :
    (session.choose index).2.GoesAlong tree schema initial start (moves ++ [.choose index]) := by
  unfold GoesAlong Journey.along Session.choose
  rw [List.foldl_append, along.look_eq]
  unfold Journey.along
  generalize moves.foldl _ _ = journey
  cases reached : journey.place with
  | none => simp [Journey.follow, reached, Journey.look_session]
  | some place =>
      obtain ⟨id, visit⟩ := place
      cases picked : visit.choices[index]? with
      | none => simp [Journey.follow, reached, picked, Journey.look_session]
      | some choice =>
          let looked := journey.session tree schema initial start
          let taken := choice.take looked.store looked.schema
          have flags : (taken.1, looked.warnings ++ taken.2) =
              runDeeds schema initial (journey.deeds ++ [.take choice]) := by
            rw [runDeeds_concat]
            rfl
          have moved := @look_moveTo tree schema initial start
            (journey.deeds ++ [.take choice]) choice.next.live
            { looked with store := taken.1, warnings := looked.warnings ++ taken.2 }
            rfl rfl rfl flags
          simp [Journey.follow, reached, picked, moved, looked, taken, Journey.look_session]

theorem Session.GoesAlong.restart {session : Session} {moves : List Move}
    (present : tree.contains start = true) (created : initial.reset = initial)
    (along : session.GoesAlong tree schema initial start moves) :
    session.restart.GoesAlong tree schema initial start [] := by
  obtain ⟨sameTree, sameSchema, sameStart, sameInitial⟩ := session.fixed_look
  have fresh : session.store.reset = initial := by
    have snapshot : session.store.initial = initial.initial := by
      rw [← sameInitial, along]
      exact initial_runDeeds schema _ initial
    rw [← created]
    simp only [Store.reset, snapshot]
  have begun : session.restart = begin tree schema start initial := by
    unfold Session.restart
    rw [fresh, ← sameTree, ← sameSchema, ← sameStart, along]
    rfl
  rw [begun]
  exact look_begin present

/-- One operation keeps a session on the journey of the moves since the last restart. -/
theorem Session.GoesAlong.perform {session : Session} {moves : List Move}
    (present : tree.contains start = true) (created : initial.reset = initial)
    (along : session.GoesAlong tree schema initial start moves) (operation : Operation) :
    (session.perform operation).2.GoesAlong tree schema initial start
      (noteMove moves operation) := by
  cases operation with
  | look =>
      show session.look.2.look.2 = _
      rw [along, Journey.look_session]
      rfl
  | advance => exact along.advance
  | choose index => exact along.choose index
  | restart => exact along.restart present created

theorem Session.GoesAlong.after (present : tree.contains start = true)
    (created : initial.reset = initial) (operations : List Operation) {session : Session}
    {moves : List Move} (along : session.GoesAlong tree schema initial start moves) :
    (session.after operations).GoesAlong tree schema initial start
      (operations.foldl noteMove moves) := by
  induction operations generalizing session moves with
  | nil => exact along
  | cons operation rest inductionHypothesis =>
      exact inductionHypothesis (along.perform present created operation)

end

/-- A session that was built starts at a node of its tree, with the store of schema and state. -/
theorem Session.build_eq_ok {tree : DialogueTree} {schema : FlagSchema} {state : GameState}
    {start : Option String} {session : Session}
    (built : build tree schema state start = .ok session) :
    tree.contains (start.getD tree.start) = true ∧
      session = begin tree schema (start.getD tree.start) (Store.ofSchema schema state) := by
  unfold build at built
  split at built
  · cases built
  · dsimp only at built
    split at built
    · rename_i present
      cases built
      exact ⟨present, rfl⟩
    · cases built

/-- Whatever was done to a session, a look finds it where the journey of the moves since the last
restart ends: each node on the way was visited once when it was entered, each choice was taken once,
and the store and the warnings are those of these deeds in order. -/
theorem Session.look_after_eq_journey {tree : DialogueTree} {schema : FlagSchema}
    {state : GameState} {start : Option String} {session : Session}
    (built : build tree schema state start = .ok session) (operations : List Operation) :
    let initial := Store.ofSchema schema state
    let journey :=
      Journey.along tree schema initial (start.getD tree.start) (movesSinceRestart operations)
    let (visit, looked) := (session.after operations).look
    (looked.store, looked.warnings) = runDeeds schema initial journey.deeds ∧
      looked.current = journey.place.map Prod.fst ∧ visit = journey.place.map Prod.snd := by
  obtain ⟨present, rfl⟩ := build_eq_ok built
  have along :
      ((begin tree schema (start.getD tree.start) (Store.ofSchema schema state)).after
        operations).GoesAlong tree schema (Store.ofSchema schema state) (start.getD tree.start)
          (movesSinceRestart operations) :=
    GoesAlong.after present rfl operations (look_begin present)
  intro initial journey
  rw [along.look_eq]
  exact ⟨rfl, rfl, rfl⟩

/-- A speech that counts coins and leads back to itself. -/
def coinLoop : DialogueTree :=
  (DialogueTree.bare "purse" "Purse" "count").withNode
    ((Node.npc "count" "One more. <<set $coins to $coins + 1>>").withNext "count")

/-- Looking twice at the first node, and asking for a choice that it does not have, counts no coin.
After one step there are two of them. -/
theorem Session.look_after_coinLoop :
    let initial := Store.ofSchema .empty .empty
    let operations := [.advance, .restart, .look, .look, .choose 0, .advance]
    let journey := Journey.along coinLoop .empty initial "count" (movesSinceRestart operations)
    let looked := ((begin coinLoop .empty "count" initial).after operations).look.2
    build coinLoop .empty .empty none = .ok (begin coinLoop .empty "count" initial) ∧
      journey.deeds.length = 2 ∧
      (looked.store, looked.warnings) = runDeeds .empty initial journey.deeds ∧
      looked.store.get? "coins" = some (.number 2.0) := by
  intro initial operations journey looked
  have built :
      build coinLoop .empty .empty none = .ok (begin coinLoop .empty "count" initial) := rfl
  have followed := look_after_eq_journey built operations
  refine ⟨built, by decide +kernel, followed.1, by decide +kernel⟩

end BranchingDialogue

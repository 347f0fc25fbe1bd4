import BranchingDialogue.Json.Flags
import BranchingDialogue.Proofs.Json.Document
import BranchingDialogue.Proofs.Keyed.Sorted

/-! A game state is written as an object whose members can be in any order. It is read as the values
that the texts of its members are read as. Constants and texts are read back, and so are the numbers
that survive. -/

namespace BranchingDialogue

open Json

/-! ## Values -/

namespace Value

/-- What the text of a value is read as. -/
def asRead? (value : Value) : Option Value :=
  ofJson? value.toJson.asRead

@[simp]
theorem asRead?_bool (truth : Bool) : asRead? (.bool truth) = some (.bool truth) := by
  simp [asRead?, toJson, Json.asRead, ofJson?]

@[simp]
theorem asRead?_text (content : String) : asRead? (.text content) = some (.text content) := by
  simp [asRead?, toJson, ofString, Json.asRead, ofJson?]

/-- A number is read back if it survives, and only then. -/
theorem asRead?_number_iff {amount : Float} :
    asRead? (.number amount) = some (.number amount) ↔ Survives amount := by
  simp only [asRead?, toJson, Json.asRead, Number.asRead]
  constructor
  · intro same
    split at same
    · rename_i number read
      obtain ⟨other, otherEq, equality⟩ := Option.map_eq_some_iff.mp same
      cases equality
      exact survives_of_toFloat? read otherEq
    · cases same
  · intro survives
    unfold Survives at survives
    rw [survives]
    rfl

/-- A value is read back unless it is a number that does not survive. -/
theorem asRead?_eq_self_iff {value : Value} :
    value.asRead? = some value ↔ ∀ amount, value = .number amount → Survives amount := by
  cases value with
  | bool truth => simp
  | text content => simp
  | number amount => simp [asRead?_number_iff]

private theorem hasKeys_toJson (value : Value) : value.toJson.hasKeys = true := by
  cases value <;> rfl

end Value

namespace GameState

/-! ## Texts of game states -/

private theorem haveMemberKeys_entries (entries : List (String × Value)) :
    haveMemberKeys (entries.map fun (id, value) => member id value.toJson) = true := by
  induction entries with
  | nil => rfl
  | cons entry entries inductionHypothesis =>
      obtain ⟨id, value⟩ := entry
      simp only [List.map_cons, member, haveMemberKeys, Value.hasKeys_toJson]
      simpa [member] using inductionHypothesis

private theorem namedMembers_entries (entries : List (String × Value)) :
    namedMembers (membersAsRead (entries.map fun (id, value) => member id value.toJson)) =
      some (entries.map fun (id, value) => (id, value.toJson.asRead)) := by
  induction entries with
  | nil => rfl
  | cons entry entries inductionHypothesis =>
      obtain ⟨id, value⟩ := entry
      unfold namedMembers at inductionHypothesis ⊢
      simp only [List.map_cons, member, membersAsRead, List.mapM_cons] at inductionHypothesis ⊢
      rw [inductionHypothesis]
      rfl

/-- The entries whose values are what the texts of those of other entries are read as. -/
def entriesAsRead? (entries : List (String × Value)) : Option (List (String × Value)) :=
  entries.mapM fun (id, value) => (Value.asRead? value).map fun read => (id, read)

/-- The text of entries is read as the map of their values as they are read. -/
theorem read?_textOf (entries : List (String × Value)) :
    read? (textOf entries) = (entriesAsRead? entries).map SortedMap.ofList := by
  have keys : (Json.object (entries.map fun (id, value) => member id value.toJson)).hasKeys = true :=
    haveMemberKeys_entries entries
  unfold read? textOf entriesAsRead?
  rw [read_compact keys, Option.bind_some, Json.asRead, ofJson?, namedMembers_entries]
  dsimp only [Option.bind_eq_bind, Option.bind_some]
  rw [List.mapM_map]
  rw [Option.map_eq_bind]
  rfl

/-! ## States as they are read -/

/-- Whether the texts of the values of a state are read as the values of another one. -/
def ReadsAs (state other : GameState) : Prop :=
  ∀ id, (other.get? id).map some = (state.get? id).map Value.asRead?

/-- A state is read with the same flags. -/
theorem ReadsAs.isSome_get? {state other : GameState} (readAs : state.ReadsAs other)
    (id : String) : (other.get? id).isSome = (state.get? id).isSome := by
  simpa using congrArg Option.isSome (readAs id)

private theorem entriesAsRead?_cons {id : String} {value : Value}
    {entries read : List (String × Value)} :
    entriesAsRead? ((id, value) :: entries) = some read ↔
      ∃ first others, value.asRead? = some first ∧ entriesAsRead? entries = some others ∧
        read = (id, first) :: others := by
  unfold entriesAsRead?
  rw [List.mapM_cons]
  dsimp only
  cases value.asRead? with
  | none => simp
  | some first => simp [Option.bind_eq_some_iff, @eq_comm _ _ read]

/-- The values of entries that are read are found under the same names. -/
theorem lookup_of_entriesAsRead? {entries read : List (String × Value)}
    (readEq : entriesAsRead? entries = some read) :
    read.map Prod.fst = entries.map Prod.fst ∧
      ∀ id, (read.lookup id).map some = (entries.lookup id).map Value.asRead? := by
  induction entries generalizing read with
  | nil =>
      cases readEq
      simp
  | cons entry entries inductionHypothesis =>
      obtain ⟨id, value⟩ := entry
      obtain ⟨first, others, firstEq, othersEq, rfl⟩ := entriesAsRead?_cons.mp readEq
      obtain ⟨names, values⟩ := inductionHypothesis othersEq
      refine ⟨by simp [names], fun asked => ?_⟩
      rw [lookup_cons_ite, lookup_cons_ite]
      by_cases same : asked = id
      · rw [if_pos same, if_pos same, Option.map_some, Option.map_some, firstEq]
      · rw [if_neg same, if_neg same]
        exact values asked

private theorem exists_entriesAsRead? {entries : List (String × Value)}
    (readable : ∀ entry ∈ entries, entry.2.asRead?.isSome = true) :
    ∃ read, entriesAsRead? entries = some read := by
  induction entries with
  | nil => exact ⟨[], rfl⟩
  | cons entry entries inductionHypothesis =>
      obtain ⟨id, value⟩ := entry
      obtain ⟨firstReadable, othersReadable⟩ := List.forall_mem_cons.mp readable
      obtain ⟨first, firstEq⟩ := Option.isSome_iff_exists.mp firstReadable
      obtain ⟨others, othersEq⟩ := inductionHypothesis othersReadable
      exact ⟨(id, first) :: others, entriesAsRead?_cons.mpr ⟨first, others, firstEq, othersEq, rfl⟩⟩

/-- The text of a game state is read as another one if the texts of its values are, in whatever order
its entries are written. -/
theorem read?_textOf_iff {state other : GameState} {entries : List (String × Value)}
    (order : entries.Perm state.entries) :
    read? (textOf entries) = some other ↔ state.ReadsAs other := by
  have distinct : (entries.map Prod.fst).Nodup :=
    (order.map Prod.fst).nodup_iff.mpr state.nodup_names
  have found (id : String) : entries.lookup id = state.get? id :=
    lookup_perm order distinct id
  have readAs {read : List (String × Value)} (readEq : entriesAsRead? entries = some read) :
      state.ReadsAs (SortedMap.ofList read) := by
    obtain ⟨names, values⟩ := lookup_of_entriesAsRead? readEq
    intro id
    rw [SortedMap.get?_ofList (names ▸ distinct), values, found]
  have unique {first second : GameState} (firstAs : state.ReadsAs first)
      (secondAs : state.ReadsAs second) : first = second :=
    SortedMap.ext_get? fun id =>
      Option.map_injective (Option.some_injective _) ((firstAs id).trans (secondAs id).symm)
  rw [read?_textOf, Option.map_eq_some_iff]
  constructor
  · rintro ⟨read, readEq, rfl⟩
    exact readAs readEq
  · intro otherAs
    have readable : ∀ entry ∈ entries, entry.2.asRead?.isSome = true := by
      rintro ⟨id, value⟩ member
      have stored : state.get? id = some value := by
        rw [← found]
        exact (lookup_eq_some_iff_mem distinct).mpr member
      have read := otherAs id
      rw [stored] at read
      obtain ⟨first, -, firstEq⟩ := Option.map_eq_some_iff.mp read
      simp [← firstEq]
    obtain ⟨read, readEq⟩ := exists_entriesAsRead? readable
    exact ⟨read, readEq, unique (readAs readEq) otherAs⟩

/-- A game state is read back if all its numbers survive, and only then. -/
theorem readsAs_self_iff {state : GameState} :
    state.ReadsAs state ↔
      ∀ id amount, state.get? id = some (.number amount) → Survives amount := by
  constructor
  · intro same id amount stored
    have read := same id
    rw [stored] at read
    exact Value.asRead?_number_iff.mp (Option.some.inj read).symm
  · intro survive id
    cases stored : state.get? id with
    | none => rfl
    | some value =>
        have read : value.asRead? = some value :=
          Value.asRead?_eq_self_iff.mpr fun amount isNumber => survive id amount (isNumber ▸ stored)
        simp [read]

end GameState

end BranchingDialogue

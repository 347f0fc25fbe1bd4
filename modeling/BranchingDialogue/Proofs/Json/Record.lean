import BranchingDialogue.Json.Record
import BranchingDialogue.Proofs.Json.Document

/-! A record is written as an object with one slot for each field, and the slots without a value are
left out. Whatever slots are left out, each field is read as the value of its slot. -/

namespace BranchingDialogue.Json

/-! ## Slots -/

def record (slots : List (String × Option Json)) : List (Text × Json) :=
  slots.flatMap fun slot => optionalMember slot.1 slot.2

def present (slots : List (String × Option Json)) : Fields :=
  slots.filterMap fun slot => slot.2.map fun value => (slot.1, value)

variable {slots : List (String × Option Json)} {name : String} {value : Json}

private theorem mem_record {member : Text × Json} :
    member ∈ record slots ↔
      ∃ name value, (name, some value) ∈ slots ∧ member = (some name, value) := by
  simp only [record, optionalMember, List.mem_flatMap, Option.mem_toList, Option.map_eq_some_iff,
    Prod.exists, Json.member]
  constructor
  · rintro ⟨name, _, listed, value, rfl, equality⟩
    exact ⟨name, value, listed, equality.symm⟩
  · rintro ⟨name, value, listed, rfl⟩
    exact ⟨name, some value, listed, value, rfl, rfl⟩

theorem mem_present {field : String × Json} :
    field ∈ present slots ↔ (field.1, some field.2) ∈ slots := by
  simp only [present, List.mem_filterMap, Option.map_eq_some_iff, Prod.exists]
  constructor
  · rintro ⟨name, _, listed, value, rfl, rfl⟩
    exact listed
  · intro listed
    exact ⟨field.1, some field.2, listed, field.2, rfl, rfl⟩

/-- The keys of a record can be used. -/
theorem namedMembers_record (slots : List (String × Option Json)) :
    namedMembers (record slots) = some (present slots) := by
  induction slots with
  | nil => rfl
  | cons slot slots inductionHypothesis =>
      obtain ⟨name, value⟩ := slot
      cases value with
      | none => exact inductionHypothesis
      | some value =>
          unfold namedMembers at inductionHypothesis ⊢
          change List.mapM _ ((some name, value) :: record slots) = _
          rw [List.mapM_cons, inductionHypothesis]
          rfl

private theorem names_present_sublist (slots : List (String × Option Json)) :
    ((present slots).map Prod.fst).Sublist (slots.map Prod.fst) := by
  induction slots with
  | nil => exact .slnil
  | cons slot slots inductionHypothesis =>
      obtain ⟨name, value⟩ := slot
      cases value with
      | none => exact inductionHypothesis.cons name
      | some value => exact inductionHypothesis.cons_cons name

/-- A choice among the fields by their names is one among the slots. -/
theorem filter_present (test : String → Bool) (slots : List (String × Option Json)) :
    (present slots).filter (fun field => test field.1) =
      present (slots.filter fun slot => test slot.1) := by
  induction slots with
  | nil => rfl
  | cons slot slots inductionHypothesis =>
      obtain ⟨name, value⟩ := slot
      cases chosen : test name <;> cases value <;>
        simpa [present, chosen] using inductionHypothesis

theorem knownFields_present (distinct : (slots.map Prod.fst).Nodup) (names : List String) :
    knownFields names (present slots) =
      some (present (slots.filter fun slot => names.contains slot.1)) := by
  have known := filter_present (fun name => names.contains name) slots
  have distinctKnown :
      ((present (slots.filter fun slot => names.contains slot.1)).map Prod.fst).Nodup :=
    ((names_present_sublist _).trans (List.filter_sublist.map Prod.fst)).nodup distinct
  unfold knownFields
  simp only [known, if_pos distinctKnown]

theorem fields_record (distinct : (slots.map Prod.fst).Nodup) {names : List String}
    (known : ∀ slot ∈ slots, slot.1 ∈ names) :
    fields names (.object (record slots)) = some (present slots) := by
  have all : slots.filter (fun slot => names.contains slot.1) = slots :=
    List.filter_eq_self.mpr fun slot listed => by simpa using known slot listed
  rw [fields, namedMembers_record, Option.bind_some, knownFields_present distinct, all]

/-- The value of a field is the one in its slot. -/
theorem lookup_present (distinct : (slots.map Prod.fst).Nodup) {value : Option Json}
    (listed : (name, value) ∈ slots) : (present slots).lookup name = value := by
  induction slots with
  | nil => cases listed
  | cons slot slots inductionHypothesis =>
      obtain ⟨first, firstValue⟩ := slot
      obtain ⟨fresh, distinctRest⟩ := List.nodup_cons.mp distinct
      rcases List.mem_cons.mp listed with isFirst | inRest
      · cases isFirst
        cases value with
        | some value => simp [present]
        | none =>
            change (present slots).lookup name = none
            refine List.lookup_eq_none_iff.mpr fun field inFields => ?_
            have inNames : field.1 ∈ slots.map Prod.fst :=
              (names_present_sublist slots).subset (List.mem_map_of_mem inFields)
            simpa using fun same : name = field.1 => fresh (same ▸ inNames)
      · have different : (name == first) = false := by
          refine beq_false_of_ne fun same => fresh ?_
          exact List.mem_map.mpr ⟨_, inRest, same⟩
        have found := inductionHypothesis distinctRest inRest
        cases firstValue with
        | none => exact found
        | some firstValue =>
            change List.lookup name ((first, firstValue) :: present slots) = value
            rw [List.lookup_cons, different]
            exact found

/-! ## Decoded lists -/

/-- A list of items is decoded when each of them is. -/
theorem mapM_map {α β : Type} {encode : α → β} {decode : β → Option α} {items : List α}
    (same : ∀ item ∈ items, decode (encode item) = some item) :
    (items.map encode).mapM decode = some items := by
  induction items with
  | nil => rfl
  | cons item items inductionHypothesis =>
      obtain ⟨first, others⟩ := List.forall_mem_cons.mp same
      rw [List.map_cons, List.mapM_cons, first, inductionHypothesis others]
      rfl

theorem asList_map {α : Type} {encode : α → Json} {decode : Json → Option α}
    (same : ∀ item, decode (encode item) = some item) (items : List α) :
    asList decode (.list (items.map encode)) = some items :=
  mapM_map fun item _ => same item

/-! ## Fields -/

section Fields

variable {α : Type} {encode : α → Json} {decode : Json → Option α}
  (distinct : (slots.map Prod.fst).Nodup)

include distinct

theorem required_present {content : α} (decoded : decode value = some content)
    (listed : (name, some value) ∈ slots) :
    (present slots).required name decode = some content := by
  rw [Fields.required, lookup_present distinct listed, Option.bind_some, decoded]

/-- A field that is left out only when it has the default is read. -/
theorem withDefault_present {default content : α} (value : Option Json)
    (decoded : value.elim (some default) decode = some content) (listed : (name, value) ∈ slots) :
    (present slots).withDefault name default decode = some content := by
  rw [Fields.withDefault, lookup_present distinct listed, ← decoded]
  cases value <;> rfl

/-- A field that can be absent is read where its text is not that of an absent one. -/
theorem optional_present {content : Option α} (same : ∀ item, decode (encode item) = some item)
    (written : ∀ item, encode item ≠ .null) (listed : (name, content.map encode) ∈ slots) :
    (present slots).optional name decode = some content := by
  refine withDefault_present distinct _ ?_ listed
  cases content with
  | none => rfl
  | some item =>
      have notNull := written item
      -- The reading of a `null` does not apply.
      simp only [Option.map_some, Option.elim]
      rw [same, Option.map_some]

theorem required_text {content : String} (listed : (name, some (ofString content)) ∈ slots) :
    (present slots).required name asString = some content :=
  required_present distinct rfl listed

theorem optional_text {content : Option String} (listed : (name, content.map ofString) ∈ slots) :
    (present slots).optional name asString = some content :=
  optional_present distinct (fun _ => rfl) (fun _ => by rintro ⟨⟩) listed

theorem withDefault_list {items : List α} (same : ∀ item, decode (encode item) = some item)
    (listed : (name, some (.list (items.map encode))) ∈ slots) :
    (present slots).withDefault name [] (asList decode) = some items := by
  refine withDefault_present distinct _ ?_ listed
  exact asList_map same items

theorem optional_list {items : Option (List α)} (same : ∀ item, decode (encode item) = some item)
    (listed : (name, items.map fun items => .list (items.map encode)) ∈ slots) :
    (present slots).optional name (asList decode) = some items :=
  optional_present distinct (asList_map same) (fun _ => by rintro ⟨⟩) listed

theorem optional_texts {items : Option (List String)}
    (listed : (name, items.map ofStrings) ∈ slots) :
    (present slots).optional name (asList asString) = some items :=
  optional_list distinct (fun _ => rfl) listed

end Fields

/-! ## Faithful documents -/

mutual

theorem hasKeys_of_isUsable : ∀ {document : Json}, document.isUsable = true →
    document.hasKeys = true
  | .null, _ | .bool _, _ | .number _, _ | .string _, _ => rfl
  | .list _, usable => haveKeys_of_areUsable usable
  | .object _, usable => haveMemberKeys_of_areUsable usable

private theorem haveKeys_of_areUsable : ∀ {items : List Json}, areUsable items = true →
    haveKeys items = true
  | [], _ => rfl
  | _ :: _, usable => by
      obtain ⟨first, others⟩ := Bool.and_eq_true_iff.mp usable
      rw [haveKeys, hasKeys_of_isUsable first, haveKeys_of_areUsable others]
      rfl

private theorem haveMemberKeys_of_areUsable : ∀ {members : List (Text × Json)},
    areUsableMembers members = true → haveMemberKeys members = true
  | [], _ => rfl
  | (_, _) :: _, usable => by
      obtain ⟨first, others⟩ := Bool.and_eq_true_iff.mp usable
      obtain ⟨key, value⟩ := Bool.and_eq_true_iff.mp first
      rw [haveMemberKeys, key, hasKeys_of_isUsable value, haveMemberKeys_of_areUsable others]
      rfl

end

/-- A document that is read as itself, can be used as a whole and is nested at most `level` deep. -/
structure Faithful (level : Nat) (document : Json) : Prop where
  same : document.asRead = document
  usable : document.isUsable = true
  shallow : document.depth ≤ level

namespace Faithful

variable {level : Nat}

theorem bool (truth : Bool) : Faithful level (.bool truth) :=
  ⟨by rw [asRead] <;> simp, rfl, Nat.zero_le level⟩

theorem string (content : String) : Faithful level (ofString content) :=
  ⟨by rw [ofString, asRead] <;> simp, rfl, Nat.zero_le level⟩

theorem real {amount : Float} (survives : Survives amount) :
    Faithful level (.number (.real amount)) := by
  refine ⟨?_, rfl, Nat.zero_le level⟩
  unfold Survives at survives
  rw [asRead, Number.asRead, survives]

theorem list {items : List Json} (faithful : ∀ item ∈ items, Faithful level item) :
    Faithful (level + 1) (.list items) := by
  have parts : itemsAsRead items = items ∧ areUsable items = true ∧ depthOfItems items ≤ level := by
    induction items with
    | nil => exact ⟨rfl, rfl, Nat.zero_le level⟩
    | cons item items inductionHypothesis =>
        obtain ⟨first, others⟩ := List.forall_mem_cons.mp faithful
        obtain ⟨same, usable, shallow⟩ := inductionHypothesis others
        refine ⟨?_, ?_, max_le first.shallow shallow⟩
        · rw [itemsAsRead, first.same, same]
        · rw [areUsable, first.usable, usable]
          rfl
  obtain ⟨same, usable, shallow⟩ := parts
  exact ⟨by rw [asRead, same], usable, Nat.succ_le_succ shallow⟩

theorem object {members : List (Text × Json)}
    (faithful : ∀ member ∈ members, member.1.isSome = true ∧ Faithful level member.2) :
    Faithful (level + 1) (.object members) := by
  have parts : membersAsRead members = members ∧ areUsableMembers members = true ∧
      depthOfMembers members ≤ level := by
    induction members with
    | nil => exact ⟨rfl, rfl, Nat.zero_le level⟩
    | cons member members inductionHypothesis =>
        obtain ⟨key, value⟩ := member
        obtain ⟨⟨named, first⟩, others⟩ := List.forall_mem_cons.mp faithful
        obtain ⟨same, usable, shallow⟩ := inductionHypothesis others
        refine ⟨?_, ?_, max_le first.shallow shallow⟩
        · rw [membersAsRead, first.same, same]
        · rw [areUsableMembers, named, first.usable, usable]
          rfl
  obtain ⟨same, usable, shallow⟩ := parts
  exact ⟨by rw [asRead, same], usable, Nat.succ_le_succ shallow⟩

theorem record {slots : List (String × Option Json)}
    (faithful : ∀ slot ∈ slots, ∀ value ∈ slot.2, Faithful level value) :
    Faithful (level + 1) (.object (record slots)) := by
  refine object fun member listed => ?_
  obtain ⟨name, value, inSlots, rfl⟩ := mem_record.mp listed
  exact ⟨rfl, faithful _ inSlots value rfl⟩

theorem map {α : Type} {encode : α → Json} {items : List α}
    (faithful : ∀ item ∈ items, Faithful level (encode item)) :
    Faithful (level + 1) (.list (items.map encode)) :=
  list (List.forall_mem_map.mpr faithful)

theorem strings (items : List String) : Faithful (level + 1) (ofStrings items) :=
  map fun item _ => string item

end Faithful

end BranchingDialogue.Json

import BranchingDialogue.Proofs.Graph.Tree

/-! What the operations do to the names of a map and to the values under them. -/

namespace BranchingDialogue.OrderedMap

variable {α β : Type} {map : OrderedMap α} {name other : String}

/-! ## Names -/

theorem contains_iff : map.contains name = true ↔ name ∈ map.names := by
  constructor
  · intro present
    obtain ⟨value, found⟩ := Option.isSome_iff_exists.mp present
    exact List.mem_map_of_mem (mem_of_lookup found)
  · intro listed
    obtain ⟨⟨first, value⟩, member, rfl⟩ := List.mem_map.mp listed
    exact Option.isSome_iff_exists.mpr ⟨value, lookup_of_mem map.distinct member⟩

theorem isEmpty_iff : map.isEmpty = true ↔ ∀ name, name ∉ map.names := by
  rw [isEmpty, List.isEmpty_iff, ← List.eq_nil_iff_forall_not_mem, names, List.map_eq_nil_iff]

theorem names_insert (map : OrderedMap α) (name : String) (value : α) :
    (map.insert name value).names =
      if name ∈ map.names then map.names else map.names ++ [name] :=
  names_putIn name value map.entries

@[simp]
theorem mem_names_insert (value : α) :
    other ∈ (map.insert name value).names ↔ other ∈ map.names ∨ other = name := by
  rw [names_insert]
  by_cases present : name ∈ map.names
  · rw [if_pos present]
    constructor
    · exact Or.inl
    · intro either
      apply either.elim id
      intro same
      exact same ▸ present
  · rw [if_neg present, List.mem_append, List.mem_singleton]

@[simp]
theorem names_mapValues (change : α → β) : (map.mapValues change).names = map.names := by
  simp [names, mapValues]

@[simp]
theorem mem_names_erase : other ∈ (map.erase name).names ↔ other ∈ map.names ∧ other ≠ name := by
  simp [names, erase, dropIn]

/-! ## Values -/

theorem lookup_putIn (name other : String) (value : α) (entries : List (String × α)) :
    (putIn name value entries).lookup other =
      if other = name then some value else entries.lookup other := by
  induction entries with
  | nil => rw [putIn, lookup_cons_ite]
  | cons entry entries inductionHypothesis =>
      obtain ⟨first, old⟩ := entry
      rw [putIn]
      by_cases replaced : first = name
      · rw [if_pos replaced, lookup_cons_ite, lookup_cons_ite, replaced]
        by_cases asked : other = name
        · rw [if_pos asked, if_pos asked]
        · rw [if_neg asked, if_neg asked, if_neg asked]
      · rw [if_neg replaced, lookup_cons_ite, lookup_cons_ite, inductionHypothesis]
        by_cases asked : other = first
        · rw [if_pos asked, if_pos asked, if_neg (asked ▸ replaced)]
        · rw [if_neg asked, if_neg asked]

private theorem lookup_dropIn (name other : String) (entries : List (String × α)) :
    (dropIn name entries).lookup other = if other = name then none else entries.lookup other := by
  induction entries with
  | nil => simp [dropIn]
  | cons entry entries inductionHypothesis =>
      obtain ⟨first, value⟩ := entry
      unfold dropIn at inductionHypothesis ⊢
      by_cases erased : first = name
      · rw [List.filter_cons_of_neg (by simpa using erased), inductionHypothesis, lookup_cons_ite]
        by_cases asked : other = name
        · rw [if_pos asked, if_pos asked]
        · rw [if_neg asked, if_neg asked, if_neg (erased ▸ asked)]
      · rw [List.filter_cons_of_pos (by simpa using erased), lookup_cons_ite, lookup_cons_ite,
          inductionHypothesis]
        by_cases asked : other = first
        · rw [if_pos asked, if_pos asked, if_neg (asked ▸ erased)]
        · rw [if_neg asked, if_neg asked]

private theorem lookup_map (change : α → β) (name : String) (entries : List (String × α)) :
    (entries.map fun (name, value) => (name, change value)).lookup name =
      (entries.lookup name).map change := by
  induction entries with
  | nil => rfl
  | cons entry entries inductionHypothesis =>
      obtain ⟨first, value⟩ := entry
      rw [List.map_cons, lookup_cons_ite, lookup_cons_ite, inductionHypothesis]
      by_cases asked : name = first
      · rw [if_pos asked, if_pos asked, Option.map_some]
      · rw [if_neg asked, if_neg asked]

theorem get?_insert (map : OrderedMap α) (name other : String) (value : α) :
    (map.insert name value).get? other = if other = name then some value else map.get? other :=
  lookup_putIn name other value map.entries

theorem get?_erase (map : OrderedMap α) (name other : String) :
    (map.erase name).get? other = if other = name then none else map.get? other :=
  lookup_dropIn name other map.entries

@[simp]
theorem get?_mapValues (change : α → β) (map : OrderedMap α) (name : String) :
    (map.mapValues change).get? name = (map.get? name).map change :=
  lookup_map change name map.entries

end BranchingDialogue.OrderedMap

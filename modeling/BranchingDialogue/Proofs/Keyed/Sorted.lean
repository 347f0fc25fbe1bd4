import BranchingDialogue.Keyed.Sorted
import BranchingDialogue.Proofs.Keyed.Lookup

/-! A sorted map is known by the values under its names. Each operation is described by what it does
to these values. -/

namespace BranchingDialogue.SortedMap

variable {α : Type} {map left right : SortedMap α} {name other : String} {value : α}

/-! ## Entries -/

theorem nodup_names (map : SortedMap α) : map.names.Nodup :=
  List.Pairwise.map Prod.fst (fun _ _ before same => String.lt_irrefl _ (same ▸ before)) map.sorted

theorem get?_eq_some_iff : map.get? name = some value ↔ (name, value) ∈ map.entries :=
  lookup_eq_some_iff_mem map.nodup_names

/-- Maps with the same values under all names are equal. -/
theorem ext_get? (same : ∀ name, left.get? name = right.get? name) : left = right := by
  have entries : left.entries = right.entries := by
    have asymmetric : ∀ first second : String × α, first ∈ left.entries →
        second ∈ right.entries → first.1 < second.1 → second.1 < first.1 → first = second :=
      fun _ _ _ _ before after => absurd (String.lt_trans before after) (String.lt_irrefl _)
    refine List.Perm.eq_of_pairwise asymmetric left.sorted right.sorted
      ((List.perm_ext_iff_of_nodup left.nodup_names.of_map right.nodup_names.of_map).mpr ?_)
    rintro ⟨name, value⟩
    rw [← get?_eq_some_iff, ← get?_eq_some_iff, same]
  obtain ⟨leftEntries, leftSorted⟩ := left
  obtain ⟨rightEntries, rightSorted⟩ := right
  cases entries
  rfl

/-! ## Operations -/

@[simp]
theorem get?_empty (name : String) : (empty : SortedMap α).get? name = none := rfl

theorem lookup_putIn (name other : String) (value : α) (entries : List (String × α)) :
    (putIn name value entries).lookup other =
      if other = name then some value else entries.lookup other := by
  induction entries with
  | nil => rw [putIn, lookup_cons_ite]
  | cons entry entries inductionHypothesis =>
      obtain ⟨first, old⟩ := entry
      rw [putIn]
      by_cases before : name < first
      · rw [if_pos before, lookup_cons_ite]
      · rw [if_neg before]
        by_cases same : name = first
        · rw [if_pos same, lookup_cons_ite, lookup_cons_ite, ← same]
          by_cases asked : other = name
          · rw [if_pos asked, if_pos asked]
          · rw [if_neg asked, if_neg asked, if_neg asked]
        · rw [if_neg same, lookup_cons_ite, lookup_cons_ite, inductionHypothesis]
          by_cases asked : other = first
          · rw [if_pos asked, if_pos asked, if_neg (asked ▸ Ne.symm same)]
          · rw [if_neg asked, if_neg asked]

@[simp]
theorem get?_insert (map : SortedMap α) (name other : String) (value : α) :
    (map.insert name value).get? other = if other = name then some value else map.get? other :=
  lookup_putIn name other value map.entries

@[simp]
theorem get?_filter (test : String → α → Bool) (map : SortedMap α) (name : String) :
    (map.filter test).get? name = (map.get? name).filter (test name) := by
  ext value
  rw [get?_eq_some_iff, Option.filter_eq_some_iff, get?_eq_some_iff]
  exact List.mem_filter

@[simp]
theorem get?_erase (map : SortedMap α) (name other : String) :
    (map.erase name).get? other = if other = name then none else map.get? other := by
  unfold erase
  rw [get?_filter]
  by_cases asked : other = name
  · cases map.get? other <;> simp [asked]
  · cases map.get? other <;> simp [asked]

/-! ## Lists of entries put into a map -/

section Entries

variable {entries : List (String × α)}

theorem get?_insertAll (map : SortedMap α) (distinct : (entries.map Prod.fst).Nodup)
    (name : String) :
    (map.insertAll entries).get? name = (entries.lookup name <|> map.get? name) := by
  induction entries generalizing map with
  | nil => simp [insertAll]
  | cons entry entries inductionHypothesis =>
      obtain ⟨first, value⟩ := entry
      obtain ⟨fresh, others⟩ := List.nodup_cons.mp distinct
      have rest : (map.insertAll ((first, value) :: entries)).get? name =
          (entries.lookup name <|> (map.insert first value).get? name) :=
        inductionHypothesis (map.insert first value) others
      rw [rest, get?_insert, lookup_cons_ite]
      by_cases asked : name = first
      · subst asked
        simp [lookup_eq_none_of_not_mem fresh]
      · rw [if_neg asked, if_neg asked]

theorem get?_ofList (distinct : (entries.map Prod.fst).Nodup) (name : String) :
    (ofList entries).get? name = entries.lookup name := by
  rw [ofList, get?_insertAll empty distinct, get?_empty]
  cases entries.lookup name <;> rfl

/-- The names of entries that are put into a map are those of the entries and of the map. -/
theorem isSome_get?_insertAll (map : SortedMap α) (entries : List (String × α)) (name : String) :
    ((map.insertAll entries).get? name).isSome = true ↔
      name ∈ entries.map Prod.fst ∨ (map.get? name).isSome = true := by
  induction entries generalizing map with
  | nil => simp [insertAll]
  | cons entry entries inductionHypothesis =>
      obtain ⟨first, value⟩ := entry
      have rest : ((map.insertAll ((first, value) :: entries)).get? name).isSome = true ↔
          name ∈ entries.map Prod.fst ∨ ((map.insert first value).get? name).isSome = true :=
        inductionHypothesis (map.insert first value)
      rw [rest, get?_insert, List.map_cons, List.mem_cons]
      by_cases asked : name = first
      · simp [asked]
      · simp [asked]

end Entries

end BranchingDialogue.SortedMap

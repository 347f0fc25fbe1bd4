import Mathlib.Data.List.Nodup

/-! Where no name occurs twice, a value is found under a name exactly when the list holds that
entry, so that the order of the entries does not matter. -/

namespace BranchingDialogue

variable {α : Type} {name : String} {value : α} {entries others : List (String × α)}

theorem lookup_cons_ite (first : String) (firstValue : α) (entries : List (String × α)) :
    ((first, firstValue) :: entries).lookup name =
      if name = first then some firstValue else entries.lookup name := by
  by_cases same : name = first
  · simp [same]
  · have test : (name == first) = false := beq_eq_false_iff_ne.mpr same
    rw [List.lookup_cons, test, if_neg same]

theorem mem_of_lookup (found : entries.lookup name = some value) : (name, value) ∈ entries := by
  obtain ⟨before, after, rfl, -⟩ := List.lookup_eq_some_iff.mp found
  exact List.mem_append_right before List.mem_cons_self

theorem lookup_of_mem (distinct : (entries.map Prod.fst).Nodup) (member : (name, value) ∈ entries) :
    entries.lookup name = some value := by
  induction entries with
  | nil => cases member
  | cons entry entries inductionHypothesis =>
      obtain ⟨first, firstValue⟩ := entry
      obtain ⟨fresh, distinctRest⟩ := List.nodup_cons.mp distinct
      rw [lookup_cons_ite]
      rcases List.mem_cons.mp member with isFirst | inRest
      · cases isFirst
        exact if_pos rfl
      · have different : name ≠ first := by
          rintro rfl
          exact fresh (List.mem_map.mpr ⟨_, inRest, rfl⟩)
        rw [if_neg different]
        exact inductionHypothesis distinctRest inRest

theorem lookup_eq_some_iff_mem (distinct : (entries.map Prod.fst).Nodup) :
    entries.lookup name = some value ↔ (name, value) ∈ entries :=
  ⟨mem_of_lookup, lookup_of_mem distinct⟩

theorem lookup_eq_none_of_not_mem (absent : name ∉ entries.map Prod.fst) :
    entries.lookup name = none := by
  rw [List.lookup_eq_none_iff]
  intro entry member
  have different : name ≠ entry.1 := by
    rintro rfl
    exact absent (List.mem_map_of_mem member)
  simpa using different

/-- Entries with distinct names hold the same values in any order. -/
theorem lookup_perm (order : entries.Perm others) (distinct : (entries.map Prod.fst).Nodup)
    (name : String) : entries.lookup name = others.lookup name := by
  have othersDistinct : (others.map Prod.fst).Nodup := (order.map Prod.fst).nodup_iff.mp distinct
  ext value
  rw [lookup_eq_some_iff_mem distinct, lookup_eq_some_iff_mem othersDistinct, order.mem_iff]

end BranchingDialogue

/-! A map from names to values that is kept in the order of its names, which is the order of their
code points. Two maps with the same values under the same names are equal. -/

namespace BranchingDialogue

structure SortedMap (α : Type) where
  entries : List (String × α)
  sorted : entries.Pairwise fun left right => left.1 < right.1
  deriving DecidableEq

namespace SortedMap

variable {α : Type}

/-! ## Lists of entries -/

def putIn (name : String) (value : α) : List (String × α) → List (String × α)
  | [] => [(name, value)]
  | (other, old) :: rest =>
      if name < other then
        (name, value) :: (other, old) :: rest
      else if name = other then
        (name, value) :: rest
      else
        (other, old) :: putIn name value rest

theorem mem_putIn {name : String} {value : α} {entry : String × α}
    {entries : List (String × α)} (member : entry ∈ putIn name value entries) :
    entry = (name, value) ∨ entry ∈ entries := by
  induction entries with
  | nil => simpa [putIn] using member
  | cons head rest inductionHypothesis =>
      obtain ⟨other, old⟩ := head
      simp only [putIn] at member
      split at member
      · simpa using member
      · split at member
        · rcases List.mem_cons.mp member with equality | inRest
          · exact Or.inl equality
          · exact Or.inr (List.mem_cons_of_mem _ inRest)
        · rcases List.mem_cons.mp member with equality | inRest
          · exact Or.inr (equality ▸ List.mem_cons_self)
          · rcases inductionHypothesis inRest with equality | inTail
            · exact Or.inl equality
            · exact Or.inr (List.mem_cons_of_mem _ inTail)

theorem lt_of_not_lt_of_ne {left right : String} (notBefore : ¬ left < right)
    (different : left ≠ right) : right < left := by
  rcases String.le_total left right with leftLe | rightLe
  · exact absurd (String.le_antisymm leftLe (String.not_lt.mp notBefore)) different
  · exact Decidable.byContradiction fun notAfter =>
      different (String.le_antisymm (String.not_lt.mp notAfter) rightLe)

private theorem sorted_putIn (name : String) (value : α) {entries : List (String × α)}
    (sorted : entries.Pairwise fun left right => left.1 < right.1) :
    (putIn name value entries).Pairwise fun left right => left.1 < right.1 := by
  induction entries with
  | nil => simp [putIn]
  | cons head rest inductionHypothesis =>
      obtain ⟨other, old⟩ := head
      obtain ⟨headFirst, restSorted⟩ := List.pairwise_cons.mp sorted
      simp only [putIn]
      split
      · rename_i before
        refine List.pairwise_cons.mpr ⟨?_, sorted⟩
        intro entry member
        rcases List.mem_cons.mp member with equality | inRest
        · rw [equality]
          exact before
        · exact String.lt_trans before (headFirst entry inRest)
      · rename_i notBefore
        split
        · rename_i same
          subst same
          exact List.pairwise_cons.mpr ⟨headFirst, restSorted⟩
        · rename_i different
          refine List.pairwise_cons.mpr ⟨?_, inductionHypothesis restSorted⟩
          intro entry member
          rcases mem_putIn member with equality | inRest
          · rw [equality]
            exact lt_of_not_lt_of_ne notBefore different
          · exact headFirst entry inRest

/-! ## Operations -/

def empty : SortedMap α :=
  ⟨[], List.Pairwise.nil⟩

instance : Inhabited (SortedMap α) :=
  ⟨empty⟩

def get? (map : SortedMap α) (name : String) : Option α :=
  map.entries.lookup name

def contains (map : SortedMap α) (name : String) : Bool :=
  (map.get? name).isSome

def insert (map : SortedMap α) (name : String) (value : α) : SortedMap α :=
  ⟨putIn name value map.entries, sorted_putIn name value map.sorted⟩

def filter (test : String → α → Bool) (map : SortedMap α) : SortedMap α :=
  ⟨map.entries.filter fun entry => test entry.1 entry.2,
    map.sorted.sublist List.filter_sublist⟩

def erase (map : SortedMap α) (name : String) : SortedMap α :=
  map.filter fun other _ => other ≠ name

def insertAll (map : SortedMap α) (entries : List (String × α)) : SortedMap α :=
  entries.foldl (fun soFar (name, value) => soFar.insert name value) map

/-- The map of a list of entries. Of two entries with one name the last counts. -/
def ofList (entries : List (String × α)) : SortedMap α :=
  empty.insertAll entries

def names (map : SortedMap α) : List String :=
  map.entries.map Prod.fst

end SortedMap

abbrev NameSet :=
  SortedMap Unit

end BranchingDialogue

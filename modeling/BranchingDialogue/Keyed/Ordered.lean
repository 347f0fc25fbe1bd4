/-! A map from names to values that keeps the order in which its names were first inserted. The
representation is the list of its entries, and no name occurs in it twice. -/

namespace BranchingDialogue

structure OrderedMap (α : Type) where
  entries : List (String × α)
  distinct : (entries.map Prod.fst).Nodup
  deriving DecidableEq

namespace OrderedMap

variable {α β : Type}

/-! ## Lists of entries -/

/-- The entries with a value put under a name: in the place of the entry with that name if there
is one, and at the end if there is none. -/
def putIn (name : String) (value : α) : List (String × α) → List (String × α)
  | [] => [(name, value)]
  | (other, old) :: rest =>
      if other = name then
        (name, value) :: rest
      else
        (other, old) :: putIn name value rest

def dropIn (name : String) (entries : List (String × α)) : List (String × α) :=
  entries.filter fun entry => entry.1 ≠ name

theorem names_putIn (name : String) (value : α) (entries : List (String × α)) :
    (putIn name value entries).map Prod.fst =
      if name ∈ entries.map Prod.fst then
        entries.map Prod.fst
      else
        entries.map Prod.fst ++ [name] := by
  induction entries with
  | nil => simp [putIn]
  | cons entry rest inductionHypothesis =>
      obtain ⟨other, old⟩ := entry
      by_cases same : other = name
      · simp [putIn, same]
      · have different : ¬ name = other := fun equality => same equality.symm
        simp only [putIn, same, if_false, List.map_cons, inductionHypothesis, List.mem_cons,
          different, false_or]
        split <;> simp

private theorem nodup_names_putIn (name : String) (value : α) {entries : List (String × α)}
    (distinct : (entries.map Prod.fst).Nodup) :
    ((putIn name value entries).map Prod.fst).Nodup := by
  rw [names_putIn]
  split
  · exact distinct
  · rename_i absent
    rw [List.nodup_append]
    refine ⟨distinct, by simp, ?_⟩
    intro left leftMember right rightMember equality
    have rightName : right = name := by simpa using rightMember
    exact absent (by rw [← rightName, ← equality]; exact leftMember)

private theorem nodup_names_dropIn (name : String) {entries : List (String × α)}
    (distinct : (entries.map Prod.fst).Nodup) :
    ((dropIn name entries).map Prod.fst).Nodup :=
  (List.filter_sublist.map Prod.fst).nodup distinct

/-! ## Operations -/

def empty : OrderedMap α :=
  ⟨[], List.nodup_nil⟩

instance : Inhabited (OrderedMap α) :=
  ⟨empty⟩

def get? (map : OrderedMap α) (name : String) : Option α :=
  map.entries.lookup name

def contains (map : OrderedMap α) (name : String) : Bool :=
  (map.get? name).isSome

/-- The map with a value put under a name. A name that is there keeps its place. -/
def insert (map : OrderedMap α) (name : String) (value : α) : OrderedMap α :=
  ⟨putIn name value map.entries, nodup_names_putIn name value map.distinct⟩

/-- The map without a name. The other names keep their order. -/
def erase (map : OrderedMap α) (name : String) : OrderedMap α :=
  ⟨dropIn name map.entries, nodup_names_dropIn name map.distinct⟩

def mapValues (change : α → β) (map : OrderedMap α) : OrderedMap β :=
  ⟨map.entries.map fun (name, value) => (name, change value), by
    have names :
        (map.entries.map fun (name, value) => (name, change value)).map Prod.fst =
          map.entries.map Prod.fst := by
      simp
    rw [names]
    exact map.distinct⟩

def insertAll (map : OrderedMap α) (entries : List (String × α)) : OrderedMap α :=
  entries.foldl (fun soFar (name, value) => soFar.insert name value) map

/-- The map of a list of entries. Of two entries with one name the first gives the place and the
last gives the value. -/
def ofList (entries : List (String × α)) : OrderedMap α :=
  empty.insertAll entries

def names (map : OrderedMap α) : List String :=
  map.entries.map Prod.fst

def values (map : OrderedMap α) : List α :=
  map.entries.map Prod.snd

def size (map : OrderedMap α) : Nat :=
  map.entries.length

def isEmpty (map : OrderedMap α) : Bool :=
  map.entries.isEmpty

/-- Whether two maps have the same names, in any order, with equal values. -/
def sameEntries [BEq α] (left right : OrderedMap α) : Bool :=
  left.size == right.size &&
    left.entries.all fun (name, value) => right.get? name == some value

end OrderedMap

end BranchingDialogue

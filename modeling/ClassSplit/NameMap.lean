import ClassSplit.NameSet

/-!
Finite maps from names, listed in ascending order of the names. Main statements: `get?_put` says
that a name has the value that was put under it last, and `get?_erase` that an erased name has none.
-/

namespace ClassSplit

structure NameMap (α : Type) where
  entries : List (String × α)
  ascending : (entries.map Prod.fst).Pairwise (· < ·)

namespace NameMap

variable {α : Type}

def empty : NameMap α := ⟨[], NameSet.pairwise_lt_nil⟩

instance : Inhabited (NameMap α) := ⟨empty⟩

def get? (m : NameMap α) (name : String) : Option α := m.entries.lookup name

def putAscending (name : String) (value : α) : List (String × α) → List (String × α)
  | [] => [(name, value)]
  | (n, v) :: rest =>
    if name < n then (name, value) :: (n, v) :: rest
    else if name = n then (name, value) :: rest
    else (n, v) :: putAscending name value rest

theorem map_fst_putAscending {name : String} {value : α} {entries : List (String × α)} :
    (putAscending name value entries).map Prod.fst =
      NameSet.insertAscending name (entries.map Prod.fst) := by
  induction entries with
  | nil => rfl
  | cons entry rest ih =>
    simp only [putAscending, List.map_cons, NameSet.insertAscending]
    split
    · rfl
    · split
      case isTrue h => simp [h]
      case isFalse => simp [ih]

/-- The map in which `value` stands under `name`, whatever stood there before. -/
def put (m : NameMap α) (name : String) (value : α) : NameMap α :=
  ⟨putAscending name value m.entries,
    map_fst_putAscending ▸ NameSet.pairwise_insertAscending m.ascending⟩

/-- The map without a name. -/
def erase (m : NameMap α) (name : String) : NameMap α :=
  ⟨m.entries.filter (·.1 != name), m.ascending.sublist (List.filter_sublist.map _)⟩

def ofList (entries : List (String × α)) : NameMap α :=
  entries.foldl (fun m entry => m.put entry.1 entry.2) empty

theorem lookup_cons (name n : String) (value : α) (rest : List (String × α)) :
    ((n, value) :: rest).lookup name = if name = n then some value else rest.lookup name := by
  by_cases h : name = n
  · simp [h]
  · have : (name == n) = false := by simp [h]
    simp [List.lookup_cons, h, this]

theorem get?_put (m : NameMap α) (name n : String) (value : α) :
    (m.put name value).get? n = if n = name then some value else m.get? n := by
  simp only [get?, put]
  induction m.entries with
  | nil => simp [putAscending, lookup_cons]
  | cons entry rest ih =>
    have ⟨key, v⟩ := entry
    simp only [putAscending]
    split
    · simp [lookup_cons]
    · split
      case isTrue h => grind [lookup_cons]
      case isFalse h => grind [lookup_cons]

@[simp] theorem get?_empty (name : String) : (empty : NameMap α).get? name = none := rfl

theorem get?_erase (m : NameMap α) (name n : String) :
    (m.erase name).get? n = if n = name then none else m.get? n := by
  simp only [get?, erase]
  induction m.entries with
  | nil => simp
  | cons entry rest ih =>
    have ⟨key, v⟩ := entry
    by_cases h : key = name
    case pos => subst h; simp only [bne_self_eq_false, List.filter_cons, lookup_cons]; grind
    case neg => grind [lookup_cons]

end NameMap

end ClassSplit

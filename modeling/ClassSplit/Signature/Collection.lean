import ClassSplit.Signature.Reader

/-!
Collections of signatures that keep the order of insertion and take two spellings of one method
for the same entry.
-/

namespace ClassSplit

/-- The texts that were inserted, in order, and all spellings of them. -/
structure SignatureSet where
  entries : List String
  forms : NameSet

namespace SignatureSet

def empty : SignatureSet := ⟨[], .empty⟩

def contains (s : SignatureSet) (text : String) : Bool :=
  (Signature.ofString text).forms.toList.any (s.forms.contains ·)

/-- Adds a text unless another spelling of its signature is present. -/
def insert (s : SignatureSet) (text : String) : SignatureSet :=
  if s.contains text then s
  else ⟨s.entries ++ [text], s.forms.union (Signature.ofString text).forms⟩

/-- Adds a text unless another spelling of its signature is present, and says whether it did. -/
def tryInsert (s : SignatureSet) (text : String) : Bool × SignatureSet :=
  if s.contains text then (false, s) else (true, s.insert text)

/-- Adds texts one after the other, with what each insertion said. -/
def tryInsertAll (s : SignatureSet) : List String → List Bool × SignatureSet
  | [] => ([], s)
  | text :: texts =>
    let (answer, s) := s.tryInsert text
    let (answers, s) := s.tryInsertAll texts
    (answer :: answers, s)

def ofList (texts : List String) : SignatureSet := texts.foldl insert empty

def length (s : SignatureSet) : Nat := s.entries.length

def isEmpty (s : SignatureSet) : Bool := s.entries.isEmpty

-- An insertion that is refused changes nothing.
theorem insert_of_contains {s : SignatureSet} {text : String} (h : s.contains text = true) :
    s.insert text = s := by
  simp [insert, h]

theorem entries_insert_of_not_contains {s : SignatureSet} {text : String}
    (h : s.contains text = false) : (s.insert text).entries = s.entries ++ [text] := by
  simp [insert, h]

theorem tryInsert_eq (s : SignatureSet) (text : String) :
    s.tryInsert text = (!s.contains text, s.insert text) := by
  cases h : s.contains text with
  | true => simp [tryInsert, h, insert_of_contains h]
  | false => simp [tryInsert, h]

@[simp] theorem tryInsertAll_nil (s : SignatureSet) : s.tryInsertAll [] = ([], s) := rfl

theorem tryInsertAll_cons (s : SignatureSet) (text : String) (texts : List String) :
    s.tryInsertAll (text :: texts) =
      ((!s.contains text) :: ((s.insert text).tryInsertAll texts).1,
        ((s.insert text).tryInsertAll texts).2) := by
  rw [tryInsertAll, tryInsert_eq]

end SignatureSet

end ClassSplit

import ClassSplit.Datum.Basic

/-!
The tables of a TOML document while they are being filled. A table may be opened by a header or come
into being because a longer name goes through it, and depending on that it may or may not be
extended later.
-/

namespace ClassSplit.Toml

inductive Item where
  /-- A value, which is complete; inline tables are values. -/
  | value (d : Datum)
  /-- A table: whether it has been opened by no header of its own, and whether a dotted key made
  it. -/
  | table (implied dotted : Bool) (entries : List (String × Item))
  /-- A list of tables under one name. -/
  | tables (all : List (List (String × Item)))

abbrev Entries := List (String × Item)

mutual

def Item.toDatum : Item → Datum
  | .value d => d
  | .table _ _ entries => .object (entryData entries)
  | .tables all => .array (tableData all)

def entryData : List (String × Item) → List (String × Datum)
  | [] => []
  | (name, item) :: rest => (name, item.toDatum) :: entryData rest

def tableData : List (List (String × Item)) → List Datum
  | [] => []
  | entries :: rest => .object (entryData entries) :: tableData rest

end

def Entries.replace (entries : Entries) (name : String) (item : Item) : Entries :=
  entries.map fun entry => if entry.1 == name then (name, item) else entry

/-- Changes the table at the end of a path and gives back what the change yields. Tables on the path
that do not exist are made. With `dotted` the path belongs to a key, which must not go through a
table that a header has opened. The change is told whether a dotted key made the table. -/
def descend {α : Type} (dotted : Bool) (change : Bool → Entries → Option (Entries × α)) :
    List String → Bool → Entries → Option (Entries × α)
  | [], made, entries => change made entries
  | name :: path, _, entries =>
    match entries.lookup name with
    | none => do
      let (inner, result) ← descend dotted change path dotted []
      some (entries ++ [(name, .table true dotted inner)], result)
    | some (.value _) => none
    | some (.tables all) => do
      let (inner, result) ← descend dotted change path false (all.getLast?.getD [])
      some (Entries.replace entries name (.tables (all.dropLast ++ [inner])), result)
    | some (.table implied made inner) =>
      if dotted && !implied then none
      else do
        let (inner, result) ← descend dotted change path made inner
        some (Entries.replace entries name (.table implied made inner), result)

/-- Puts a value under a dotted key. -/
def put (path : List String) (name : String) (d : Datum) (entries : Entries) : Option Entries :=
  let add (made : Bool) (inner : Entries) : Option (Entries × Unit) :=
    if made == path.isEmpty || (inner.lookup name).isSome then none
    else some (inner ++ [(name, .value d)], ())
  (descend true add path false entries).map Prod.fst

/-- Takes the table with a name out so that it can be filled under its header; it must not have been
opened before. -/
def openTable (name : String) (_ : Bool) (entries : Entries) : Option (Entries × Entries) :=
  match entries.lookup name with
  | none => some (entries, [])
  | some (.table true false inner) => some (entries.filter (·.1 != name), inner)
  | some _ => none

/-- Checks that a name can be that of a list of tables. -/
def openTables (name : String) (_ : Bool) (entries : Entries) : Option (Entries × Entries) :=
  match entries.lookup name with
  | none => some (entries ++ [(name, .tables [])], [])
  | some (.tables _) => some (entries, [])
  | some _ => none

/-- Puts a table back that has been filled. -/
def closeTable (name : String) (filled : Entries) (_ : Bool) (entries : Entries) :
    Option (Entries × Unit) :=
  match entries.lookup name with
  | none => some (entries ++ [(name, .table false false filled)], ())
  | some (.tables all) => some (Entries.replace entries name (.tables (all ++ [filled])), ())
  | some _ => none

end ClassSplit.Toml

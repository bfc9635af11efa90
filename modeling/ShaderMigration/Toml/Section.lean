import ShaderMigration.Data

namespace ShaderMigration.Toml

mutual

/-- A table: whether it was opened by its own header, whether dotted keys made it, and what it
holds. -/
structure Section where
  isOpened : Bool
  isDotted : Bool
  entries : List (String × Item)

inductive Item where
  | value (d : Data)
  | table (section_ : Section)
  /-- An array of tables, the last one first. -/
  | tables (last : Section) (before : List Section)

end

namespace Section

mutual

def toData : Section → Data
  | ⟨_, _, entries⟩ => .record (toDataEntries entries)

def toDataEntries : List (String × Item) → List (String × Data)
  | [] => []
  | entry :: rest => toDataEntry entry :: toDataEntries rest

def toDataEntry : String × Item → String × Data
  | (key, item) => (key, toDataItem item)

def toDataItem : Item → Data
  | .value d => d
  | .table inner => toData inner
  | .tables last before => .list ((toData last :: toDataAll before).reverse)

def toDataAll : List Section → List Data
  | [] => []
  | first :: rest => toData first :: toDataAll rest

end

def opened : Section := ⟨true, false, []⟩

def onTheWay (dotted : Bool) : Section := ⟨false, dotted, []⟩

/-- Changes the table at the end of a path, making the tables on the way.  Dotted keys may not pass
through a table with a header of its own. -/
def changeAt? (dotted : Bool) (change : Section → Option Section) :
    List String → Section → Option Section
  | [], found => change found
  | key :: rest, found =>
    match Entries.find? key found.entries with
    | none =>
      (changeAt? dotted change rest (onTheWay dotted)).map fun inner =>
        { found with entries := found.entries ++ [(key, .table inner)] }
    | some (.value _) => none
    | some (.table inner) =>
      if dotted && inner.isOpened then none
      else
        (changeAt? dotted change rest inner).map fun inner =>
          { found with entries := Entries.put key (.table inner) found.entries }
    | some (.tables last before) =>
      (changeAt? dotted change rest last).map fun last =>
        { found with entries := Entries.put key (.tables last before) found.entries }

def enter? (path : List String) (key : String) (d : Data) (root : Section) : Option Section :=
  changeAt? true
    (fun found =>
      if found.isDotted == path.isEmpty then none
      else
        match Entries.find? key found.entries with
        | some _ => none
        | none => some { found with entries := found.entries ++ [(key, .value d)] })
    path root

/-- Takes out the table that a header opens, which may have been made on the way to another one. -/
def takeOut? (key : String) (found : Section) : Option (Section × Section) :=
  match Entries.find? key found.entries with
  | none => some (opened, found)
  | some (.table inner) =>
    if inner.isOpened || inner.isDotted then none
    else
      some ({ inner with isOpened := true },
        { found with entries := found.entries.filter fun entry => entry.1 != key })
  | some _ => none

/-- Opens a table by a header, fills it, and puts it behind the other entries. -/
def fillTable? (path : List String) (key : String) (fill : Section → Option Section)
    (root : Section) : Option Section :=
  changeAt? false
    (fun found => do
      let (inner, others) ← takeOut? key found
      let filled ← fill inner
      return { others with entries := others.entries ++ [(key, .table filled)] })
    path root

/-- Adds a table to an array of tables, and fills it. -/
def fillNext? (path : List String) (key : String) (fill : Section → Option Section)
    (root : Section) : Option Section :=
  changeAt? false
    (fun found => do
      let filled ← fill opened
      match Entries.find? key found.entries with
      | none => return { found with entries := found.entries ++ [(key, .tables filled [])] }
      | some (.tables last before) =>
        return { found with entries := Entries.put key (.tables filled (last :: before)) found.entries }
      | some _ => none)
    path root

end Section

end ShaderMigration.Toml

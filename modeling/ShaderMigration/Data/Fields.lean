import ShaderMigration.Data

namespace ShaderMigration.Data

/-- A field: the name that is written, and other names that are read. -/
structure Field where
  name : String
  aliases : List String := []

instance : Coe String Field := ⟨fun name => ⟨name, []⟩⟩

/-- A record with a fixed list of fields.  It is written as a record, in any order, or as a list of its
values in the order of the fields, where fields at the end may be left out. -/
structure Layout where
  fields : List Field
  /-- Whether members of other names are refused. -/
  closed : Bool := false
  /-- Whether a list may hold more values than there are fields. -/
  longLists : Bool := false

abbrev Fields := List (String × Data)

namespace Layout

/-- The layout of a record in which members of other names are passed over. -/
def ofFields (fields : List Field) : Layout := { fields }

def field? (layout : Layout) (key : String) : Option Field :=
  layout.fields.find? fun field => field.name == key || field.aliases.contains key

/-- Reads the members of a record.  No field may be given twice. -/
def ofMembers? (layout : Layout) : List (String × Data) → Fields → Option Fields
  | [], found => some found
  | (key, value) :: rest, found =>
    match layout.field? key with
    | none => if layout.closed then none else ofMembers? layout rest found
    | some field =>
      match Entries.find? field.name found with
      | some _ => none
      | none => ofMembers? layout rest ((field.name, value) :: found)

/-- Reads the values of a list in the order of the fields. -/
def ofItems? (layout : Layout) (items : List Data) : Option Fields :=
  if !layout.longLists && layout.fields.length < items.length then none
  else some ((layout.fields.map Field.name).zip items)

def read? (layout : Layout) : Data → Option Fields
  | .record members => layout.ofMembers? members []
  | .list items => layout.ofItems? items
  | _ => none

end Layout

namespace Fields

def required {α : Type} (fields : Fields) (name : String) (read : Data → Option α) : Option α :=
  (Entries.find? name fields).bind read

def defaulted {α : Type} (fields : Fields) (name : String) (read : Data → Option α) (missing : α) :
    Option α :=
  match Entries.find? name fields with
  | none => some missing
  | some d => read d

end Fields

def listOf? {α : Type} (read : Data → Option α) (d : Data) : Option (List α) :=
  d.items?.bind fun items => items.mapM read

/-- Reads a record as a map: a repeated key keeps its first place and its last value. -/
def entriesOf? {α : Type} (read : Data → Option α) (d : Data) : Option (List (String × α)) :=
  d.members?.bind fun members =>
    (members.mapM fun member => (read member.2).map fun a => (member.1, a)).map Entries.ofPairs

end ShaderMigration.Data

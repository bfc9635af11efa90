import ShaderMigration.Json.Printer
import ShaderMigration.Json.Written
import ShaderMigration.NodeSpec
import ShaderMigration.Value.Literal

namespace ShaderMigration.NodeSpec

def layout : Data.Layout :=
  { fields := ["type", ⟨"attrs", ["attr"]⟩, "input_list", "ref_id", "connected_to"], closed := true }

def hasMember (name : String) : Data → Bool
  | .record members => (Entries.find? name members).isSome
  | _ => false

/-- Reads what is assigned, given how nested descriptions are read. -/
def readValue? (readSpec? : Data → Option NodeSpec) (d : Data) : Option SpecValue :=
  let sorted := d.sorted
  if hasMember "type" sorted then (readSpec? sorted).map .spec
  else (Value.ofLiteral sorted).toOption.map .literal

/-- Reads what feeds the primary input: a record with a single member. -/
def readFeed? (readSpec? : Data → Option NodeSpec) : Data → Option Feed
  | .null => some .nothing
  | .record [(key, d)] =>
    if key = "Input" then (readSpec? d).map .node
    else if key = "ref_id" then d.text?.map .tagged
    else none
  | _ => none

/-- Reads a description in which fewer than `depth` nodes are nested. -/
def readWithin? : Nat → Data → Option NodeSpec
  | 0, _ => none
  | depth + 1, d => do
    let fields ← layout.read? d
    return {
      type := ← fields.required "type" Data.text?
      attrs := ← fields.defaulted "attrs" (Data.entriesOf? (readValue? (readWithin? depth))) []
      inputs := ← fields.defaulted "input_list" (Data.entriesOf? (readValue? (readWithin? depth))) []
      tag := ← fields.defaulted "ref_id" (Data.optional? Data.text?) none
      feed := ← fields.defaulted "connected_to" (readFeed? (readWithin? depth)) .nothing }

def ofData? (d : Data) : Option NodeSpec := readWithin? (d.depth + 1) d

mutual

/-- A description as a document writes it; empty parts are left out. -/
def toData : NodeSpec → Data
  | ⟨type, attrs, inputs, tag, feed⟩ =>
    .record <| ("type", .text type) ::
      ((if attrs.isEmpty then [] else [("attrs", .record (toDataEntries attrs))]) ++
        (if inputs.isEmpty then [] else [("input_list", .record (toDataEntries inputs))]) ++
        (match tag with
        | some tag => [("ref_id", .text tag)]
        | none => []) ++
        toDataFeed feed)

def toDataEntries : List (String × SpecValue) → List (String × Data)
  | [] => []
  | entry :: rest => toDataEntry entry :: toDataEntries rest

def toDataEntry : String × SpecValue → String × Data
  | (key, value) => (key, toDataValue value)

def toDataValue : SpecValue → Data
  | .literal value => value.toData
  | .spec spec => toData spec

def toDataFeed : Feed → List (String × Data)
  | .nothing => []
  | .node spec => [("connected_to", .record [("Input", toData spec)])]
  | .tagged tag => [("connected_to", .record [("ref_id", .text tag)])]

end

end ShaderMigration.NodeSpec

namespace ShaderMigration.NodeTree

/-- Reads a tree: a list of descriptions if it has that form, else one description. -/
def ofData? (d : Data) : Option NodeTree :=
  match Data.listOf? NodeSpec.ofData? d with
  | some specs => some (.many specs)
  | none => (NodeSpec.ofData? d).map .one

def toData : NodeTree → Data
  | many specs => .list (specs.map NodeSpec.toData)
  | one spec => spec.toData

def load? (text : String) : Option NodeTree := (Json.read? .whole text).bind ofData?

def save (tree : NodeTree) : String := Json.compact tree.toData

/-- Whether the written form of a tree reads back as the tree. -/
def readsBack (tree : NodeTree) : Bool :=
  match load? tree.save with
  | some read => tree.alike read
  | none => false

end ShaderMigration.NodeTree

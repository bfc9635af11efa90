import ShaderMigration.Data.Fields
import ShaderMigration.Value

namespace ShaderMigration

def NodeId.toData (id : NodeId) : Data := .text id.text

def NodeId.ofData? (d : Data) : Option NodeId := d.text?.bind NodeId.ofText?

def Vec3.toData (v : Vec3) : Data := .record [("x", .float v.x), ("y", .float v.y), ("z", .float v.z)]

/-- Reads a vector, from a record or a list of three numbers. -/
def Vec3.ofData? (d : Data) : Option Vec3 := do
  let fields ← Data.Layout.read? (.ofFields ["x", "y", "z"]) d
  return ⟨← fields.required "x" Data.number?, ← fields.required "y" Data.number?,
    ← fields.required "z" Data.number?⟩

def Color.toData (c : Color) : Data := .record [("r", .float c.r), ("g", .float c.g), ("b", .float c.b)]

def Color.ofData? (d : Data) : Option Color := do
  let fields ← Data.Layout.read? (.ofFields ["r", "g", "b"]) d
  return ⟨← fields.required "r" Data.number?, ← fields.required "g" Data.number?,
    ← fields.required "b" Data.number?⟩

namespace Scalar

def payload : Scalar → Data
  | bool b => .bool b
  | int n => .int n.toInt
  | float x => .float x
  | vector3 v => v.toData
  | color c => c.toData
  | string s => .text s
  | enumeration n => .int n.toInt

def toData (s : Scalar) : Data := .record [(s.kind.word, s.payload)]

def ofPayload? (kind : ScalarKind) (d : Data) : Option Scalar :=
  match kind with
  | .bool => d.bool?.map bool
  | .int => d.int64?.map int
  | .float => d.number?.map float
  | .vector3 => (Vec3.ofData? d).map vector3
  | .color => (Color.ofData? d).map color
  | .string => d.text?.map string
  | .enumeration => d.int64?.map enumeration

/-- Reads a scalar: a record whose one key is a kind. -/
def ofData? : Data → Option Scalar
  | .record [(word, d)] => (ScalarKind.ofWord? word).bind fun kind => ofPayload? kind d
  | _ => none

end Scalar

namespace Plug

/-- A plug as a document writes it: a missing channel is left out. -/
def toData (plug : Plug) : Data :=
  .record <| ("node", plug.node.toData) ::
    match plug.channel with
    | some channel => [("channel", .text channel)]
    | none => []

def ofData? (d : Data) : Option Plug := do
  let fields ← Data.Layout.read? (.ofFields ["node", "channel"]) d
  return ⟨← fields.required "node" NodeId.ofData?,
    ← fields.defaulted "channel" (Data.optional? Data.text?) none⟩

end Plug

namespace Value

mutual

def toData : Value → Data
  | scalar payload => payload.toData
  | connection plug => plug.toData
  | array items => .list (toDataItems items)

def toDataItems : List Value → List Data
  | [] => []
  | item :: rest => item.toData :: toDataItems rest

end

mutual

/-- Reads a value: a scalar if it has that form, else a connection, else an array. -/
def ofData? : Data → Option Value
  | .list items =>
    match Plug.ofData? (.list items) with
    | some plug => some (connection plug)
    | none => (ofDataItems? items).map array
  | other =>
    match Scalar.ofData? other with
    | some payload => some (scalar payload)
    | none => (Plug.ofData? other).map connection

def ofDataItems? : List Data → Option (List Value)
  | [] => some []
  | item :: rest =>
    match ofData? item, ofDataItems? rest with
    | some value, some values => some (value :: values)
    | _, _ => none

end

end Value

end ShaderMigration

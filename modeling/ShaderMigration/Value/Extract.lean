import ShaderMigration.Value

namespace ShaderMigration

inductive PlainType where
  | number | integer | truth | text | vector | color | node
deriving DecidableEq

def PlainType.name : PlainType → String
  | number => "f64"
  | integer => "i64"
  | truth => "bool"
  | text => "alloc::string::String"
  | vector => "shadeport::model::value::Vec3"
  | color => "shadeport::model::value::Color"
  | node => "shadeport::model::node::NodeRef"

/-- Why a converter or a reading of a value fails: its text. -/
structure ConvertError where
  message : String
deriving DecidableEq, Inhabited

namespace Value

def mismatch (wanted : PlainType) (found : Value) : ConvertError :=
  ⟨s!"expected {wanted.name} but found {found.describe}"⟩

/-- A reading that may fail, with the error of a mismatch. -/
def expect {α : Type} (wanted : PlainType) (value : Value) : Option α → Except ConvertError α
  | some a => .ok a
  | none => .error (mismatch wanted value)

def asNumber (value : Value) : Except ConvertError Float :=
  value.expect .number (value.scalar?.bind Scalar.number?)

def asInteger (value : Value) : Except ConvertError Int64 :=
  value.expect .integer (value.scalar?.bind Scalar.integer?)

def asTruth (value : Value) : Except ConvertError Bool :=
  value.expect .truth (value.scalar?.bind Scalar.truth?)

def asText (value : Value) : Except ConvertError String :=
  value.expect .text <| match value with
    | scalar (.string s) => some s
    | _ => none

def asVector (value : Value) : Except ConvertError Vec3 :=
  value.expect .vector <| match value with
    | scalar (.vector3 v) => some v
    | scalar (.color c) => some c.toVec3
    | _ => none

def asColor (value : Value) : Except ConvertError Color :=
  value.expect .color <| match value with
    | scalar (.color c) => some c
    | scalar (.vector3 v) => some (Color.ofVec3 v)
    | _ => none

def asNode (value : Value) : Except ConvertError NodeId :=
  value.expect .node (value.plug?.map Plug.node)

end Value

end ShaderMigration

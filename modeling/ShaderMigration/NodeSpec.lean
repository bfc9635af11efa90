import ShaderMigration.Value
import ShaderMigration.Entries

namespace ShaderMigration

mutual

structure NodeSpec where
  type : String
  /-- By attribute name, in the order of assignment. -/
  attrs : List (String × SpecValue) := []
  /-- By stable input identifier, in the order of assignment. -/
  inputs : List (String × SpecValue) := []
  tag : Option String := none
  feed : Feed

/-- What is assigned to an attribute: a value, or a node that is built and connected. -/
inductive SpecValue where
  | literal (value : Value)
  | spec (spec : NodeSpec)

inductive Feed where
  | nothing
  | node (spec : NodeSpec)
  | tagged (tag : String)

end

namespace NodeSpec

def ofType (type : String) : NodeSpec := { type, feed := .nothing }

instance : Inhabited NodeSpec := ⟨ofType ""⟩

mutual

/-- Equality of descriptions: assignments may come in any order, and values are compared as
`Value.alike` does. -/
def alike : NodeSpec → NodeSpec → Bool
  | ⟨type, attrs, inputs, tag, feed⟩, ⟨type', attrs', inputs', tag', feed'⟩ =>
    type == type' && attrs.length == attrs'.length && alikeEntries attrs attrs' &&
      inputs.length == inputs'.length && alikeEntries inputs inputs' && tag == tag' &&
      alikeFeed feed feed'
termination_by structural spec => spec

def alikeEntries : List (String × SpecValue) → List (String × SpecValue) → Bool
  | [], _ => true
  | entry :: rest, entries => alikeEntry entry entries && alikeEntries rest entries
termination_by structural entries => entries

def alikeEntry : String × SpecValue → List (String × SpecValue) → Bool
  | (key, value), entries =>
    match Entries.find? key entries with
    | some value' => alikeValue value value'
    | none => false
termination_by structural entry => entry

def alikeValue : SpecValue → SpecValue → Bool
  | .literal value, .literal value' => value.alike value'
  | .spec spec, .spec spec' => alike spec spec'
  | _, _ => false
termination_by structural value => value

def alikeFeed : Feed → Feed → Bool
  | .nothing, .nothing => true
  | .node spec, .node spec' => alike spec spec'
  | .tagged tag, .tagged tag' => tag == tag'
  | _, _ => false
termination_by structural feed => feed

end

/-- Assigns a value to an attribute; a repeated name keeps its first place. -/
def attr (spec : NodeSpec) (name : String) (value : Value) : NodeSpec :=
  { spec with attrs := Entries.put name (.literal value) spec.attrs }

def attrNode (spec : NodeSpec) (name : String) (child : NodeSpec) : NodeSpec :=
  { spec with attrs := Entries.put name (.spec child) spec.attrs }

def input (spec : NodeSpec) (id : String) (value : Value) : NodeSpec :=
  { spec with inputs := Entries.put id (.literal value) spec.inputs }

def tagAs (spec : NodeSpec) (tag : String) : NodeSpec := { spec with tag := some tag }

def fedBy (spec : NodeSpec) (child : NodeSpec) : NodeSpec := { spec with feed := .node child }

def fedByTag (spec : NodeSpec) (tag : String) : NodeSpec := { spec with feed := .tagged tag }

end NodeSpec

inductive NodeTree where
  | many (specs : List NodeSpec)
  | one (spec : NodeSpec)

namespace NodeTree

def roots : NodeTree → List NodeSpec
  | many specs => specs
  | one spec => [spec]

def alike : NodeTree → NodeTree → Bool
  | many specs, many specs' =>
    specs.length == specs'.length && (specs.zip specs').all fun (spec, spec') => spec.alike spec'
  | one spec, one spec' => spec.alike spec'
  | _, _ => false

end NodeTree

end ShaderMigration

import ShaderMigration.Json.Printer
import ShaderMigration.Value.Document

namespace ShaderMigration

inductive LiteralError where
  | null
  | unsupported (d : Data)

def LiteralError.message : LiteralError → String
  | .null => "null is not an attribute value"
  | .unsupported d => "unsupported literal " ++ Json.compact d

namespace Value

/-- An integer literal: beyond 64 bits it becomes a float. -/
def ofIntLiteral (n : Int) : Value :=
  match (Data.int n).int64? with
  | some i => int i
  | none => float (Float.ofInt n)

def triple? : List Data → Option (Float × Float × Float)
  | [a, b, c] =>
    match a.number?, b.number?, c.number? with
    | some x, some y, some z => some (x, y, z)
    | _, _, _ => none
  | _ => none

/-- Three members of the given names that hold numbers, and no other member. -/
def namedTriple? (names : List String) (members : List (String × Data)) :
    Option (Float × Float × Float) :=
  if members.length = 3 then
    (names.mapM fun name => Entries.find? name members).bind triple?
  else none

mutual

/-- Reads a literal from a document whose records are in key order. -/
def ofLiteral : Data → Except LiteralError Value
  | .null => .error .null
  | .bool b => .ok (bool b)
  | .int n => .ok (ofIntLiteral n)
  | .float x => .ok (float x)
  | .text s => .ok (string s)
  | .list items =>
    match triple? items with
    | some (x, y, z) => .ok (vector3 ⟨x, y, z⟩)
    | none => (ofLiterals items).map array
  | .record members =>
    match namedTriple? ["x", "y", "z"] members, namedTriple? ["r", "g", "b"] members with
    | some (x, y, z), _ => .ok (vector3 ⟨x, y, z⟩)
    | none, some (r, g, b) => .ok (color ⟨r, g, b⟩)
    | none, none =>
      match ofData? (.record members) with
      | some value => .ok value
      | none => .error (.unsupported (.record members))

def ofLiterals : List Data → Except LiteralError (List Value)
  | [] => .ok []
  | item :: rest =>
    match ofLiteral item with
    | .error e => .error e
    | .ok value =>
      match ofLiterals rest with
      | .error e => .error e
      | .ok values => .ok (value :: values)

end

end Value

end ShaderMigration

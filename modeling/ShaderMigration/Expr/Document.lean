import ShaderMigration.Expr

namespace ShaderMigration.Expr

def names : List String :=
  ["identity", "affine", "exp2", "not", "clamp_min", "clamp_max", "lookup", "equals",
    "greater_than", "mean", "splat", "chain"]

def entryOfData? : Data → Option (Data × Data)
  | .list [key, result] => some (key.sorted, result.sorted)
  | _ => none

def literalOfData? (d : Data) : Option Data := some d.sorted

def ofParameters? (name : String) (d : Data) : Option Expr :=
  match name with
  | "identity" => do let _ ← Data.Layout.read? (.ofFields []) d; return identity
  | "exp2" => do let _ ← Data.Layout.read? (.ofFields []) d; return exp2
  | "not" => do let _ ← Data.Layout.read? (.ofFields []) d; return negation
  | "mean" => do let _ ← Data.Layout.read? (.ofFields []) d; return mean
  | "splat" => do let _ ← Data.Layout.read? (.ofFields []) d; return splat
  | "affine" => do
    let fields ← Data.Layout.read? (.ofFields ["scale", "offset"]) d
    return affine (← fields.defaulted "scale" Data.number? 1.0)
      (← fields.defaulted "offset" Data.number? 0.0)
  | "clamp_min" => do
    let fields ← Data.Layout.read? (.ofFields ["min"]) d
    return clampMin (← fields.required "min" Data.number?)
  | "clamp_max" => do
    let fields ← Data.Layout.read? (.ofFields ["max"]) d
    return clampMax (← fields.required "max" Data.number?)
  | "lookup" => do
    let fields ← Data.Layout.read? (.ofFields ["table", "default"]) d
    return lookup (← fields.required "table" (Data.listOf? entryOfData?))
      (← fields.defaulted "default" (Data.optional? literalOfData?) none)
  | "equals" => do
    let fields ← Data.Layout.read? (.ofFields ["value", "then", "else"]) d
    return equals (← fields.required "value" literalOfData?) (← fields.required "then" literalOfData?)
      (← fields.required "else" literalOfData?)
  | "greater_than" => do
    let fields ← Data.Layout.read? (.ofFields ["threshold", "then", "else"]) d
    return greaterThan (← fields.required "threshold" Data.number?)
      (← fields.required "then" literalOfData?) (← fields.required "else" literalOfData?)
  | _ => none

/-- The name that a tag gives: a text, or where `indexed` holds the index of a name. -/
def nameOfTag? (indexed : Bool) : Data → Option String
  | .text name => some name
  | .int n => if indexed ∧ 0 ≤ n then names[n.toNat]? else none
  | _ => none

/-- Splits a document into the name of its expression and the parameters.  A second name is an
error. -/
def untag? (indexed : Bool) : Data → Option (String × Data)
  | .list (tag :: rest) => (nameOfTag? indexed tag).map fun name => (name, .list rest)
  | .record members =>
    match members.filter fun member => member.1 == "expr" with
    | [(_, tag)] => (nameOfTag? indexed tag).map fun name =>
        (name, .record (members.filter fun member => member.1 != "expr"))
    | _ => none
  | _ => none

def stepsOfParameters? (d : Data) : Option (List Data) := do
  let fields ← Data.Layout.read? (.ofFields ["steps"]) d
  fields.required "steps" Data.items?

/-- Reads an expression whose chains are nested at most `depth` deep. -/
def readWithin? : Nat → Bool → Bool → Data → Option Expr
  | 0, _, _, _ => none
  | depth + 1, indexed, indexedBelow, d => do
    let (name, parameters) ← untag? indexed d
    if name = "chain" then
      let steps ← stepsOfParameters? parameters
      return chain (← steps.mapM (readWithin? depth indexedBelow indexedBelow))
    else ofParameters? name parameters

/-- Reads an expression.  `indexed` and `indexedBelow` tell whether its own name, and the names in
the steps of its chains, may be given by index. -/
def ofData? (indexed indexedBelow : Bool) (d : Data) : Option Expr :=
  readWithin? (d.depth + 1) indexed indexedBelow d

def tagged (name : String) (parameters : List (String × Data)) : Data :=
  .record (("expr", .text name) :: parameters)

/-- The default of a table beside it.  One that is missing is left out, or is null if `nulls` holds. -/
def defaultMember (nulls : Bool) : Option Data → List (String × Data)
  | some d => [("default", d)]
  | none => if nulls then [("default", .null)] else []

mutual

def toData (nulls : Bool) : Expr → Data
  | identity => tagged "identity" []
  | affine scale offset => tagged "affine" [("scale", .float scale), ("offset", .float offset)]
  | exp2 => tagged "exp2" []
  | negation => tagged "not" []
  | clampMin bound => tagged "clamp_min" [("min", .float bound)]
  | clampMax bound => tagged "clamp_max" [("max", .float bound)]
  | lookup entries default =>
    tagged "lookup" <| ("table", .list (entries.map fun entry => .list [entry.1, entry.2])) ::
      defaultMember nulls default
  | equals value yes no => tagged "equals" [("value", value), ("then", yes), ("else", no)]
  | greaterThan threshold yes no =>
    tagged "greater_than" [("threshold", .float threshold), ("then", yes), ("else", no)]
  | mean => tagged "mean" []
  | splat => tagged "splat" []
  | chain steps => tagged "chain" [("steps", .list (toDataAll nulls steps))]

def toDataAll (nulls : Bool) : List Expr → List Data
  | [] => []
  | step :: rest => step.toData nulls :: toDataAll nulls rest

end

end ShaderMigration.Expr

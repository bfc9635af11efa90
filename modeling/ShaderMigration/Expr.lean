import ShaderMigration.Data.Fields
import ShaderMigration.Value.Extract
import ShaderMigration.Value.Literal

namespace ShaderMigration

/-- A function of a source value.  Literals are kept as documents, and read when the expression is
evaluated. -/
inductive Expr where
  | identity
  /-- `value * scale + offset`, component by component. -/
  | affine (scale offset : Float)
  | exp2
  | negation
  | clampMin (bound : Float)
  | clampMax (bound : Float)
  /-- The result of the first entry whose key has the value, else the default. -/
  | lookup (entries : List (Data × Data)) (default : Option Data)
  | equals (value yes no : Data)
  | greaterThan (threshold : Float) (yes no : Data)
  | mean
  | splat
  | chain (steps : List Expr)
deriving Inhabited

inductive ExprError where
  | literal (cause : LiteralError)
  | noEntry (found : Value)
  | notNumber (found : Value)
  | notTriple (found : Value)

def ExprError.message : ExprError → String
  | literal cause => cause.message
  | noEntry found => s!"no lookup entry for {found.describe}"
  | notNumber found => s!"expected a number but found {found.describe}"
  | notTriple found => s!"expected a vector or colour but found {found.describe}"

namespace Value

def numeric? (value : Value) : Option Float := value.scalar?.bind Scalar.number?

/-- Equality in expressions: numbers compare as numbers whatever their kinds, all else by
`alike`. -/
def sameValue (a b : Value) : Bool :=
  match a.numeric?, b.numeric? with
  | some x, some y => x == y
  | _, _ => a.alike b

end Value

namespace Expr

def number (value : Value) : Except ExprError Float :=
  match value.numeric? with
  | some x => .ok x
  | none => .error (.notNumber value)

def components (value : Value) : Except ExprError Vec3 :=
  match value with
  | .scalar (.vector3 v) => .ok v
  | .scalar (.color c) => .ok c.toVec3
  | other => .error (.notTriple other)

def mapNumbers (f : Float → Float) (value : Value) : Except ExprError Value :=
  match value with
  | .scalar (.vector3 v) => .ok (.vector3 (v.map f))
  | .scalar (.color c) => .ok (.color (Color.ofVec3 (c.toVec3.map f)))
  | other => (number other).map fun x => .float (f x)

def literal (d : Data) : Except ExprError Value := (Value.ofLiteral d).mapError .literal

/-- The result of the first entry whose key has the value. -/
def find (value : Value) : List (Data × Data) → Except ExprError (Option Data)
  | [] => .ok none
  | (key, result) :: rest => do
    if value.sameValue (← literal key) then return some result else find value rest

mutual

def evaluate : Expr → Value → Except ExprError Value
  | identity, value => .ok value
  | affine scale offset, value => mapNumbers (fun x => x * scale + offset) value
  | exp2, value => mapNumbers Float.exp2 value
  | negation, value => (number value).map fun x => .bool (x == 0.0)
  | clampMin bound, value => mapNumbers (fun x => Binary64.max x bound) value
  | clampMax bound, value => mapNumbers (fun x => Binary64.min x bound) value
  | lookup entries default, value => do
    match (← find value entries).or default with
    | some result => literal result
    | none => throw (.noEntry value)
  | equals expected yes no, value => do
    if value.sameValue (← literal expected) then literal yes else literal no
  | greaterThan threshold yes no, value => do
    if threshold < (← number value) then literal yes else literal no
  | mean, value => (components value).map fun v => .float v.mean
  | splat, value => (number value).map fun x => .vector3 (Vec3.splat x)
  | chain steps, value => evaluateAll steps value

def evaluateAll : List Expr → Value → Except ExprError Value
  | [], value => .ok value
  | step :: rest, value =>
    match evaluate step value with
    | .ok next => evaluateAll rest next
    | .error e => .error e

end

end Expr

end ShaderMigration

import ShaderMigration.NodeId
import ShaderMigration.Binary64

namespace ShaderMigration

structure Vec3 where
  x : Float
  y : Float
  z : Float
deriving DecidableEq, Inhabited

namespace Vec3

def splat (v : Float) : Vec3 := ⟨v, v, v⟩

def map (f : Float → Float) (v : Vec3) : Vec3 := ⟨f v.x, f v.y, f v.z⟩

/-- The average of the components, summed in order. -/
def mean (v : Vec3) : Float := (v.x + v.y + v.z) / 3.0

def alike (v w : Vec3) : Bool :=
  Binary64.same v.x w.x && Binary64.same v.y w.y && Binary64.same v.z w.z

end Vec3

/-- A linear colour without alpha; its components are not bounded. -/
structure Color where
  r : Float
  g : Float
  b : Float
deriving DecidableEq, Inhabited

namespace Color

def grey (v : Float) : Color := ⟨v, v, v⟩

def toVec3 (c : Color) : Vec3 := ⟨c.r, c.g, c.b⟩

def ofVec3 (v : Vec3) : Color := ⟨v.x, v.y, v.z⟩

def alike (c d : Color) : Bool := c.toVec3.alike d.toVec3

end Color

inductive ScalarKind where
  | bool | int | float | vector3 | color | string | enumeration
deriving DecidableEq, Repr, Inhabited

namespace ScalarKind

def word : ScalarKind → String
  | bool => "bool"
  | int => "int"
  | float => "float"
  | vector3 => "vector3"
  | color => "color"
  | string => "string"
  | enumeration => "enum"

def all : List ScalarKind := [bool, int, float, vector3, color, string, enumeration]

def ofWord? (word : String) : Option ScalarKind := all.find? fun kind => kind.word == word

end ScalarKind

/-- A plain payload.  An enumeration is stored by its index. -/
inductive Scalar where
  | bool (b : Bool)
  | int (n : Int64)
  | float (x : Float)
  | vector3 (v : Vec3)
  | color (c : Color)
  | string (s : String)
  | enumeration (n : Int64)
deriving DecidableEq, Inhabited

namespace Scalar

def kind : Scalar → ScalarKind
  | bool _ => .bool
  | int _ => .int
  | float _ => .float
  | vector3 _ => .vector3
  | color _ => .color
  | string _ => .string
  | enumeration _ => .enumeration

def number? : Scalar → Option Float
  | float x => some x
  | int n => some (Binary64.ofInt64 n)
  | enumeration n => some (Binary64.ofInt64 n)
  | bool b => some (if b then 1.0 else 0.0)
  | _ => none

/-- The integer part of a double that is within `2 ^ -52` of it, cut to the range of the target. -/
def saturated? (x : Float) : Option Int64 :=
  (Dyadic.ofFloat? x).bind fun d =>
    if d.nearInteger then some (Int64.ofIntClamp d.trunc) else none

/-- The integer part of a double that is within `2 ^ -52` of it and not beyond `± 2 ^ 63`. -/
def wholeNumber? (x : Float) : Option Int64 :=
  (Dyadic.ofFloat? x).bind fun d =>
    if d.nearInteger ∧ -(Nat.pow 2 63 : Nat) ≤ d.trunc ∧ d.trunc ≤ (Nat.pow 2 63 : Nat) then
      some (Int64.ofIntClamp d.trunc)
    else none

def integer? : Scalar → Option Int64
  | int n => some n
  | enumeration n => some n
  | bool b => some (if b then 1 else 0)
  | float x => wholeNumber? x
  | _ => none

def truth? : Scalar → Option Bool
  | bool b => some b
  | other => other.number?.map fun x => x != 0.0

/-- The payload in another kind: the numeric kinds convert into each other, and vectors and colours
into each other. -/
def coerce? (payload : Scalar) (target : ScalarKind) : Option Scalar :=
  if payload.kind = target then some payload
  else
    match payload, target with
    | vector3 v, .color => some (color (Color.ofVec3 v))
    | color c, .vector3 => some (vector3 c.toVec3)
    | float x, .int => (saturated? x).map int
    | float x, .enumeration => (saturated? x).map enumeration
    | other, .float => other.number?.map float
    | other, .int => other.integer?.map int
    | other, .enumeration => other.integer?.map enumeration
    | other, .bool => other.number?.map fun x => bool (x != 0.0)
    | _, _ => none

def alike : Scalar → Scalar → Bool
  | bool a, bool b => a == b
  | int m, int n => m == n
  | float x, float y => Binary64.same x y
  | vector3 v, vector3 w => v.alike w
  | color c, color d => c.alike d
  | string s, string t => s == t
  | enumeration m, enumeration n => m == n
  | _, _ => false

theorem kind_of_coerce? {payload result : Scalar} {target : ScalarKind}
    (h : payload.coerce? target = some result) : result.kind = target := by
  unfold coerce? at h
  split at h
  next hk => cases h; exact hk
  next =>
    split at h
    next => cases h; rfl
    next => cases h; rfl
    iterate 6
      next => obtain ⟨_, _, rfl⟩ := Option.map_eq_some_iff.mp h; rfl
    next => cases h

end Scalar

/-- An output: a node and, for a node with several outputs, the name of one of them. -/
structure Plug where
  node : NodeId
  channel : Option String := none
deriving DecidableEq, Inhabited

namespace Plug

def retarget (plug : Plug) (node : NodeId) : Plug := { plug with node }

def label (plug : Plug) : String :=
  match plug.channel with
  | some channel => plug.node.label ++ "." ++ channel
  | none => plug.node.label

end Plug

/-- What an attribute may hold or show: a payload, an output that drives it, or values in turn. -/
inductive Value where
  | scalar (payload : Scalar)
  | connection (plug : Plug)
  | array (items : List Value)
deriving Inhabited

namespace Value

def float (x : Float) : Value := scalar (.float x)

def int (n : Int64) : Value := scalar (.int n)

def bool (b : Bool) : Value := scalar (.bool b)

def string (s : String) : Value := scalar (.string s)

def vector3 (v : Vec3) : Value := scalar (.vector3 v)

def color (c : Color) : Value := scalar (.color c)

def isConnection : Value → Bool
  | connection _ => true
  | _ => false

def scalar? : Value → Option Scalar
  | scalar payload => some payload
  | _ => none

def plug? : Value → Option Plug
  | connection plug => some plug
  | _ => none

def items? : Value → Option (List Value)
  | array items => some items
  | _ => none

def describe : Value → String
  | scalar payload => payload.kind.word ++ " scalar"
  | connection plug => "connection from " ++ plug.label
  | array items => "array of " ++ toString items.length

mutual

/-- Equality with numbers compared as numbers: a NaN equals a NaN and the two zeros are equal. -/
def alike : Value → Value → Bool
  | scalar a, scalar b => a.alike b
  | connection p, connection q => p == q
  | array xs, array ys => alikeItems xs ys
  | _, _ => false

def alikeItems : List Value → List Value → Bool
  | [], [] => true
  | x :: xs, y :: ys => x.alike y && alikeItems xs ys
  | _, _ => false

end

mutual

/-- Every plug in a value, at any depth, in order. -/
def plugs : Value → List Plug
  | scalar _ => []
  | connection plug => [plug]
  | array items => plugsOf items

def plugsOf : List Value → List Plug
  | [] => []
  | item :: rest => item.plugs ++ plugsOf rest

end

mutual

def decEq : (a b : Value) → Decidable (a = b)
  | scalar a, scalar b =>
    if h : a = b then isTrue (by rw [h]) else isFalse fun hab => h (Value.scalar.inj hab)
  | connection p, connection q =>
    if h : p = q then isTrue (by rw [h]) else isFalse fun hpq => h (Value.connection.inj hpq)
  | array xs, array ys =>
    match decEqItems xs ys with
    | isTrue h => isTrue (by rw [h])
    | isFalse h => isFalse fun hxy => h (Value.array.inj hxy)
  | scalar _, connection _ => isFalse fun h => Value.noConfusion h
  | scalar _, array _ => isFalse fun h => Value.noConfusion h
  | connection _, scalar _ => isFalse fun h => Value.noConfusion h
  | connection _, array _ => isFalse fun h => Value.noConfusion h
  | array _, scalar _ => isFalse fun h => Value.noConfusion h
  | array _, connection _ => isFalse fun h => Value.noConfusion h

def decEqItems : (xs ys : List Value) → Decidable (xs = ys)
  | [], [] => isTrue rfl
  | [], _ :: _ => isFalse fun h => List.noConfusion rfl (heq_of_eq h)
  | _ :: _, [] => isFalse fun h => List.noConfusion rfl (heq_of_eq h)
  | x :: xs, y :: ys =>
    match decEq x y, decEqItems xs ys with
    | isTrue hx, isTrue hs => isTrue (by rw [hx, hs])
    | isFalse hx, _ => isFalse fun h => hx (List.cons.inj h).1
    | _, isFalse hs => isFalse fun h => hs (List.cons.inj h).2

end

instance : DecidableEq Value := decEq

@[simp] theorem plugsOf_nil : plugsOf [] = [] := by simp [plugsOf]

@[simp] theorem plugsOf_cons (item : Value) (rest : List Value) :
    plugsOf (item :: rest) = item.plugs ++ plugsOf rest := by simp [plugsOf]

theorem plugsOf_eq_flatMap (items : List Value) : plugsOf items = items.flatMap plugs := by
  induction items with
  | nil => simp
  | cons item rest ih => simp [ih]

end Value

end ShaderMigration

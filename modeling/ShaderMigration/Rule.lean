import ShaderMigration.Expr
import ShaderMigration.Table
import ShaderMigration.Text.Replace
import ShaderMigration.Texture

namespace ShaderMigration

/-- How the value of one target is computed from the value stored in the source: it is fixed, or it
depends on the source, on the old node too, or on both nodes. -/
inductive Converter where
  | constant (value : Value)
  | unary (f : Value → Except ConvertError Value)
  | binary (f : Value → NodeView → Except ConvertError Value)
  | ternary (f : Value → NodeView → NodeView → Except ConvertError Value)

namespace Converter

def arity : Converter → Nat
  | constant _ => 0
  | unary _ => 1
  | binary _ => 2
  | ternary _ => 3

def evaluate (converter : Converter) (value : Value) (old new : NodeView) :
    Except ConvertError Value :=
  match converter with
  | constant fixed => .ok fixed
  | unary f => f value
  | binary f => f value old
  | ternary f => f value old new

def ofExpr (expr : Expr) : Converter :=
  unary fun value => (expr.evaluate value).mapError fun e => ⟨e.message⟩

end Converter

inductive AttributeRule where
  /-- Its value is copied, or what drives it is connected, to one target. -/
  | rename (target : String)
  /-- The same for several targets. -/
  | fanOut (targets : List String)
  /-- Each target gets a computed value. -/
  | computed (converters : Table String Converter)

namespace AttributeRule

def targets : AttributeRule → List String
  | rename target => [target]
  | fanOut targets => targets
  | computed converters => converters.keys

end AttributeRule

/-- Which word takes the place of the old type in the name of a replacement. -/
inductive Naming where
  | target | secondary
deriving DecidableEq, Repr

/-- A step of a rule: it may change the scene, and it may fail on the way. -/
abbrev Step (σ : Type) := ExceptT MigrationError (StateM σ) Unit

structure Rule (σ : Type) where
  /-- The type of the replacement; without one the node stays in place. -/
  target : Option String := none
  secondary : Option String := none
  naming : Naming := .target
  /-- Whether a rule without a target writes to the node itself. -/
  inPlace : Bool := false
  attributes : Table String AttributeRule := {}
  /-- Runs before anything is created, on the old node. -/
  before : Option (Host σ → NodeId → Step σ) := none
  /-- Runs last, on the old node and the node that stands for it. -/
  after : Option (Host σ → NodeId → NodeId → Step σ) := none
  /-- The texture work to be done for a node before nodes of its type are mapped. -/
  textureJob : Option (Reads → NodeId → Except MigrationError (Option Texture.Job)) := none

namespace Rule

variable {σ : Type}

def replacing (target : String) : Rule σ := { target := some target }

def passthrough : Rule σ := {}

def onto : Rule σ := { inPlace := true }

def isPassthrough (rule : Rule σ) : Bool := rule.target.isNone

/-- The word that takes the place of the old type in names: the target type, or the secondary type
with underscores for its spaces. -/
def nameToken (rule : Rule σ) : Option String :=
  match rule.naming with
  | .target => rule.target
  | .secondary => (rule.secondary.map (Text.replace " " "_")).or rule.target

def withSecondary (rule : Rule σ) (secondary : String) : Rule σ :=
  { rule with secondary := some secondary }

def namedAfterSecondary (rule : Rule σ) : Rule σ := { rule with naming := .secondary }

def withAttribute (rule : Rule σ) (source : String) (attributeRule : AttributeRule) : Rule σ :=
  { rule with attributes := rule.attributes.insert source attributeRule }

def rename (rule : Rule σ) (source target : String) : Rule σ :=
  rule.withAttribute source (.rename target)

def fanOut (rule : Rule σ) (source : String) (targets : List String) : Rule σ :=
  rule.withAttribute source (.fanOut targets)

/-- Computes one target from an attribute, beside those already computed from it. -/
def computed (rule : Rule σ) (source target : String) (converter : Converter) : Rule σ :=
  let known := match rule.attributes.find? source with
    | some (.computed converters) => converters
    | _ => {}
  rule.withAttribute source (.computed (known.insert target converter))

end Rule

/-- Rules by source type, in the order in which the types are handled. -/
abbrev Sheet (σ : Type) := Table String (Rule σ)

end ShaderMigration

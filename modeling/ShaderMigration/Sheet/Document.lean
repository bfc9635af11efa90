import ShaderMigration.Expr.Document
import ShaderMigration.Files.Tree
import ShaderMigration.Json.Written
import ShaderMigration.Rule
import ShaderMigration.Table.Document
import ShaderMigration.Toml.Reader

namespace ShaderMigration

inductive DocumentFormat where
  | json | toml
deriving DecidableEq, Repr

inductive ComputedDocument where
  | constant (literal : Data)
  | expr (expr : Expr)

inductive AttributeDocument where
  | rename (target : String)
  | fanOut (targets : List String)
  | computed (targets : Table String ComputedDocument)

structure RuleDocument where
  source : String
  target : Option String := none
  secondary : Option String := none
  nameAfterSecondary : Bool := false
  inPlace : Bool := false
  /-- The attribute that holds the path of a texture to be transcoded. -/
  transcode : Option String := none
  attributes : Table String AttributeDocument := {}

structure SheetDocument where
  name : Option String := none
  description : Option String := none
  rules : List RuleDocument := []

def optionalMember (name : String) (value : Option String) : List (String × Data) :=
  match value with
  | some text => [(name, .text text)]
  | none => []

namespace ComputedDocument

/-- Reads the constant of a record that has one; its other members do not count. -/
def constantOfData? : Data → Option Data
  | .record members => do
    let fields ← Data.Layout.ofMembers? (.ofFields ["constant"]) members []
    fields.required "constant" fun d => some d.sorted
  | _ => none

/-- Reads a computation: a constant if it has that form, else an expression. -/
def ofData? (format : DocumentFormat) (d : Data) : Option ComputedDocument :=
  match constantOfData? d with
  | some literal => some (constant literal)
  | none => (Expr.ofData? (format == .json) (format == .json) d).map expr

/-- A computation as a document writes it.  Only JSON has a null for a default that is missing. -/
def toData (format : DocumentFormat) : ComputedDocument → Data
  | constant literal => .record [("constant", literal)]
  | expr e => e.toData (format == .json)

/-- The converter of a computation; a constant must be a literal. -/
def compile (source : String) : ComputedDocument → Except MigrationError Converter
  | constant literal =>
    match Value.ofLiteral literal with
    | .ok value => .ok (.constant value)
    | .error cause => .error (.sheet (.literal source cause))
  | expr e => .ok (.ofExpr e)

end ComputedDocument

namespace AttributeDocument

/-- Reads what becomes of an attribute: a text, a list of texts, or a record of computations. -/
def ofFitting? (format : DocumentFormat) : Data → Option AttributeDocument
  | .text target => some (rename target)
  | .list items => (items.mapM Data.text?).map fanOut
  | .record members => do
    let fields ← Data.Layout.ofMembers? (.ofFields ["computed"]) members []
    return computed (← fields.required "computed" (Table.ofData? (ComputedDocument.ofData? format)))
  | _ => none

/-- Reads what becomes of an attribute; all integers in it must fit 64 bits. -/
def ofData? (format : DocumentFormat) (d : Data) : Option AttributeDocument :=
  if d.hasWide then none else ofFitting? format d

def toData (format : DocumentFormat) : AttributeDocument → Data
  | rename target => .text target
  | fanOut targets => .list (targets.map .text)
  | computed targets => .record [("computed", targets.toData (ComputedDocument.toData format))]

def compileEntries (source : String) :
    List (String × ComputedDocument) → Except MigrationError (List (String × Converter))
  | [] => .ok []
  | (target, d) :: rest => do
    let converter ← d.compile source
    return (target, converter) :: (← compileEntries source rest)

def compile (source : String) : AttributeDocument → Except MigrationError AttributeRule
  | rename target => .ok (.rename target)
  | fanOut targets => .ok (.fanOut targets)
  | computed targets => (compileEntries source targets.entries).map fun entries =>
      .computed (Table.ofPairs entries)

end AttributeDocument

namespace RuleDocument

/-- The members of a rule.  In TOML a rule written as a list may have further values. -/
def layout (format : DocumentFormat) : Data.Layout :=
  { fields := ["source", "target", "secondary", "name_after_secondary", "in_place", "transcode",
      "attributes"]
    closed := true
    longLists := format == .toml }

def ofData? (format : DocumentFormat) (d : Data) : Option RuleDocument := do
  let fields ← (layout format).read? d
  return {
    source := ← fields.required "source" Data.text?
    target := ← fields.defaulted "target" (Data.optional? Data.text?) none
    secondary := ← fields.defaulted "secondary" (Data.optional? Data.text?) none
    nameAfterSecondary := ← fields.defaulted "name_after_secondary" Data.bool? false
    inPlace := ← fields.defaulted "in_place" Data.bool? false
    transcode := ← fields.defaulted "transcode" (Data.optional? Data.text?) none
    attributes := ← fields.defaulted "attributes"
      (Table.ofData? (AttributeDocument.ofData? format)) {} }

/-- A rule as a document writes it; missing texts are left out. -/
def toData (format : DocumentFormat) (rule : RuleDocument) : Data :=
  .record <| [("source", .text rule.source)] ++ optionalMember "target" rule.target ++
    optionalMember "secondary" rule.secondary ++
    [("name_after_secondary", .bool rule.nameAfterSecondary), ("in_place", .bool rule.inPlace)] ++
    optionalMember "transcode" rule.transcode ++
    [("attributes", rule.attributes.toData (AttributeDocument.toData format))]

def compileAttributes (source : String) :
    List (String × AttributeDocument) → Except MigrationError (List (String × AttributeRule))
  | [] => .ok []
  | (attr, d) :: rest => do
    let rule ← d.compile source
    return (attr, rule) :: (← compileAttributes source rest)

def compileJob (rule : RuleDocument) (transcoder : Option Texture.Transcoder) :
    Except MigrationError (Option (Reads → NodeId → Except MigrationError (Option Texture.Job))) :=
  match rule.transcode, transcoder with
  | none, _ => .ok none
  | some attr, some transcoder => .ok (some (Texture.jobOfAttribute transcoder attr))
  | some attr, none => .error (.sheet (.noTranscoder rule.source attr))

def compile {σ : Type} (rule : RuleDocument) (transcoder : Option Texture.Transcoder) :
    Except MigrationError (Rule σ) := do
  if rule.target.isSome && rule.inPlace then throw (.sheet (.targetAndInPlace rule.source))
  let attributes ← compileAttributes rule.source rule.attributes.entries
  return {
    target := rule.target
    secondary := rule.secondary
    naming := if rule.nameAfterSecondary then .secondary else .target
    inPlace := rule.inPlace
    attributes := Table.ofPairs attributes
    textureJob := ← rule.compileJob transcoder }

end RuleDocument

namespace SheetDocument

def layout : Data.Layout := .ofFields ["name", "description", ⟨"rule", ["rules"]⟩]

def ofData? (format : DocumentFormat) (d : Data) : Option SheetDocument := do
  let fields ← layout.read? d
  return {
    name := ← fields.defaulted "name" (Data.optional? Data.text?) none
    description := ← fields.defaulted "description" (Data.optional? Data.text?) none
    rules := ← fields.defaulted "rule" (Data.listOf? (RuleDocument.ofData? format)) [] }

def toData (format : DocumentFormat) (sheet : SheetDocument) : Data :=
  .record <| optionalMember "name" sheet.name ++ optionalMember "description" sheet.description ++
    [("rule", .list (sheet.rules.map (RuleDocument.toData format)))]

def outline : Json.Outline :=
  .fields [("name", .whole), ("description", .whole), ("rule", .whole), ("rules", .whole)]

def ofText (format : DocumentFormat) (text : String) : Except MigrationError SheetDocument :=
  match format with
  | .json =>
    match (Json.read? outline text).bind (ofData? .json) with
    | some sheet => .ok sheet
    | none => .error .json
  | .toml =>
    match (Toml.read? text).bind (ofData? .toml) with
    | some sheet => .ok sheet
    | none => .error .toml

def formatOfPath (path : String) : Except MigrationError DocumentFormat :=
  match Files.extension? path with
  | some "toml" => .ok .toml
  | some "json" => .ok .json
  | _ => .error (.sheet (.unsupportedFormat path))

def load (files : Files.Tree) (path : String) : Except MigrationError SheetDocument := do
  let text ← (files.read path).mapError .io
  ofText (← formatOfPath path) text

/-- Compiles rules into a sheet; a later rule for the same type takes the place of an earlier
one. -/
def compileRules {σ : Type} (transcoder : Option Texture.Transcoder) :
    List RuleDocument → Sheet σ → Except MigrationError (Sheet σ)
  | [], sheet => .ok sheet
  | rule :: rest, sheet => do
    compileRules transcoder rest (sheet.insert rule.source (← rule.compile transcoder))

def compile {σ : Type} (sheet : SheetDocument) (transcoder : Option Texture.Transcoder) :
    Except MigrationError (Sheet σ) :=
  compileRules transcoder sheet.rules {}

/-- Equality of sheets; a NaN is equal to nothing. -/
def alike (sheet other : SheetDocument) : Bool := (sheet.toData .toml).alike (other.toData .toml)

/-- Whether a sheet is the same after it was written as TOML and read again, and nothing when it is
not read at all.  TOML cannot write a null. -/
def readsBack (sheet : SheetDocument) : Except MigrationError (Option Bool) :=
  if (sheet.toData .toml).hasNull then .error .tomlWrite
  else .ok ((ofData? .toml (sheet.toData .toml)).map sheet.alike)

end SheetDocument

end ShaderMigration

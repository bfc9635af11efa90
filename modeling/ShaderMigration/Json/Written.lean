import ShaderMigration.Data
import ShaderMigration.Json.Token

namespace ShaderMigration.Json

/-- What the grammar accepts, whether it denotes a document or not. -/
inductive Written where
  | null
  | bool (b : Bool)
  | number (value : Option Number)
  | string (content : Option String)
  | list (items : List Written)
  | record (members : List (Option String × Written))
deriving Inhabited

namespace Written

/-- A list or a record that is still open, with what it holds so far, last item first. -/
inductive Frame where
  | items (done : List Written)
  | members (done : List (Option String × Written)) (key : Option String)

inductive Phase where
  | value
  /-- A value, or the end of the list that was just opened. -/
  | itemOrEnd
  /-- A key, or the end of the record that was just opened. -/
  | keyOrEnd
  /-- A key, after a comma in a record with these members. -/
  | key (done : List (Option String × Written))
  /-- The colon after a key, in a record with these members. -/
  | colon (done : List (Option String × Written)) (key : Option String)
  | done (value : Written)

/-- The tree of the tokens read so far: open frames, innermost first, and the phase. -/
structure Progress where
  frames : List Frame
  phase : Phase

namespace Progress

def beginValue (frames : List Frame) : Token → Option Progress
  | .openBracket => some ⟨.items [] :: frames, .itemOrEnd⟩
  | .openBrace => some ⟨frames, .keyOrEnd⟩
  | .null => some ⟨frames, .done .null⟩
  | .bool b => some ⟨frames, .done (.bool b)⟩
  | .number value => some ⟨frames, .done (.number value)⟩
  | .string content => some ⟨frames, .done (.string content)⟩
  | _ => none

def finish (value : Written) : List Frame → Token → Option Progress
  | .items done :: frames, .comma => some ⟨.items (value :: done) :: frames, .value⟩
  | .items done :: frames, .closeBracket => some ⟨frames, .done (.list (value :: done).reverse)⟩
  | .members done key :: frames, .comma => some ⟨frames, .key ((key, value) :: done)⟩
  | .members done key :: frames, .closeBrace =>
    some ⟨frames, .done (.record ((key, value) :: done).reverse)⟩
  | _, _ => none

def step (p : Progress) (token : Token) : Option Progress :=
  match p.phase, token with
  | .value, t => beginValue p.frames t
  | .itemOrEnd, .closeBracket => some ⟨p.frames.drop 1, .done (.list [])⟩
  | .itemOrEnd, t => beginValue p.frames t
  | .keyOrEnd, .closeBrace => some ⟨p.frames, .done (.record [])⟩
  | .keyOrEnd, .string content => some ⟨p.frames, .colon [] content⟩
  | .key done, .string content => some ⟨p.frames, .colon done content⟩
  | .colon done key, .colon => some ⟨.members done key :: p.frames, .value⟩
  | .done value, t => finish value p.frames t
  | _, _ => none

end Progress

/-- The tree of a whole text; none when the grammar refuses it. -/
def ofText? (text : String) : Option Written := do
  let tokens ← tokens? text.toList
  let final ← tokens.foldlM Progress.step ⟨[], .value⟩
  match final with
  | ⟨[], .done value⟩ => some value
  | _ => none

mutual

def read? : Written → Option Data
  | .null => some .null
  | .bool b => some (.bool b)
  | .number value => value.map fun
    | .int n => .int n
    | .float x => .float x
  | .string content => content.map .text
  | .list items => (readItems? items).map .list
  | .record members => (readMembers? members).map .record

def readItems? : List Written → Option (List Data)
  | [] => some []
  | item :: rest =>
    match item.read?, readItems? rest with
    | some d, some ds => some (d :: ds)
    | _, _ => none

def readMembers? : List (Option String × Written) → Option (List (String × Data))
  | [] => some []
  | member :: rest =>
    match readMember? member, readMembers? rest with
    | some d, some ds => some (d :: ds)
    | _, _ => none

def readMember? : Option String × Written → Option (String × Data)
  | (key, value) =>
    match key, value.read? with
    | some k, some d => some (k, d)
    | _, _ => none

end

def data? (w : Written) : Option Data :=
  w.read?.filter fun d => d.depth ≤ 127

end Written

/-- The part of a tree that a reader looks at; the rest is held to the grammar alone. -/
abbrev Outline := Written → Written

namespace Outline

def whole : Outline := id

/-- The named members of a record, each by an outline of its own.  A record written as a list has
its fields in the order of the names.  A key that denotes nothing is kept. -/
def fields (known : List (String × Outline)) : Outline
  | .record members => .record <| members.filterMap fun (key, value) =>
      match key with
      | none => some (none, value)
      | some name => (Entries.find? name known).map fun outline => (key, outline value)
  | .list items => .list <| items.mapIdx fun i item =>
      match known[i]? with
      | some (_, outline) => outline item
      | none => item
  | other => other

def entries (outline : Outline) : Outline
  | .record members => .record <| members.map fun (key, value) => (key, outline value)
  | other => other

end Outline

/-- Reads a text and keeps the part of it that an outline selects. -/
def read? (outline : Outline) (text : String) : Option Data :=
  (Written.ofText? text).bind fun w => (outline w).data?

end ShaderMigration.Json

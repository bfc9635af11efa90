import ShaderMigration.Proofs.BuildDescribed

namespace ShaderMigration

namespace Build

/-- What a node is asked to take, under the key that the tree gives it. -/
inductive Request where
  /-- Anything for an input that the node does not have. -/
  | unlisted (id : String)
  /-- A value, written when so many nodes are made. -/
  | write (key attr : String) (value : Value) (made : Nat)
  /-- A connection to the node of a nested description, made at a place. -/
  | link (key attr : String) (child : NodeSpec) (place : Nat)
  /-- A connection of the primary input to the node that has a tag. -/
  | refer (tag : String)

inductive Move where
  | create (place : Nat) (spec : NodeSpec)
  | ask (place : Nat) (request : Request)
  | tag (place : Nat) (tag : String)
  /-- Lists the node among those at the top. -/
  | root (place : Nat)

end Build

namespace NodeSpec

open Build

variable (schemas : Table String Schema) (primary : String)

def attrOfInput? (type id : String) : Option String :=
  (schemas.find? type).bind fun schema =>
    (schema.inputEntries.find? fun entry => entry.id == id).map InputEntry.attr

/-- What an assignment asks for when `made` nodes are made: the node of a nested description is the
next one. -/
def requestOf (attr? : Option String) (made : Nat) (key : String) (value : SpecValue) : Request :=
  match attr?, value with
  | some attr, .literal value => .write key attr value made
  | some attr, .spec child => .link key attr child made
  | none, _ => .unlisted key

/-- The requests of a list of assignments; nodes are made only for attributes that are there. -/
def requestsOf (attrOf : String → Option String) (made : Nat) :
    List (String × SpecValue) → List Request
  | [] => []
  | (key, value) :: rest =>
    let nested := describedEntry schemas (fun key => (attrOf key).isSome) (key, value)
    requestOf (attrOf key) made key value :: requestsOf attrOf (made + nested.length) rest

def feedRequests (made : Nat) : Feed → List Request
  | .nothing => []
  | .node child => [.link primary primary child made]
  | .tagged tag => [.refer tag]

/-- The number of nodes made when the inputs of the node at a place are assigned. -/
def madeForInputs (place : Nat) (spec : NodeSpec) : Nat :=
  place + 1 + (describedEntries schemas (fun _ => true) spec.attrs).length

/-- The number of nodes made when the node at a place is fed. -/
def madeForFeed (place : Nat) (spec : NodeSpec) : Nat :=
  spec.madeForInputs schemas place +
    (describedEntries schemas (hasInput schemas spec.type) spec.inputs).length

/-- What the node at a place is asked to take before it is tagged. -/
def assignments (place : Nat) (spec : NodeSpec) : List Request :=
  requestsOf schemas some (place + 1) spec.attrs ++
    requestsOf schemas (attrOfInput? schemas spec.type) (spec.madeForInputs schemas place)
      spec.inputs

/-- What the node at a place is asked to take, in order. -/
def requests (place : Nat) (spec : NodeSpec) : List Request :=
  spec.assignments schemas place ++
    feedRequests primary (spec.madeForFeed schemas place) spec.feed

/-- The moves of the node at a place, without those of the nodes nested in it. -/
def moves (place : Nat) (spec : NodeSpec) : List Move :=
  .create place spec :: ((spec.assignments schemas place).map (.ask place) ++
    (spec.tag.toList.map (.tag place) ++
      (feedRequests primary (spec.madeForFeed schemas place) spec.feed).map (.ask place)))

mutual

/-- The moves that make the node of a description at a place, and everything nested in it. -/
def script (place : Nat) : NodeSpec → List Move
  | ⟨type, attrs, inputs, tag, feed⟩ =>
    let spec : NodeSpec := ⟨type, attrs, inputs, tag, feed⟩
    .create place spec :: (scriptEntries some place (place + 1) attrs ++
      (scriptEntries (attrOfInput? schemas type) place (spec.madeForInputs schemas place) inputs ++
        (tag.toList.map (.tag place) ++
          scriptFeed place (spec.madeForFeed schemas place) feed)))

def scriptEntries (attrOf : String → Option String) (place made : Nat) :
    List (String × SpecValue) → List Move
  | [] => []
  | entry :: rest =>
    let nested := describedEntry schemas (fun key => (attrOf key).isSome) entry
    scriptEntry attrOf place made entry ++
      scriptEntries attrOf place (made + nested.length) rest

def scriptEntry (attrOf : String → Option String) (place made : Nat) :
    String × SpecValue → List Move
  | (key, value) => (if (attrOf key).isSome then scriptValue made value else []) ++
      [.ask place (requestOf (attrOf key) made key value)]

def scriptValue (made : Nat) : SpecValue → List Move
  | .literal _ => []
  | .spec child => script made child

def scriptFeed (place made : Nat) : Feed → List Move
  | .nothing => []
  | .node child => script made child ++ [.ask place (.link primary primary child made)]
  | .tagged tag => [.ask place (.refer tag)]

end

def scriptRoots (made : Nat) : List NodeSpec → List Move
  | [] => []
  | spec :: rest => spec.script schemas primary made ++
      .root made :: scriptRoots (made + (spec.described schemas).length) rest

theorem hasInput_eq (type id : String) :
    hasInput schemas type id = (attrOfInput? schemas type id).isSome := by
  unfold hasInput attrOfInput?
  cases schemas.find? type with
  | none => rfl
  | some schema =>
    rw [Option.any_some, Option.bind_some, Option.isSome_map, Bool.eq_iff_iff, List.any_eq_true,
      List.find?_isSome]

section Refer

variable {schemas : Table String Schema} {primary : String}

theorem refer_not_mem_requestsOf (attrOf : String → Option String) (tag : String)
    (entries : List (String × SpecValue)) (made : Nat) :
    .refer tag ∉ requestsOf schemas attrOf made entries := by
  induction entries generalizing made with
  | nil => simp [requestsOf]
  | cons entry rest ih =>
    obtain ⟨key, value⟩ := entry
    unfold requestsOf
    rw [List.mem_cons, not_or]
    refine ⟨?_, ih _⟩
    unfold requestOf
    split <;> simp

theorem refer_not_mem_assignments (spec : NodeSpec) (place : Nat) (tag : String) :
    .refer tag ∉ spec.assignments schemas place := by
  unfold assignments
  rw [List.mem_append, not_or]
  exact ⟨refer_not_mem_requestsOf _ _ _ _, refer_not_mem_requestsOf _ _ _ _⟩

theorem feed_eq_of_refer {spec : NodeSpec} {place : Nat} {tag : String}
    (h : .refer tag ∈ spec.requests schemas primary place) : spec.feed = .tagged tag := by
  have hfeed := (List.mem_append.mp h).resolve_left (spec.refer_not_mem_assignments place tag)
  cases hspec : spec.feed with
  | nothing => simp [hspec, feedRequests] at hfeed
  | node child => simp [hspec, feedRequests] at hfeed
  | tagged other => simpa [hspec, feedRequests, eq_comm] using hfeed

/-- A node refers to a tag after everything else that it is asked for. -/
theorem refer_not_mem_dropLast_requests (spec : NodeSpec) (place : Nat) (tag : String) :
    .refer tag ∉ (spec.requests schemas primary place).dropLast := by
  have hassigned : .refer tag ∉ spec.assignments schemas place :=
    spec.refer_not_mem_assignments place tag
  unfold requests
  cases spec.feed with
  | nothing =>
    rw [feedRequests, List.append_nil]
    exact fun h => hassigned ((List.dropLast_sublist _).subset h)
  | node child =>
    rw [feedRequests, List.dropLast_concat]
    exact hassigned
  | tagged other =>
    rw [feedRequests, List.dropLast_concat]
    exact hassigned

end Refer

end NodeSpec

end ShaderMigration

import ShaderMigration.Host
import ShaderMigration.Text.Replace

namespace ShaderMigration

/-- What to do with a derived name that is in use. -/
inductive NamingPolicy where
  /-- A suffix is appended until the name is free. -/
  | unique
  /-- The name is handed to the scene as it is. -/
  | verbatim
deriving DecidableEq, Repr

/-- Puts a token in the place of the old type; a name without the type gets the token appended. -/
def deriveName (oldName oldType token : String) : String :=
  if !oldType.isEmpty && Text.contains oldType oldName then Text.replace oldType token oldName
  else oldName ++ "_" ++ token

structure Namer where
  policy : NamingPolicy := .unique
  issued : List String := []
deriving DecidableEq

namespace Namer

def suffixed (candidate : String) (k : Nat) : String := candidate ++ "_" ++ toString k

/-- The first suffixed name from `k` on that is not refused, after at most `retries` refusals. -/
def firstFree (refused : List String) (candidate : String) : Nat → Nat → String
  | 0, k => suffixed candidate k
  | retries + 1, k =>
    if suffixed candidate k ∈ refused then firstFree refused candidate retries (k + 1)
    else suffixed candidate k

/-- The candidate if it is free, else the first free suffixed name.  There are no more refusals than
refused names. -/
def freeName (refused : List String) (candidate : String) : String :=
  if candidate ∈ refused then firstFree refused candidate refused.length 1 else candidate

/-- Issues a name that differs from the old one and from all taken and issued ones; under the
verbatim policy the candidate itself, of which no record is kept. -/
def claim (namer : Namer) (candidate oldName : String) (taken : List String) : String × Namer :=
  match namer.policy with
  | .verbatim => (candidate, namer)
  | .unique =>
    let name := freeName (oldName :: namer.issued ++ taken) candidate
    (name, { namer with issued := name :: namer.issued })

/-- The names of all nodes but one; a node whose name cannot be read counts for nothing. -/
def takenNames (reads : Reads) (skipped : NodeId) : List String :=
  (reads.allNodes.filter fun node => node != skipped).filterMap fun node =>
    (reads.nodeName node).toOption

def propose (namer : Namer) (reads : Reads) (old new : NodeId) (token : String) :
    Except HostError (String × Namer) := do
  let oldName ← reads.nodeName old
  let oldType ← reads.nodeType old
  let taken := match namer.policy with
    | .unique => takenNames reads new
    | .verbatim => []
  return namer.claim (deriveName oldName oldType token) oldName taken

/-- Names a replacement after the node that it replaces, and tells the name that the scene gave
it.  The issued name is on record even if the scene refuses it. -/
def label {σ : Type} (host : Host σ) (old new : NodeId) (token : String) (namer : Namer) (state : σ) :
    Except HostError String × Namer × σ :=
  match namer.propose (host.reads state) old new token with
  | .error cause => (.error cause, namer, state)
  | .ok (name, namer) =>
    let (given, state) := host.rename new name state
    (given, namer, state)

end Namer

end ShaderMigration

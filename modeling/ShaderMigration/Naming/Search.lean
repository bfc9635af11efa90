import ShaderMigration.Naming

namespace ShaderMigration.Namer

/-- What becomes of a number that grows out of its word. -/
inductive Overflow where
  /-- It goes on from the least number. -/
  | wraps
  /-- The search is given up. -/
  | stops
deriving DecidableEq

def Overflow.next? (overflow : Overflow) (number : Int32) : Option Int32 :=
  if overflow = .stops ∧ number = Int32.maxValue then none else some (number + 1)

/-- The name at hand, and the number for the one after it, which is a word of 32 bits. -/
structure Search where
  name : String
  number : Int32

namespace Search

def start (candidate : String) : Search := ⟨candidate, 1⟩

def next? (overflow : Overflow) (candidate : String) (search : Search) : Option Search :=
  (overflow.next? search.number).map fun number =>
    ⟨candidate ++ "_" ++ toString search.number, number⟩

/-- The search ends, after a number of retries, at the first name that is not refused. -/
inductive Ends (overflow : Overflow) (refuses : String → Bool) (candidate : String) :
    Search → Nat → String → Prop
  | free {search : Search} (hfree : refuses search.name = false) :
    Ends overflow refuses candidate search 0 search.name
  | retry {search next : Search} {retries : Nat} {name : String}
    (hrefused : refuses search.name = true) (hnext : search.next? overflow candidate = some next)
    (hrest : Ends overflow refuses candidate next retries name) :
    Ends overflow refuses candidate search (retries + 1) name

end Search

/-- A name is refused that is the old one, is on record or is taken. -/
def refuses (namer : Namer) (oldName : String) (taken : List String) (name : String) : Bool :=
  name == oldName || namer.issued.contains name || taken.contains name

/-- A name is issued, after a number of retries, at the end of the search, and goes on record; under the
verbatim policy it is the candidate. -/
def ClaimsBySearch (overflow : Overflow) (namer : Namer) (candidate oldName : String)
    (taken : List String) (retries : Nat) (name : String) (after : Namer) : Prop :=
  match namer.policy with
  | .verbatim => retries = 0 ∧ name = candidate ∧ after = namer
  | .unique =>
    Search.Ends overflow (namer.refuses oldName taken) candidate (.start candidate) retries name ∧
      after = { namer with issued := name :: namer.issued }

end ShaderMigration.Namer

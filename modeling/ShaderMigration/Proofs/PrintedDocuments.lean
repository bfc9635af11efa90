import ShaderMigration.Json.Written
import ShaderMigration.Proofs.JsonTokens

namespace ShaderMigration

namespace Data

mutual

/-- The document that its text shows: a float that is not finite becomes null. -/
def printed : Data → Data
  | .float x => if Binary64.isFinite x then .float x else .null
  | .list items => .list (printedItems items)
  | .record members => .record (printedMembers members)
  | other => other

def printedItems : List Data → List Data
  | [] => []
  | item :: rest => item.printed :: printedItems rest

def printedMembers : List (String × Data) → List (String × Data)
  | [] => []
  | member :: rest => printedMember member :: printedMembers rest

def printedMember : String × Data → String × Data
  | (key, value) => (key, value.printed)

end

theorem printedItems_eq_map (items : List Data) : printedItems items = items.map printed := by
  induction items with
  | nil => rfl
  | cons item rest ih => rw [printedItems, ih, List.map_cons]

theorem printedMembers_eq_map (members : List (String × Data)) :
    printedMembers members = members.map fun member => (member.1, member.2.printed) := by
  induction members with
  | nil => rfl
  | cons member rest ih => rw [printedMembers, ih, List.map_cons, printedMember]

mutual

theorem depth_printed : ∀ d : Data, d.printed.depth = d.depth
  | .null | .bool _ | .int _ | .text _ => rfl
  | .float x => by
    rw [printed]
    split <;> rfl
  | .list items => by rw [printed, depth, depth, depthOfItems_printedItems items]
  | .record members => by rw [printed, depth, depth, depthOfMembers_printedMembers members]

theorem depthOfItems_printedItems : ∀ items : List Data,
    depthOfItems (printedItems items) = depthOfItems items
  | [] => rfl
  | item :: rest => by
    rw [printedItems, depthOfItems, depthOfItems, depth_printed item, depthOfItems_printedItems rest]

theorem depthOfMembers_printedMembers : ∀ members : List (String × Data),
    depthOfMembers (printedMembers members) = depthOfMembers members
  | [] => rfl
  | (_, value) :: rest => by
    rw [printedMembers, printedMember, depthOfMembers, depthOfMembers, depthOfMember, depthOfMember,
      depth_printed value, depthOfMembers_printedMembers rest]

end

end Data

namespace Json

def isLegible (P : Float → Prop) [DecidablePred P] : Data → Bool
  | .float x => decide (P x)
  | leaf => !leaf.isWide

/-- Every float in the document has the property, and no integer needs more than 64 bits. -/
def Legible (P : Float → Prop) [DecidablePred P] (d : Data) : Prop :=
  d.anyLeaf (fun leaf => !isLegible P leaf) = false

section Legible

variable {P : Float → Prop} [DecidablePred P]

theorem legible_list_cons {item : Data} {rest : List Data} :
    Legible P (.list (item :: rest)) ↔ Legible P item ∧ Legible P (.list rest) := by
  simp [Legible, Data.anyLeaf, Data.anyLeafOfItems]

theorem legible_list_iff {items : List Data} :
    Legible P (.list items) ↔ ∀ item ∈ items, Legible P item := by
  induction items with
  | nil => simp [Legible, Data.anyLeaf, Data.anyLeafOfItems]
  | cons item rest ih => rw [legible_list_cons, ih, List.forall_mem_cons]

theorem legible_record_cons {key : String} {value : Data} {rest : List (String × Data)} :
    Legible P (.record ((key, value) :: rest)) ↔ Legible P value ∧ Legible P (.record rest) := by
  simp [Legible, Data.anyLeaf, Data.anyLeafOfMembers, Data.anyLeafOfMember]

theorem legible_record_iff {members : List (String × Data)} :
    Legible P (.record members) ↔ ∀ member ∈ members, Legible P member.2 := by
  induction members with
  | nil => simp [Legible, Data.anyLeaf, Data.anyLeafOfMembers]
  | cons member rest ih => rw [legible_record_cons, ih, List.forall_mem_cons]

theorem legible_text (s : String) : Legible P (.text s) := rfl

theorem legible_float_iff {x : Float} : Legible P (.float x) ↔ P x := by
  simp [Legible, Data.anyLeaf, isLegible]

theorem legible_int_iff {n : Int} :
    Legible P (.int n) ↔ Int64.minValue.toInt ≤ n ∧ n < (Nat.pow 2 64 : Nat) := by
  simp only [Legible, Data.anyLeaf, isLegible, Data.isWide, Bool.not_not, decide_eq_false_iff_not,
    not_or, Int.not_lt, Int.not_le]

mutual

/-- A document of finite floats is shown as it is. -/
theorem printed_of_legible (hP : ∀ x, P x → Binary64.isFinite x = true) :
    ∀ d : Data, Legible P d → d.printed = d
  | .null, _ | .bool _, _ | .int _, _ | .text _, _ => rfl
  | .float x, h => by rw [Data.printed, if_pos (hP x (legible_float_iff.mp h))]
  | .list items, h => by rw [Data.printed, printedItems_of_legible hP items h]
  | .record members, h => by rw [Data.printed, printedMembers_of_legible hP members h]

theorem printedItems_of_legible (hP : ∀ x, P x → Binary64.isFinite x = true) :
    ∀ items : List Data, Legible P (.list items) → Data.printedItems items = items
  | [], _ => rfl
  | item :: rest, h => by
    obtain ⟨hitem, hrest⟩ := legible_list_cons.mp h
    rw [Data.printedItems, printed_of_legible hP item hitem, printedItems_of_legible hP rest hrest]

theorem printedMembers_of_legible (hP : ∀ x, P x → Binary64.isFinite x = true) :
    ∀ members : List (String × Data), Legible P (.record members) →
      Data.printedMembers members = members
  | [], _ => rfl
  | (key, value) :: rest, h => by
    obtain ⟨hvalue, hrest⟩ := legible_record_cons.mp h
    rw [Data.printedMembers, Data.printedMember, printed_of_legible hP value hvalue,
      printedMembers_of_legible hP rest hrest]

end

end Legible

abbrev FiniteReadsBack (x : Float) : Prop := Binary64.isFinite x = true → ReadsBack x

end Json

end ShaderMigration

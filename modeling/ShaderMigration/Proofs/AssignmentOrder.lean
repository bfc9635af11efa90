import ShaderMigration.Proofs.ReadDescriptions

namespace ShaderMigration

namespace Build

def Request.key (primary : String) : Request → String
  | unlisted id => id
  | write key _ _ _ => key
  | link key _ _ _ => key
  | refer _ => primary

def Request.child? : Request → Option Nat
  | link _ _ _ place => some place
  | _ => none

/-- The requests to a node: first what is assigned to it, in the order in which it was read from the
document, the nested nodes made one after the other; then what feeds it.  Only a description that was
kept as a plain value, and is not in key order, loses the order in which it is written. -/
def AssignsFrom (primary : String) (kept : Bool) (doc : Data) (asked : List Request) : Prop :=
  ∃ assigned fed, asked = assigned ++ fed ∧ fed.length ≤ 1 ∧
    assigned.map (Request.key primary) =
      NodeSpec.assignmentOrder kept (NodeSpec.writtenKeys "attrs" doc) ++
        NodeSpec.assignmentOrder kept (NodeSpec.writtenKeys "input_list" doc) ∧
    (assigned.filterMap Request.child?).Pairwise (· < ·) ∧
    (assigned.map (Request.key primary) =
        NodeSpec.writtenKeys "attrs" doc ++ NodeSpec.writtenKeys "input_list" doc ↔
      kept = false ∨ (NodeSpec.writtenKeys "attrs" doc).Pairwise (· ≤ ·) ∧
        (NodeSpec.writtenKeys "input_list" doc).Pairwise (· ≤ ·))

end Build

namespace NodeSpec

open Build

variable {schemas : Table String Schema} {primary : String}

theorem map_key_requestsOf (attrOf : String → Option String) (entries : List (String × SpecValue))
    (made : Nat) : (requestsOf schemas attrOf made entries).map (Request.key primary) =
      Entries.keys entries := by
  induction entries generalizing made with
  | nil => rfl
  | cons entry rest ih =>
    obtain ⟨key, value⟩ := entry
    rw [requestsOf, List.map_cons, ih, Entries.keys_cons]
    congr 1
    unfold requestOf
    split <;> rfl

theorem map_key_assignments (spec : NodeSpec) (place : Nat) :
    (spec.assignments schemas place).map (Request.key primary) =
      Entries.keys spec.attrs ++ Entries.keys spec.inputs := by
  rw [assignments, List.map_append, map_key_requestsOf, map_key_requestsOf]

theorem length_described_pos (spec : NodeSpec) : 0 < (spec.described schemas).length := by
  obtain ⟨type, attrs, inputs, tag, feed⟩ := spec
  exact Nat.succ_pos _

theorem children_requestsOf (schemas : Table String Schema) (attrOf : String → Option String)
    (entries : List (String × SpecValue)) (made : Nat) :
    ((requestsOf schemas attrOf made entries).filterMap Request.child?).Pairwise (· < ·) ∧
      ∀ place ∈ (requestsOf schemas attrOf made entries).filterMap Request.child?, made ≤ place ∧
        place < made + (describedEntries schemas (fun key => (attrOf key).isSome) entries).length := by
  induction entries generalizing made with
  | nil => simp [requestsOf]
  | cons entry rest ih =>
    obtain ⟨key, value⟩ := entry
    obtain ⟨hpairwise, hrange⟩ := ih
      (made + (describedEntry schemas (fun key => (attrOf key).isSome) (key, value)).length)
    have hnested : Request.child? (requestOf (attrOf key) made key value) = none ∨
        Request.child? (requestOf (attrOf key) made key value) = some made ∧
          0 < (describedEntry schemas (fun key => (attrOf key).isSome) (key, value)).length := by
      cases hattr : attrOf key with
      | none => exact Or.inl rfl
      | some attr =>
        cases value with
        | literal => exact Or.inl rfl
        | spec child =>
          refine Or.inr ⟨rfl, ?_⟩
          rw [describedEntry, hattr]
          exact child.length_described_pos
    rw [requestsOf, describedEntries, List.length_append]
    rcases hnested with hnone | ⟨hsome, hpos⟩
    · rw [List.filterMap_cons_none hnone]
      refine ⟨hpairwise, fun place hplace => ?_⟩
      obtain ⟨hle, hlt⟩ := hrange place hplace
      exact ⟨by omega, by omega⟩
    · rw [List.filterMap_cons_some hsome]
      refine ⟨List.pairwise_cons.mpr ⟨fun place hplace => ?_, hpairwise⟩, fun place hplace => ?_⟩
      · have hle := (hrange place hplace).1
        omega
      · rcases List.mem_cons.mp hplace with rfl | hplace
        · exact ⟨Nat.le_refl _, by omega⟩
        · obtain ⟨hle, hlt⟩ := hrange place hplace
          exact ⟨by omega, by omega⟩

theorem children_assignments (spec : NodeSpec) (place : Nat) :
    ((spec.assignments schemas place).filterMap Request.child?).Pairwise (· < ·) := by
  obtain ⟨hattrs, hbefore⟩ := children_requestsOf schemas some spec.attrs (place + 1)
  obtain ⟨hinputs, hafter⟩ := children_requestsOf schemas
    (attrOfInput? schemas spec.type) spec.inputs (spec.madeForInputs schemas place)
  rw [assignments, List.filterMap_append, List.pairwise_append]
  refine ⟨hattrs, hinputs, fun first hfirst other hother => ?_⟩
  exact Nat.lt_of_lt_of_le (hbefore first hfirst).2 (hafter other hother).1

end NodeSpec

/-- A tree that was read from a document is built by moves in which every node is asked for the keys that
the document has where its description stands. -/
structure NodeTree.AssignsAsRead (tree : NodeTree) (d : Data) (options : BuildOptions)
    (live : LiveScene) : Prop where
  moves : Build.buildAll LiveScene.host options tree.roots { state := live } = (do
    Build.runMoves options live.idAt (Build.treeScript options tree.roots live)
    Build.resolveWaiting LiveScene.host options (← get).waiting) { state := live }
  stands : ∀ (place : Nat) spec, (tree.described live.scene.schemas)[place]? = some spec →
    ∃ kept doc, NodeSpec.Stands (tree.placed d) kept doc spec
  assigns : ∀ (place : Nat) spec kept doc,
    (tree.described live.scene.schemas)[place]? = some spec →
    NodeSpec.Stands (tree.placed d) kept doc spec →
      Build.AssignsFrom options.primaryInput kept doc
        (Build.asksAt place (Build.treeScript options tree.roots live))

/-- Assignments are made in the order in which the text has them, if no assignment stands above them, and
in key order otherwise. -/
theorem assignsAsRead_of_load {text : String} {tree : NodeTree}
    (hload : NodeTree.load? text = some tree) {options : BuildOptions} {live : LiveScene}
    (hunused : live.NextUnused (tree.described live.scene.schemas).length) :
    ∃ d, Json.read? .whole text = some d ∧ tree.AssignsAsRead d options live := by
  obtain ⟨d, hd, htree⟩ := Option.bind_eq_some_iff.mp hload
  obtain ⟨hroots, hread⟩ := NodeTree.readFrom_of_ofData? htree
  refine ⟨d, hd, Build.bind_congr_left (Build.buildRoots_eq_runMoves hunused), ?_, ?_⟩
  · intro place spec hspec
    obtain ⟨root, hroot, hmem⟩ := List.mem_flatMap.mp (List.mem_of_getElem? hspec)
    rw [← hroots] at hroot
    obtain ⟨⟨doc, _⟩, hplaced, rfl⟩ := List.mem_map.mp hroot
    exact NodeSpec.stands_described live.scene.schemas hread (.root hplaced) spec hmem
  · intro place spec kept doc hspec hstands
    have hparts := (hstands.readFrom hread).parts
    have hkeys : (spec.assignments live.scene.schemas place).map
        (Build.Request.key options.primaryInput) =
          NodeSpec.assignmentOrder kept (NodeSpec.writtenKeys "attrs" doc) ++
            NodeSpec.assignmentOrder kept (NodeSpec.writtenKeys "input_list" doc) := by
      rw [NodeSpec.map_key_assignments, hparts.attrs, hparts.inputs]
    refine ⟨spec.assignments live.scene.schemas place, _, Build.asksAt_treeScript hspec, ?_, hkeys,
      spec.children_assignments place, ?_⟩
    · cases spec.feed with
      | nothing => exact Nat.zero_le 1
      | node => exact Nat.le_refl 1
      | tagged => exact Nat.le_refl 1
    · rw [hkeys]
      exact NodeSpec.assignmentOrder_append_eq_iff

/-- Descriptions of a node with two nested ones, at the top and below an assignment, written alike. -/
def nestingDocument : Data :=
  let saver : Data := .record
    [("type", .text "saver"),
      ("attrs", .record
        [("Over", .record [("type", .text "curves")]),
          ("Mask", .record [("type", .text "ellipse")])])]
  .list [saver, .record [("type", .text "group"), ("attrs", .record [("First", saver)])]]

def nestingTree : NodeTree := (NodeTree.ofData? nestingDocument).getD (.many [])

theorem load?_nestingDocument :
    NodeTree.load? (Json.compact nestingDocument) = some nestingTree := by
  have htext : Json.read? .whole (Json.compact nestingDocument) = some nestingDocument :=
    Json.read?_compact rfl (by decide +kernel) (Json.Outline.keeps_whole _)
  have hread : (NodeTree.ofData? nestingDocument).isSome = true := by decide +kernel
  obtain ⟨tree, htree⟩ := Option.isSome_iff_exists.mp hread
  rw [NodeTree.load?, htext, Option.bind_some, nestingTree, htree, Option.getD_some]

def nestingStage : LiveScene where
  scene :=
    { schemas := .ofPairs
        [("saver", ⟨"saver", .ofPairs [("Mask", .float 0.0), ("Over", .float 0.0)], {}⟩),
          ("curves", ⟨"curves", {}, {}⟩), ("ellipse", ⟨"ellipse", {}, {}⟩),
          ("group", ⟨"group", .ofPairs [("First", .float 0.0)], {}⟩)]
      nodes := {}
      roots := [] }
  supply := ⟨fun n => .ofNat (n + 1), 0⟩

theorem nestingTree_assignsAsRead : ∃ d,
    Json.read? .whole (Json.compact nestingDocument) = some d ∧
      nestingTree.AssignsAsRead d {} nestingStage :=
  assignsAsRead_of_load load?_nestingDocument (by decide +kernel)

/-- At the top the nested nodes are made as they are written, below an assignment the other way
round. -/
theorem nestingTree_reorders :
    NodeTree.load? (Json.compact nestingDocument) = some nestingTree ∧
      (nestingTree.build LiveScene.host {} nestingStage).1.toOption.map (fun output =>
        (output.isClean, output.created.map fun node =>
          (nestingTree.build LiveScene.host {} nestingStage).2.scene.nodes.find? node |>.map
            SceneNode.type)) =
        some (true, [some "saver", some "curves", some "ellipse",
          some "group", some "saver", some "ellipse", some "curves"]) :=
  ⟨load?_nestingDocument, by decide +kernel⟩

end ShaderMigration

import ShaderMigration.Proofs.JsonRoundTrip
import ShaderMigration.Proofs.ScriptRun
import ShaderMigration.Proofs.WalkReach
import ShaderMigration.Proofs.WrittenParts

namespace ShaderMigration

open Data (Fields arranged)

namespace NodeSpec

/-- The keys that a document gives for assignments of one kind, in the order in which they are written. -/
def writtenKeys (name : String) (d : Data) : List String :=
  ((layout.part? name d).map Data.keys).getD []

/-- The order in which written keys are assigned, given whether the description was kept as a plain
value before it was read. -/
def assignmentOrder (kept : Bool) (written : List String) : List String :=
  if kept then written.insertionSort (· ≤ ·) else written

/-- The written order is kept unless it is lost and matters. -/
theorem assignmentOrder_eq_self_iff {kept : Bool} {written : List String} :
    assignmentOrder kept written = written ↔ kept = false ∨ written.Pairwise (· ≤ ·) := by
  cases kept with
  | false => simp [assignmentOrder]
  | true =>
    have hsorted := List.pairwise_insertionSort (· ≤ ·) written
    constructor
    · intro h
      rw [assignmentOrder, if_pos rfl] at h
      exact Or.inr (h ▸ hsorted)
    · intro h
      exact List.Pairwise.insertionSort_eq (h.resolve_left nofun)

theorem length_assignmentOrder (kept : Bool) (written : List String) :
    (assignmentOrder kept written).length = written.length := by
  cases kept with
  | true => exact List.length_insertionSort (· ≤ ·) written
  | false => rfl

/-- Two lists of keys keep the written order together when each does. -/
theorem assignmentOrder_append_eq_iff {kept : Bool} {first other : List String} :
    assignmentOrder kept first ++ assignmentOrder kept other = first ++ other ↔
      kept = false ∨ first.Pairwise (· ≤ ·) ∧ other.Pairwise (· ≤ ·) := by
  have hsplit : assignmentOrder kept first ++ assignmentOrder kept other = first ++ other ↔
      assignmentOrder kept first = first ∧ assignmentOrder kept other = other :=
    ⟨fun h => List.append_inj h (length_assignmentOrder kept first), fun h => by rw [h.1, h.2]⟩
  rw [hsplit, assignmentOrder_eq_self_iff, assignmentOrder_eq_self_iff, or_and_left]

theorem keys_arranged (kept : Bool) (d : Data) :
    (d.arranged kept).keys = assignmentOrder kept d.keys := by
  cases kept with
  | true => exact Data.keys_sorted d
  | false => rfl

/-- A description at some depth of a tree, the part of the document that it was read from, and whether
that part was kept as a plain value before. -/
inductive Stands (roots : List (Data × NodeSpec)) : Bool → Data → NodeSpec → Prop where
  | root {d : Data} {spec : NodeSpec} (h : (d, spec) ∈ roots) : Stands roots false d spec
  | attr {kept : Bool} {parent m d : Data} {spec child : NodeSpec} {key : String}
      (h : Stands roots kept parent spec) (hentry : (key, .spec child) ∈ spec.attrs)
      (hpart : layout.part? "attrs" parent = some m) (hvalue : m.last? key = some d) :
      Stands roots true d child
  | input {kept : Bool} {parent m d : Data} {spec child : NodeSpec} {key : String}
      (h : Stands roots kept parent spec) (hentry : (key, .spec child) ∈ spec.inputs)
      (hpart : layout.part? "input_list" parent = some m) (hvalue : m.last? key = some d) :
      Stands roots true d child
  | feed {kept : Bool} {parent m d : Data} {spec child : NodeSpec}
      (h : Stands roots kept parent spec) (hfeed : spec.feed = .node child)
      (hpart : layout.part? "connected_to" parent = some m) (hvalue : m.last? "Input" = some d) :
      Stands roots kept d child

/-- The description is what was read from the document. -/
def ReadFrom (kept : Bool) (d : Data) (spec : NodeSpec) : Prop :=
  ∃ depth, readWithin? depth (d.arranged kept) = some spec

section Reading

variable {kept : Bool} {d m : Data} {readSpec? : Data → Option NodeSpec} {fields : Fields}
  {name key : String} {child spec : NodeSpec}

theorem sorted_arranged (kept : Bool) (d : Data) : (d.arranged kept).sorted = d.sorted := by
  cases kept with
  | true => exact Data.sorted_sorted d
  | false => rfl

/-- Each member gives the pair of its key and what is read from it. -/
def Paired {α : Type} (read : Data → Option α) : List (String × Data) → List (String × α) → Prop :=
  List.Forall₂ fun member pair => (read member.2).map (fun a => (member.1, a)) = some pair

theorem Paired.keys_eq {α : Type} {read : Data → Option α} {members : List (String × Data)}
    {pairs : List (String × α)} (h : Paired read members pairs) :
    Entries.keys pairs = Entries.keys members := by
  induction h with
  | nil => rfl
  | cons hfirst _ ih =>
    obtain ⟨a, _, rfl⟩ := Option.map_eq_some_iff.mp hfirst
    rw [Entries.keys_cons, Entries.keys_cons, ih]

theorem Paired.exists_of_find? {α : Type} {read : Data → Option α}
    {members : List (String × Data)} {pairs : List (String × α)} {key : String} {a : α}
    (h : Paired read members pairs) (hfind : Entries.find? key pairs = some a) :
    ∃ value, Entries.find? key members = some value ∧ read value = some a := by
  induction h with
  | nil => cases hfind
  | @cons member pair _ _ hfirst _ ih =>
    obtain ⟨b, hread, rfl⟩ := Option.map_eq_some_iff.mp hfirst
    rw [Entries.find?] at hfind ⊢
    split at hfind
    next hkey =>
      rw [if_pos hkey]
      exact ⟨member.2, rfl, hread.trans hfind⟩
    next hkey =>
      rw [if_neg hkey]
      exact ih hfind

/-- A map that is read has the written keys, and under each of them its last value. -/
theorem entriesOf?_cases {α : Type} {read : Data → Option α} {entries : List (String × α)}
    (h : Data.entriesOf? read d = some entries) : Entries.keys entries = d.keys ∧
      ∀ key a, (key, a) ∈ entries → ∃ value, d.last? key = some value ∧ read value = some a := by
  obtain ⟨members, hmembers, h⟩ := Option.bind_eq_some_iff.mp h
  obtain ⟨pairs, hpairs, rfl⟩ := Option.map_eq_some_iff.mp h
  obtain rfl : d = .record members := by
    cases d with
    | record => exact congrArg _ (Option.some.inj hmembers)
    | _ => cases hmembers
  have hread : Paired read members pairs := forall₂_of_mapM hpairs
  refine ⟨?_, fun key a hmem => ?_⟩
  · rw [Entries.keys_ofPairs, hread.keys_eq, Data.keys]
  · have hfind := (Entries.mem_iff_find? (Entries.nodup_keys_ofPairs pairs)).mp hmem
    rw [Entries.find?_ofPairs] at hfind
    exact Paired.exists_of_find? (List.forall₂_reverse_iff.mpr hread) hfind

theorem readValue?_eq_spec (h : readValue? readSpec? d = some (.spec child)) :
    readSpec? d.sorted = some child := by
  unfold readValue? at h
  dsimp only at h
  split at h
  next =>
    obtain ⟨spec, hspec, heq⟩ := Option.map_eq_some_iff.mp h
    cases heq
    exact hspec
  next =>
    obtain ⟨value, _, heq⟩ := Option.map_eq_some_iff.mp h
    cases heq

/-- Assignments come in the order of the document, and nested descriptions from its last values. -/
theorem defaulted_entries_cases {entries : List (String × SpecValue)}
    (hfield : Entries.find? name fields = (layout.part? name d).map (arranged kept))
    (h : fields.defaulted name (Data.entriesOf? (readValue? readSpec?)) [] = some entries) :
    Entries.keys entries = assignmentOrder kept (writtenKeys name d) ∧
      ∀ key child, (key, .spec child) ∈ entries → ∃ m value, layout.part? name d = some m ∧
        m.last? key = some value ∧ readSpec? (value.arranged true) = some child := by
  unfold Fields.defaulted at h
  unfold writtenKeys
  cases hpart : layout.part? name d with
  | none =>
    rw [hfield, hpart] at h
    obtain rfl := Option.some.inj h
    exact ⟨by cases kept <;> rfl, fun _ _ hmem => nomatch hmem⟩
  | some m =>
    rw [hfield, hpart] at h
    obtain ⟨hkeys, hvalues⟩ := entriesOf?_cases h
    refine ⟨hkeys.trans (keys_arranged kept m), fun key child hmem => ?_⟩
    obtain ⟨value, hvalue, hread⟩ := hvalues key _ hmem
    rw [Data.last?_arranged] at hvalue
    obtain ⟨written, hwritten, rfl⟩ := Option.map_eq_some_iff.mp hvalue
    refine ⟨m, written, rfl, hwritten, ?_⟩
    have hchild := readValue?_eq_spec hread
    rwa [sorted_arranged] at hchild

theorem defaulted_feed_cases
    (hfield : Entries.find? name fields = (layout.part? name d).map (arranged kept))
    (h : fields.defaulted name (readFeed? readSpec?) .nothing = some (.node child)) :
    ∃ m value, layout.part? name d = some m ∧ m.last? "Input" = some value ∧
      readSpec? (value.arranged kept) = some child := by
  unfold Fields.defaulted at h
  cases hpart : layout.part? name d with
  | none =>
    rw [hfield, hpart] at h
    cases Option.some.inj h
  | some m =>
    rw [hfield, hpart] at h
    have hread : readFeed? readSpec? (m.arranged kept) = some (.node child) := h
    obtain ⟨value, hrecord, hchild⟩ : ∃ value, m.arranged kept = .record [("Input", value)] ∧
        readSpec? value = some child := by
      unfold readFeed? at hread
      split at hread
      next => cases hread
      next key value hrecord =>
        split at hread
        next hkey =>
          obtain ⟨spec, hspec, heq⟩ := Option.map_eq_some_iff.mp hread
          cases heq
          exact ⟨value, hkey ▸ hrecord, hspec⟩
        next =>
          split at hread
          next =>
            obtain ⟨tag, _, heq⟩ := Option.map_eq_some_iff.mp hread
            cases heq
          next => cases hread
      next => cases hread
    have hlast := Data.last?_arranged kept "Input" m
    rw [hrecord] at hlast
    obtain ⟨written, hwritten, rfl⟩ := Option.map_eq_some_iff.mp hlast.symm
    exact ⟨m, written, rfl, hwritten, hchild⟩

/-- What reading a description says of its parts. -/
structure Parts (kept : Bool) (d : Data) (spec : NodeSpec) : Prop where
  attrs : Entries.keys spec.attrs = assignmentOrder kept (writtenKeys "attrs" d)
  inputs : Entries.keys spec.inputs = assignmentOrder kept (writtenKeys "input_list" d)
  attr : ∀ key child, (key, .spec child) ∈ spec.attrs → ∃ m value,
    layout.part? "attrs" d = some m ∧ m.last? key = some value ∧ ReadFrom true value child
  input : ∀ key child, (key, .spec child) ∈ spec.inputs → ∃ m value,
    layout.part? "input_list" d = some m ∧ m.last? key = some value ∧ ReadFrom true value child
  feed : ∀ child, spec.feed = .node child → ∃ m value,
    layout.part? "connected_to" d = some m ∧ m.last? "Input" = some value ∧ ReadFrom kept value child

theorem ReadFrom.parts (h : ReadFrom kept d spec) : Parts kept d spec := by
  obtain ⟨depth, h⟩ := h
  cases depth with
  | zero => cases h
  | succ depth =>
    obtain ⟨fields, hfields, h⟩ := Option.bind_eq_some_iff.mp h
    obtain ⟨type, _, h⟩ := Option.bind_eq_some_iff.mp h
    obtain ⟨attrs, hattrs, h⟩ := Option.bind_eq_some_iff.mp h
    obtain ⟨inputs, hinputs, h⟩ := Option.bind_eq_some_iff.mp h
    obtain ⟨tag, _, h⟩ := Option.bind_eq_some_iff.mp h
    obtain ⟨feed, hfeed, h⟩ := Option.bind_eq_some_iff.mp h
    obtain rfl := Option.some.inj h
    have hpart := Data.Layout.find?_fields kept hfields
    obtain ⟨hattrKeys, hattr⟩ := defaulted_entries_cases (hpart _) hattrs
    obtain ⟨hinputKeys, hinput⟩ := defaulted_entries_cases (hpart _) hinputs
    refine ⟨hattrKeys, hinputKeys, fun key child hmem => ?_, fun key child hmem => ?_,
      fun child heq => ?_⟩
    · obtain ⟨m, value, hm, hvalue, hread⟩ := hattr key child hmem
      exact ⟨m, value, hm, hvalue, depth, hread⟩
    · obtain ⟨m, value, hm, hvalue, hread⟩ := hinput key child hmem
      exact ⟨m, value, hm, hvalue, depth, hread⟩
    · obtain rfl : feed = .node child := heq
      obtain ⟨m, value, hm, hvalue, hread⟩ := defaulted_feed_cases (hpart _) hfeed
      exact ⟨m, value, hm, hvalue, depth, hread⟩

end Reading

section Standing

variable {roots : List (Data × NodeSpec)} {kept : Bool} {d : Data} {spec : NodeSpec}

/-- At every depth a description was read from where it stands. -/
theorem Stands.readFrom (hroots : ∀ entry ∈ roots, ReadFrom false entry.1 entry.2)
    (h : Stands roots kept d spec) : ReadFrom kept d spec := by
  induction h with
  | root h => exact hroots _ h
  | attr _ hentry hpart hvalue ih =>
    obtain ⟨m, value, hm, hlast, hread⟩ := ih.parts.attr _ _ hentry
    obtain rfl := Option.some.inj (hm.symm.trans hpart)
    exact Option.some.inj (hlast.symm.trans hvalue) ▸ hread
  | input _ hentry hpart hvalue ih =>
    obtain ⟨m, value, hm, hlast, hread⟩ := ih.parts.input _ _ hentry
    obtain rfl := Option.some.inj (hm.symm.trans hpart)
    exact Option.some.inj (hlast.symm.trans hvalue) ▸ hread
  | feed _ hfeed hpart hvalue ih =>
    obtain ⟨m, value, hm, hlast, hread⟩ := ih.parts.feed _ hfeed
    obtain rfl := Option.some.inj (hm.symm.trans hpart)
    exact Option.some.inj (hlast.symm.trans hvalue) ▸ hread

variable (schemas : Table String Schema)

mutual

/-- Every description that a build makes a node for stands somewhere in the document. -/
theorem stands_described (hroots : ∀ entry ∈ roots, ReadFrom false entry.1 entry.2) :
    ∀ {spec : NodeSpec} {kept : Bool} {d : Data}, Stands roots kept d spec →
      ∀ other ∈ spec.described schemas, ∃ kept d, Stands roots kept d other
  | ⟨type, attrs, inputs, tag, feed⟩, kept, d, h => by
    have hparts := (h.readFrom hroots).parts
    intro other hother
    rw [described, List.mem_cons, List.mem_append, List.mem_append] at hother
    rcases hother with rfl | hattr | hinput | hfeed
    · exact ⟨kept, d, h⟩
    · refine stands_describedEntries hroots (fun key child hmem => ?_) other hattr
      obtain ⟨m, value, hm, hvalue, _⟩ := hparts.attr key child hmem
      exact ⟨true, value, .attr h hmem hm hvalue⟩
    · refine stands_describedEntries hroots (fun key child hmem => ?_) other hinput
      obtain ⟨m, value, hm, hvalue, _⟩ := hparts.input key child hmem
      exact ⟨true, value, .input h hmem hm hvalue⟩
    · refine stands_describedFeed hroots (fun child heq => ?_) other hfeed
      obtain ⟨m, value, hm, hvalue, _⟩ := hparts.feed child heq
      exact ⟨kept, value, .feed h heq hm hvalue⟩

theorem stands_describedEntries (hroots : ∀ entry ∈ roots, ReadFrom false entry.1 entry.2) :
    ∀ {entries : List (String × SpecValue)} {known : String → Bool},
      (∀ key child, (key, .spec child) ∈ entries → ∃ kept d, Stands roots kept d child) →
        ∀ other ∈ describedEntries schemas known entries, ∃ kept d, Stands roots kept d other
  | [], _, _, _, hother => nomatch hother
  | entry :: rest, known, h, other, hother => by
    rw [describedEntries, List.mem_append] at hother
    rcases hother with hfirst | hrest
    · exact stands_describedEntry hroots
        (fun child heq => h entry.1 child (heq ▸ List.mem_cons_self)) other hfirst
    · exact stands_describedEntries hroots
        (fun key child hmem => h key child (List.mem_cons_of_mem _ hmem)) other hrest

theorem stands_describedEntry (hroots : ∀ entry ∈ roots, ReadFrom false entry.1 entry.2) :
    ∀ {entry : String × SpecValue} {known : String → Bool},
      (∀ child, entry.2 = .spec child → ∃ kept d, Stands roots kept d child) →
        ∀ other ∈ describedEntry schemas known entry, ∃ kept d, Stands roots kept d other
  | (key, value), known, h, other, hother => by
    rw [describedEntry] at hother
    split at hother
    next => exact stands_describedValue hroots h other hother
    next => cases hother

theorem stands_describedValue (hroots : ∀ entry ∈ roots, ReadFrom false entry.1 entry.2) :
    ∀ {value : SpecValue}, (∀ child, value = .spec child → ∃ kept d, Stands roots kept d child) →
      ∀ other ∈ describedValue schemas value, ∃ kept d, Stands roots kept d other
  | .literal _, _, _, hother => nomatch hother
  | .spec child, h, other, hother => by
    obtain ⟨kept, d, hchild⟩ := h child rfl
    exact stands_described hroots hchild other hother

theorem stands_describedFeed (hroots : ∀ entry ∈ roots, ReadFrom false entry.1 entry.2) :
    ∀ {feed : Feed}, (∀ child, feed = .node child → ∃ kept d, Stands roots kept d child) →
      ∀ other ∈ describedFeed schemas feed, ∃ kept d, Stands roots kept d other
  | .nothing, _, _, hother => nomatch hother
  | .tagged _, _, _, hother => nomatch hother
  | .node child, h, other, hother => by
    obtain ⟨kept, d, hchild⟩ := h child rfl
    exact stands_described hroots hchild other hother

end

end Standing

end NodeSpec

namespace NodeTree

/-- The parts of a document that the descriptions at the top are read from. -/
def documents : NodeTree → Data → List Data
  | many _, d => d.items?.getD []
  | one _, d => [d]

/-- The documents of the descriptions at the top, each with its description. -/
def placed (tree : NodeTree) (d : Data) : List (Data × NodeSpec) := (tree.documents d).zip tree.roots

theorem readFrom_of_ofData? {d : Data} {tree : NodeTree} (h : ofData? d = some tree) :
    (tree.placed d).map Prod.snd = tree.roots ∧
      ∀ entry ∈ tree.placed d, NodeSpec.ReadFrom false entry.1 entry.2 := by
  unfold ofData? at h
  split at h
  next specs hspecs =>
    obtain rfl := Option.some.inj h
    obtain ⟨items, hitems, hspecs⟩ := Option.bind_eq_some_iff.mp hspecs
    have hread := forall₂_of_mapM hspecs
    have hdocuments : (many specs).documents d = items := by rw [documents, hitems, Option.getD_some]
    unfold placed
    rw [hdocuments]
    refine ⟨List.map_snd_zip hread.length_eq.ge, fun entry hentry => ?_⟩
    exact ⟨_, (List.forall₂_iff_zip.mp hread).2 hentry⟩
  next =>
    obtain ⟨spec, hspec, rfl⟩ := Option.map_eq_some_iff.mp h
    refine ⟨rfl, fun entry hentry => ?_⟩
    obtain rfl : entry = (d, spec) := List.mem_singleton.mp hentry
    exact ⟨_, hspec⟩

end NodeTree

end ShaderMigration

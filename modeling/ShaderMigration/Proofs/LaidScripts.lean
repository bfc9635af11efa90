import ShaderMigration.Proofs.BuildScript

namespace ShaderMigration

namespace Build

section Static

variable {primary : String} {schemas : Table String Schema}

/-- The node that a move is about; listing a root changes none. -/
def Move.place? : Move → Option Nat
  | .create place _ => some place
  | .ask place _ => some place
  | .tag place _ => some place
  | .root _ => none

def Move.makes : Move → List NodeSpec
  | .create _ spec => [spec]
  | _ => []

def makes (moves : List Move) : List NodeSpec := moves.flatMap Move.makes

@[simp] theorem makes_cons (move : Move) (rest : List Move) :
    makes (move :: rest) = move.makes ++ makes rest := List.flatMap_cons

@[simp] theorem makes_append (moves moves' : List Move) :
    makes (moves ++ moves') = makes moves ++ makes moves' := List.flatMap_append

def movesAt (place : Nat) (moves : List Move) : List Move :=
  moves.filter fun move => move.place? == some place

@[simp] theorem movesAt_append (place : Nat) (moves moves' : List Move) :
    movesAt place (moves ++ moves') = movesAt place moves ++ movesAt place moves' :=
  List.filter_append ..

/-- A request that a node can be asked for when the nodes of the descriptions are made. -/
def Request.Fits (made : List NodeSpec) (place : Nat) : Request → Prop
  | .write _ _ _ count => count = made.length
  | .link _ _ child other => place < other ∧ made[other]? = some child
  | .unlisted _ => True
  | .refer _ => True

def Move.Fits (made : List NodeSpec) : Move → Prop
  | .create place _ => place = made.length
  | .ask place request => place < made.length ∧ request.Fits made place
  | .tag place _ => place < made.length
  | .root place => place < made.length

/-- Every move fits where it is done. -/
def Ordered : List NodeSpec → List Move → Prop
  | _, [] => True
  | made, move :: rest => move.Fits made ∧ Ordered (made ++ move.makes) rest

theorem ordered_append {made : List NodeSpec} {moves moves' : List Move} :
    Ordered made (moves ++ moves') ↔
      Ordered made moves ∧ Ordered (made ++ makes moves) moves' := by
  induction moves generalizing made with
  | nil => simp [Ordered, makes]
  | cons move rest ih =>
    rw [List.cons_append, Ordered, Ordered, ih, and_assoc]
    simp only [makes, List.flatMap_cons, List.append_assoc]

/-- The moves about the node at a place when the first of the descriptions is made at `first`. -/
def movesOf (schemas : Table String Schema) (primary : String) (specs : List NodeSpec)
    (first place : Nat) : List Move :=
  if first ≤ place then (specs[place - first]?.map (NodeSpec.moves schemas primary place)).getD []
  else []

theorem movesOf_nil (first place : Nat) : movesOf schemas primary [] first place = [] := by
  unfold movesOf
  split <;> rfl

theorem movesOf_of_lt {specs : List NodeSpec} {first place : Nat} (h : place < first) :
    movesOf schemas primary specs first place = [] := if_neg (by omega)

theorem movesOf_append (specs specs' : List NodeSpec) (first place : Nat) :
    movesOf schemas primary (specs ++ specs') first place =
      movesOf schemas primary specs first place ++
        movesOf schemas primary specs' (first + specs.length) place := by
  by_cases hfirst : first ≤ place
  · by_cases hlt : place - first < specs.length
    · have hnot : ¬ first + specs.length ≤ place := by omega
      simp only [movesOf, if_pos hfirst, if_neg hnot, List.getElem?_append_left hlt,
        List.append_nil]
    · have hle : first + specs.length ≤ place := by omega
      have hnone : specs[place - first]? = none := List.getElem?_eq_none (by omega)
      simp only [movesOf, if_pos hfirst, if_pos hle, hnone,
        List.getElem?_append_right (Nat.le_of_not_lt hlt), Nat.sub_add_eq, Option.map_none,
        Option.getD_none, List.nil_append]
  · rw [movesOf_of_lt (by omega), movesOf_of_lt (by omega), movesOf_of_lt (by omega),
      List.append_nil]

theorem movesOf_cons_self (spec : NodeSpec) (rest : List NodeSpec) (first : Nat) :
    movesOf schemas primary (spec :: rest) first first = spec.moves schemas primary first := by
  simp [movesOf]

theorem movesOf_cons_of_ne {spec : NodeSpec} {rest : List NodeSpec} {first place : Nat}
    (h : place ≠ first) : movesOf schemas primary (spec :: rest) first place =
      movesOf schemas primary rest (first + 1) place := by
  by_cases hlt : first < place
  · obtain ⟨k, rfl⟩ : ∃ k, place = first + 1 + k := ⟨place - (first + 1), by omega⟩
    have hle : first ≤ first + 1 + k := by omega
    have hle' : first + 1 ≤ first + 1 + k := by omega
    have hindex : first + 1 + k - first = k + 1 := by omega
    have hindex' : first + 1 + k - (first + 1) = k := by omega
    simp only [movesOf, if_pos hle, if_pos hle', hindex, hindex', List.getElem?_cons_succ]
  · rw [movesOf_of_lt (by omega), movesOf_of_lt (by omega)]

/-- The moves that make the nodes of the descriptions after those in `made`, with the moves `own` of
the older node at a place between them. -/
structure Laid (schemas : Table String Schema) (primary : String) (made : List NodeSpec)
    (place : Nat) (own : List Move) (specs : List NodeSpec) (moves : List Move) : Prop where
  makes : makes moves = specs
  ordered : Ordered made moves
  movesAt : ∀ other, movesAt other moves =
    (if other = place then own else []) ++ movesOf schemas primary specs made.length other

variable {made specs specs' : List NodeSpec} {place : Nat} {own own' moves moves' : List Move}

namespace Laid

theorem nil : Laid schemas primary made place [] [] [] where
  makes := rfl
  ordered := trivial
  movesAt := by
    intro other
    rw [movesOf_nil, ite_self]
    rfl

theorem append (h : Laid schemas primary made place own specs moves)
    (h' : Laid schemas primary (made ++ specs) place own' specs' moves')
    (hplace : place < made.length) :
    Laid schemas primary made place (own ++ own') (specs ++ specs') (moves ++ moves') where
  makes := by rw [makes_append, h.makes, h'.makes]
  ordered := ordered_append.mpr ⟨h.ordered, h.makes.symm ▸ h'.ordered⟩
  movesAt := by
    intro other
    rw [movesAt_append, h.movesAt, h'.movesAt, movesOf_append, List.length_append]
    by_cases heq : other = place
    · subst heq
      rw [if_pos rfl, if_pos rfl, if_pos rfl, movesOf_of_lt hplace, movesOf_of_lt (by omega)]
      simp
    · rw [if_neg heq, if_neg heq, if_neg heq]
      simp

theorem of_ask {request : Request} (hplace : place < made.length)
    (hfits : request.Fits made place) :
    Laid schemas primary made place [.ask place request] [] [.ask place request] where
  makes := rfl
  ordered := ⟨⟨hplace, hfits⟩, trivial⟩
  movesAt := by
    intro other
    rw [movesOf_nil, List.append_nil]
    by_cases heq : other = place
    · simp [Build.movesAt, Move.place?, heq]
    · simp [Build.movesAt, Move.place?, heq, Ne.symm heq]

theorem of_tag (hplace : place < made.length) (tag : Option String) :
    Laid schemas primary made place (tag.toList.map (.tag place)) []
      (tag.toList.map (.tag place)) := by
  cases tag with
  | none => exact .nil
  | some tag =>
    refine ⟨rfl, ⟨hplace, trivial⟩, fun other => ?_⟩
    rw [movesOf_nil, List.append_nil]
    by_cases heq : other = place
    · simp [Build.movesAt, Move.place?, heq]
    · simp [Build.movesAt, Move.place?, heq, Ne.symm heq]

/-- The moves of a nested node are none of the older one, whichever that is. -/
theorem within (h : Laid schemas primary made made.length [] specs moves) (place : Nat) :
    Laid schemas primary made place [] specs moves where
  makes := h.makes
  ordered := h.ordered
  movesAt := by
    intro other
    rw [h.movesAt, ite_self, ite_self]

theorem of_create {spec : NodeSpec}
    (hown : spec.moves schemas primary made.length = .create made.length spec :: own)
    (h : Laid schemas primary (made ++ [spec]) made.length own specs moves) :
    Laid schemas primary made made.length [] (spec :: specs)
      (.create made.length spec :: moves) where
  makes := by rw [makes_cons, h.makes]; rfl
  ordered := ⟨rfl, h.ordered⟩
  movesAt := by
    intro other
    have hrest := h.movesAt other
    rw [List.length_append, List.length_singleton] at hrest
    rw [ite_self, List.nil_append]
    by_cases heq : other = made.length
    · subst heq
      rw [if_pos rfl, movesOf_of_lt (by omega), List.append_nil] at hrest
      rw [movesOf_cons_self, hown, ← hrest]
      simp [Build.movesAt, Move.place?]
    · rw [if_neg heq, List.nil_append] at hrest
      rw [movesOf_cons_of_ne heq, ← hrest]
      simp [Build.movesAt, Move.place?, Ne.symm heq]

theorem of_nested {request : Request}
    (h : Laid schemas primary made made.length [] specs moves) (hplace : place < made.length)
    (hfits : request.Fits (made ++ specs) place) :
    Laid schemas primary made place [.ask place request] specs
      (moves ++ [.ask place request]) := by
  have hlater : place < (made ++ specs).length := by
    rw [List.length_append]
    omega
  have happend := (h.within place).append (of_ask hlater hfits) hplace
  rwa [List.nil_append, List.append_nil] at happend

theorem follow (h : Laid schemas primary made place [] specs moves)
    (h' : Laid schemas primary (made ++ specs) place [] specs' moves') :
    Laid schemas primary made place [] (specs ++ specs') (moves ++ moves') where
  makes := by rw [makes_append, h.makes, h'.makes]
  ordered := ordered_append.mpr ⟨h.ordered, h.makes.symm ▸ h'.ordered⟩
  movesAt := by
    intro other
    rw [movesAt_append, h.movesAt, h'.movesAt, movesOf_append, List.length_append, ite_self]
    rfl

theorem of_root {root : Nat} (hroot : root < made.length) :
    Laid schemas primary made place [] [] [.root root] where
  makes := rfl
  ordered := ⟨hroot, trivial⟩
  movesAt := by
    intro other
    rw [movesOf_nil, ite_self]
    rfl

end Laid

theorem getElem?_described (made : List NodeSpec) (spec : NodeSpec) :
    (made ++ spec.described schemas)[made.length]? = some spec := by
  obtain ⟨type, attrs, inputs, tag, feed⟩ := spec
  simp [NodeSpec.described]

mutual

theorem laid_script : ∀ (spec : NodeSpec) (made : List NodeSpec) {count : Nat},
    count = made.length → Laid schemas primary made count [] (spec.described schemas)
      (spec.script schemas primary count)
  | ⟨type, attrs, inputs, tag, feed⟩, made, _, rfl => by
    let spec : NodeSpec := ⟨type, attrs, inputs, tag, feed⟩
    let place := made.length
    let nested := NodeSpec.describedEntries schemas (fun _ => true) attrs
    let nested' := NodeSpec.describedEntries schemas (NodeSpec.hasInput schemas type) inputs
    have hcreated : place + 1 = (made ++ [spec]).length := by simp [place]
    have hassigned : spec.madeForInputs schemas place = (made ++ [spec] ++ nested).length := by
      rw [List.length_append, ← hcreated]
      rfl
    have hready : spec.madeForFeed schemas place =
        (made ++ [spec] ++ nested ++ nested').length := by
      rw [List.length_append, ← hassigned]
      rfl
    have hattrs := laid_scriptEntries attrs some (made ++ [spec]) place (by omega) hcreated
    have hinputs := laid_scriptEntries inputs (NodeSpec.attrOfInput? schemas type)
      (made ++ [spec] ++ nested) place (by simp [place]) hassigned
    rw [← funext (NodeSpec.hasInput_eq schemas type)] at hinputs
    have htag : Laid schemas primary (made ++ [spec] ++ nested ++ nested') place _ [] _ :=
      .of_tag (by simp [place]) tag
    have hfeed := laid_scriptFeed feed (made ++ [spec] ++ nested ++ nested') place
      (by simp [place]) hready
    have hrest := hattrs.append (hinputs.append
      (htag.append (by rwa [List.append_nil]) (by simp [place])) (by simp [place])) (by omega)
    unfold NodeSpec.described NodeSpec.script
    refine .of_create ?_ hrest
    simp [NodeSpec.moves, NodeSpec.assignments, spec, place]

theorem laid_scriptEntries : ∀ (entries : List (String × SpecValue))
    (attrOf : String → Option String) (made : List NodeSpec) (place : Nat) {count : Nat},
    place < made.length → count = made.length → Laid schemas primary made place
      ((NodeSpec.requestsOf schemas attrOf count entries).map (.ask place))
      (NodeSpec.describedEntries schemas (fun key => (attrOf key).isSome) entries)
      (NodeSpec.scriptEntries schemas primary attrOf place count entries)
  | [], _, _, _, _, _, _ => .nil
  | entry :: rest, attrOf, made, place, _, hplace, hcount => by
    subst hcount
    have hlater := laid_scriptEntries rest attrOf
      (made ++ NodeSpec.describedEntry schemas (fun key => (attrOf key).isSome) entry) place
      (by rw [List.length_append]; omega) List.length_append.symm
    exact (laid_scriptEntry entry attrOf made place hplace rfl).append hlater hplace

theorem laid_scriptEntry : ∀ (entry : String × SpecValue) (attrOf : String → Option String)
    (made : List NodeSpec) (place : Nat) {count : Nat}, place < made.length →
      count = made.length → Laid schemas primary made place
        [.ask place (NodeSpec.requestOf (attrOf entry.1) count entry.1 entry.2)]
        (NodeSpec.describedEntry schemas (fun key => (attrOf key).isSome) entry)
        (NodeSpec.scriptEntry schemas primary attrOf place count entry)
  | (key, .literal value), attrOf, made, _, _, hplace, hcount => by
    unfold NodeSpec.scriptEntry NodeSpec.describedEntry NodeSpec.scriptValue
      NodeSpec.describedValue NodeSpec.requestOf
    rw [ite_self, ite_self]
    cases attrOf key with
    | some attr => exact .of_ask hplace hcount
    | none => exact .of_ask hplace trivial
  | (key, .spec child), attrOf, made, _, _, hplace, hcount => by
    subst hcount
    unfold NodeSpec.scriptEntry NodeSpec.describedEntry NodeSpec.scriptValue
      NodeSpec.describedValue NodeSpec.requestOf
    cases attrOf key with
    | some attr =>
      exact (laid_script child made rfl).of_nested hplace ⟨hplace, getElem?_described made child⟩
    | none => exact .of_ask hplace trivial

theorem laid_scriptFeed : ∀ (feed : Feed) (made : List NodeSpec) (place : Nat) {count : Nat},
    place < made.length → count = made.length → Laid schemas primary made place
      ((NodeSpec.feedRequests primary count feed).map (.ask place))
      (NodeSpec.describedFeed schemas feed) (NodeSpec.scriptFeed schemas primary place count feed)
  | .nothing, _, _, _, _, _ => .nil
  | .node child, made, _, _, hplace, hcount => by
    subst hcount
    exact (laid_script child made rfl).of_nested hplace ⟨hplace, getElem?_described made child⟩
  | .tagged _, _, _, _, hplace, _ => .of_ask hplace trivial

end

section Makes

variable (schemas primary)

theorem makes_script (spec : NodeSpec) (place : Nat) :
    makes (spec.script schemas primary place) = spec.described schemas :=
  (laid_script spec (List.replicate place default) (by simp)).makes

theorem makes_scriptEntries (attrOf : String → Option String) (entries : List (String × SpecValue))
    {place count : Nat} (h : place < count) :
    makes (NodeSpec.scriptEntries schemas primary attrOf place count entries) =
      NodeSpec.describedEntries schemas (fun key => (attrOf key).isSome) entries :=
  (laid_scriptEntries entries attrOf (List.replicate count default) place (by simpa) (by simp)).makes

theorem makes_scriptEntry (attrOf : String → Option String) (entry : String × SpecValue)
    {place count : Nat} (h : place < count) :
    makes (NodeSpec.scriptEntry schemas primary attrOf place count entry) =
      NodeSpec.describedEntry schemas (fun key => (attrOf key).isSome) entry :=
  (laid_scriptEntry entry attrOf (List.replicate count default) place (by simpa) (by simp)).makes

end Makes

theorem laid_scriptRoots : ∀ (roots : List NodeSpec) (made : List NodeSpec) (place : Nat)
    {count : Nat}, count = made.length → Laid schemas primary made place []
      (roots.flatMap fun spec => spec.described schemas)
      (NodeSpec.scriptRoots schemas primary count roots)
  | [], _, _, _, _ => .nil
  | spec :: rest, made, place, _, hcount => by
    subst hcount
    have hroot : Laid schemas primary (made ++ spec.described schemas) place [] []
        [.root made.length] := by
      refine .of_root (List.getElem?_eq_some_iff.mp (getElem?_described made spec)).1
    have hlater := laid_scriptRoots rest (made ++ spec.described schemas) place
      List.length_append.symm
    have hfirst := ((laid_script spec made rfl).within place).follow hroot
    rw [List.append_nil] at hfirst
    simpa [NodeSpec.scriptRoots] using hfirst.follow hlater

def asksAt (place : Nat) (moves : List Move) : List Request :=
  moves.filterMap fun
    | .ask other request => if other = place then some request else none
    | _ => none

@[simp] theorem asksAt_append (place : Nat) (moves moves' : List Move) :
    asksAt place (moves ++ moves') = asksAt place moves ++ asksAt place moves' :=
  List.filterMap_append ..

theorem mem_asksAt_iff {request : Request} :
    request ∈ asksAt place moves ↔ .ask place request ∈ moves := by
  unfold asksAt
  rw [List.mem_filterMap]
  constructor
  · intro h
    obtain ⟨move, hmove, h⟩ := h
    cases move with
    | ask other asked =>
      obtain ⟨rfl, heq⟩ := (Option.ite_none_right_eq_some).mp h
      exact Option.some.inj heq ▸ hmove
    | create => cases h
    | tag => cases h
    | root => cases h
  · exact fun h => ⟨_, h, if_pos rfl⟩

theorem asksAt_movesAt (place : Nat) (moves : List Move) :
    asksAt place (movesAt place moves) = asksAt place moves := by
  unfold asksAt movesAt
  rw [List.filterMap_filter]
  congr 1
  funext move
  cases move with
  | ask other request => by_cases heq : other = place <;> simp [Move.place?, heq]
  | create => simp
  | tag => simp
  | root => simp

theorem asksAt_map_ask (place : Nat) (requests : List Request) :
    asksAt place (requests.map (.ask place)) = requests := by
  induction requests with
  | nil => rfl
  | cons request rest ih =>
    have hfirst : asksAt place (.ask place request :: rest.map (.ask place)) =
        request :: asksAt place (rest.map (.ask place)) := List.filterMap_cons_some (by simp)
    rw [List.map_cons, hfirst, ih]

theorem asksAt_moves (spec : NodeSpec) (place : Nat) :
    asksAt place (spec.moves schemas primary place) = spec.requests schemas primary place := by
  have htags : asksAt place (spec.tag.toList.map (Move.tag place)) = [] := by
    cases spec.tag <;> rfl
  have hcreate : ∀ rest, asksAt place (.create place spec :: rest) = asksAt place rest := fun _ => rfl
  rw [NodeSpec.moves, hcreate, asksAt_append, asksAt_append, asksAt_map_ask, asksAt_map_ask, htags]
  rfl

/-- A nested node is the one made at the place that is linked, and made later than the older one. -/
theorem Ordered.of_link (h : Ordered made moves) {key attr : String} {child : NodeSpec} {other : Nat}
    (hask : .ask place (.link key attr child other) ∈ moves) :
    place < other ∧ (made ++ makes moves)[other]? = some child := by
  induction moves generalizing made with
  | nil => cases hask
  | cons move rest ih =>
    rw [makes_cons, ← List.append_assoc]
    rcases List.mem_cons.mp hask with rfl | hask
    · obtain ⟨hlt, hchild⟩ := h.1.2
      have hother := (List.getElem?_eq_some_iff.mp hchild).1
      refine ⟨hlt, ?_⟩
      rw [List.append_assoc, List.getElem?_append_left hother]
      exact hchild
    · exact ih h.2 hask

end Static

end Build

end ShaderMigration

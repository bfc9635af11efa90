import ShaderMigration.Proofs.ConversionLineage
import ShaderMigration.Proofs.ConversionStep

namespace ShaderMigration

structure Turn (σ : Type) where
  type : String
  rule : Rule σ
  conversions : List NodeConversion

namespace NodeConversion

variable {σ : Type} {rule : Rule σ} {schemas : Table String Schema} {conversion : NodeConversion}
  (h : conversion.outcome.Fits rule schemas)
include h

theorem map_made_eq : (conversion.outcome.made rule).map Prod.fst =
    conversion.replacement?.toList.map Replacement.new := by
  cases houtcome : conversion.outcome with
  | converted new =>
    rw [houtcome] at h
    obtain ⟨target, htarget, _⟩ := h
    simp [Outcome.made_converted htarget, replacement?, houtcome]
  | skipped | passthrough | inPlace | failed cause =>
    simp [Outcome.made, replacement?, houtcome]

theorem length_made :
    (conversion.outcome.made rule).length = conversion.replacement?.toList.length := by
  simpa only [List.length_map] using congrArg List.length (map_made_eq h)

theorem isFailed_iff : conversion.isFailed = true ↔
    ∃ target, rule.target = some target ∧ schemas.contains target = false := by
  unfold isFailed
  cases houtcome : conversion.outcome with
  | skipped =>
    rw [houtcome] at h
    exact h.elim
  | passthrough | inPlace =>
    rw [houtcome] at h
    simp [h.1]
  | converted new =>
    rw [houtcome] at h
    obtain ⟨target, htarget, hschema⟩ := h
    simp [htarget, hschema]
  | failed cause =>
    rw [houtcome] at h
    obtain ⟨target, htarget, hschema, _⟩ := h
    simp [htarget, hschema]

end NodeConversion

namespace Turn

variable {σ : Type}

def entry (turn : Turn σ) : String × Rule σ := (turn.type, turn.rule)

def olds (turn : Turn σ) : List NodeId := turn.conversions.map NodeConversion.old

def made (turn : Turn σ) : List (NodeId × String) :=
  turn.conversions.flatMap fun conversion => conversion.outcome.made turn.rule

/-- The nodes that were written to in the turn, those made in it apart. -/
def touched (turn : Turn σ) : List NodeId :=
  turn.conversions.flatMap fun conversion => conversion.outcome.touched conversion.old

def Fits (schemas : Table String Schema) (turn : Turn σ) : Prop :=
  ∀ conversion ∈ turn.conversions, conversion.outcome.Fits turn.rule schemas

variable {turn : Turn σ} {schemas : Table String Schema} (h : turn.Fits schemas)
include h

theorem Fits.map_made_eq :
    turn.made.map Prod.fst = (replacementsOf turn.conversions).map Replacement.new := by
  obtain ⟨type, rule, conversions⟩ := turn
  induction conversions with
  | nil => rfl
  | cons conversion rest ih =>
    have hrest := ih fun c hc => h c (List.mem_cons_of_mem _ hc)
    have hfirst := NodeConversion.map_made_eq (h conversion (List.mem_cons_self ..))
    simp only [made, List.flatMap_cons, List.map_append, replacementsOf_cons] at hrest ⊢
    rw [hrest, hfirst]

theorem Fits.length_made : turn.made.length = (replacementsOf turn.conversions).length := by
  simpa using congrArg List.length h.map_made_eq

theorem Fits.mem_touched {id : NodeId} (hid : id ∈ turn.touched) :
    id ∈ turn.olds ∧ turn.rule.target = none ∧ turn.rule.inPlace = true := by
  obtain ⟨conversion, hconversion, hid⟩ := List.mem_flatMap.mp hid
  have hfits := h conversion hconversion
  cases houtcome : conversion.outcome with
  | inPlace =>
    rw [houtcome] at hid hfits
    rw [List.mem_singleton.mp hid]
    exact ⟨List.mem_map_of_mem hconversion, hfits⟩
  | skipped | passthrough | converted new | failed cause =>
    rw [houtcome] at hid
    exact absurd hid List.not_mem_nil

end Turn

/-- The nodes of a type at its turn: those of a scene, and then those made of it before. -/
def Scene.due (scene : Scene) (made : List (NodeId × String)) (type : String) : List NodeId :=
  scene.nodesOfType type ++ (made.filter fun entry => entry.2 == type).map Prod.fst

theorem Scene.due_sublist (scene : Scene) {made made' : List (NodeId × String)}
    (h : made.Sublist made') (type : String) :
    (scene.due made type).Sublist (scene.due made' type) :=
  List.Sublist.append_left ((h.filter _).map _) _

namespace Migrator

variable {migrator : Migrator LiveScene} (hhost : migrator.host = LiveScene.host)
  (hsheet : Sheet.Stepless migrator.sheet)
include hhost hsheet

/-- Converting nodes of a type that has a rule makes the nodes reported, and touches only those
nodes that the rule leaves in place. -/
theorem turn_convertNodes {type : String} {rule : Rule LiveScene}
    (hrule : migrator.sheet.find? type = some rule) (pending : Pending) (nodes : List NodeId)
    {run : Run LiveScene}
    (hnodes : ∀ node ∈ nodes, ∃ found, run.state.scene.nodes.find? node = some found ∧
      found.type = type)
    (hunused : run.state.NextUnused
      (replacementsOf (migrator.convertNodes pending nodes run).1).length) :
    let turn : Turn LiveScene := ⟨type, rule, (migrator.convertNodes pending nodes run).1⟩
    turn.Fits run.state.scene.schemas ∧ run.state.Extends turn.touched turn.made
      (migrator.convertNodes pending nodes run).2.state := by
  induction nodes generalizing pending run with
  | nil => exact ⟨fun _ hm => absurd hm List.not_mem_nil, .refl _⟩
  | cons node rest ih =>
    obtain ⟨found, hfound, htype⟩ := hnodes node (List.mem_cons_self ..)
    have heffect := convertNode_effect hhost hsheet hfound (htype ▸ hrule) false
    have hold := old_convertNode hsheet.tame false node run
    rw [convertNodes_cons] at hunused ⊢
    generalize migrator.convertNode false node run = first at heffect hold hunused ⊢
    obtain ⟨conversion, later⟩ := first
    dsimp only at heffect hold hunused ⊢
    subst hold
    have hfits := heffect.fits
    -- the ids that are left after the first node serve the others
    rw [replacementsOf_cons, List.length_append] at hunused
    change run.state.NextUnused (conversion.replacement?.toList.length + _) at hunused
    rw [← conversion.length_made hfits] at hunused
    have hextends := heffect.extension (hunused.mono (Nat.le_add_right ..))
    have hlater : ∀ node ∈ rest, ∃ found, later.state.scene.nodes.find? node = some found ∧
        found.type = type := by
      intro other hother
      obtain ⟨found, hfound, htype⟩ := hnodes other (List.mem_cons_of_mem _ hother)
      obtain ⟨found', hfound', _, htype', _⟩ := hextends.kept hfound
      exact ⟨found', hfound', htype'.trans htype⟩
    obtain ⟨hrest, hthen⟩ := ih (pending.except conversion.old) hlater (hextends.nextUnused hunused)
    refine ⟨?_, hextends.trans hthen⟩
    intro c hc
    rcases List.mem_cons.mp hc with rfl | hc
    · exact hfits
    · exact hextends.schemas ▸ hrest c hc

theorem turn_convertType {type : String} {rule : Rule LiveScene}
    (hrule : migrator.sheet.find? type = some rule) {run : Run LiveScene}
    (hkeyed : run.state.scene.Keyed)
    (hunused : run.state.NextUnused
      (replacementsOf (migrator.convertType type rule run).1).length) :
    let turn : Turn LiveScene := ⟨type, rule, (migrator.convertType type rule run).1⟩
    turn.olds = run.state.scene.nodesOfType type ∧ turn.Fits run.state.scene.schemas ∧
      run.state.Extends turn.touched turn.made (migrator.convertType type rule run).2.state := by
  have hlisted : (migrator.host.reads run.state).nodesOfType type =
      run.state.scene.nodesOfType type := by
    rw [hhost]
    rfl
  refine ⟨(olds_convertType hsheet.tame type rule run).trans hlisted, ?_⟩
  refine turn_convertNodes hhost hsheet hrule _ _ ?_ hunused
  rw [hlisted]
  exact fun node hnode => hkeyed.mem_nodesOfType_iff.mp hnode

/-- What types do in their turns, when others had theirs before. -/
theorem turns_convertTypes {start : LiveScene} (hkeyed : start.scene.Keyed)
    (types : List (String × Rule LiveScene))
    (htypes : ∀ entry ∈ types, migrator.sheet.find? entry.1 = some entry.2)
    {touched : List NodeId} {made : List (NodeId × String)} {run : Run LiveScene}
    (hbefore : start.Extends touched made run.state)
    (hunused : run.state.NextUnused (replacementsOf (migrator.convertTypes types run).1).length) :
    ∃ turns : List (Turn LiveScene),
      turns.map Turn.entry = types ∧
      (migrator.convertTypes types run).1 = turns.flatMap Turn.conversions ∧
      (∀ turn ∈ turns, turn.Fits start.scene.schemas) ∧
      (∀ earlier turn later, turns = earlier ++ turn :: later →
        turn.olds = start.scene.due (made ++ earlier.flatMap Turn.made) turn.type) ∧
      start.Extends (touched ++ turns.flatMap Turn.touched) (made ++ turns.flatMap Turn.made)
        (migrator.convertTypes types run).2.state := by
  induction types generalizing touched made run with
  | nil =>
    refine ⟨[], rfl, rfl, fun _ hm => absurd hm List.not_mem_nil, ?_, ?_⟩
    · exact fun earlier turn later h => absurd h.symm (by simp)
    · simp only [List.flatMap_nil, List.append_nil]
      exact hbefore
  | cons entry rest ih =>
    rw [convertTypes_cons] at hunused ⊢
    dsimp only at hunused ⊢
    rw [replacementsOf_append, List.length_append] at hunused
    obtain ⟨holds, hfits, hextends⟩ := turn_convertType hhost hsheet
      (htypes entry (List.mem_cons_self ..)) (hbefore.keyed hkeyed)
      (hunused.mono (Nat.le_add_right ..))
    have hlater := hextends.nextUnused (hfits.length_made ▸ hunused)
    rw [hbefore.nodesOfType hkeyed] at holds
    -- the other types find what was made before together with what this turn made
    obtain ⟨turns, hentries, hconversions, hturns, hdue, hall⟩ :=
      ih (fun other hother => htypes other (List.mem_cons_of_mem _ hother))
        (hbefore.trans hextends) hlater
    refine ⟨⟨entry.1, entry.2, (migrator.convertType entry.1 entry.2 run).1⟩ :: turns,
      ?_, ?_, ?_, ?_, ?_⟩
    · rw [List.map_cons, hentries]
      rfl
    · rw [List.flatMap_cons, hconversions]
    · intro turn hturn
      rcases List.mem_cons.mp hturn with rfl | hturn
      · exact hbefore.schemas ▸ hfits
      · exact hturns turn hturn
    · intro earlier turn later hsplit
      cases earlier with
      | nil =>
        obtain ⟨rfl, -⟩ := List.cons.inj hsplit
        rw [List.flatMap_nil, List.append_nil]
        exact holds
      | cons first earlier =>
        obtain ⟨rfl, hrest⟩ := List.cons.inj hsplit
        rw [List.flatMap_cons, ← List.append_assoc]
        exact hdue earlier turn later hrest
    · simpa only [List.flatMap_cons, List.append_assoc] using hall

end Migrator

/-- What a conversion by a sheet reports and leaves of a scene, type by type. -/
structure ByTurns (sheet : Sheet LiveScene) (start after : Scene)
    (conversions : List NodeConversion) (turns : List (Turn LiveScene)) : Prop where
  entries : turns.map Turn.entry = sheet.entries
  reported : conversions = turns.flatMap Turn.conversions
  due : ∀ earlier turn later, turns = earlier ++ turn :: later →
    turn.olds = start.due (earlier.flatMap Turn.made) turn.type
  once : (conversions.map NodeConversion.old).Nodup
  keys : after.nodes.keys = start.nodes.keys ++ (replacementsOf conversions).map Replacement.new
  replaced : ∀ turn ∈ turns, ∀ conversion ∈ turn.conversions, ∀ new,
    conversion.outcome = .converted new → ∃ target found, turn.rule.target = some target ∧
      after.nodes.find? new = some found ∧ found.type = target
  failed : ∀ turn ∈ turns, ∀ conversion ∈ turn.conversions, conversion.isFailed = true ↔
    ∃ target, turn.rule.target = some target ∧ start.schemas.contains target = false
  schemas : after.schemas = start.schemas
  roots : after.roots = start.roots
  untouched : ∀ id found, start.nodes.find? id = some found →
    (∀ rule, sheet.find? found.type = some rule → ¬(rule.target = none ∧ rule.inPlace = true)) →
      after.nodes.find? id = some found

namespace Turn

variable {start after : LiveScene} {turns : List (Turn LiveScene)} {touched : List NodeId}
  (hdue : ∀ earlier turn later, turns = earlier ++ turn :: later →
    turn.olds = start.scene.due (earlier.flatMap Turn.made) turn.type)
  (hextends : start.Extends touched (turns.flatMap Turn.made) after) (hkeyed : start.scene.Keyed)
include hdue hextends hkeyed

theorem olds_sublist {turn : Turn LiveScene} (hturn : turn ∈ turns) :
    turn.olds.Sublist (after.scene.nodesOfType turn.type) := by
  obtain ⟨earlier, later, hsplit⟩ := List.append_of_mem hturn
  rw [hdue earlier turn later hsplit, hextends.nodesOfType hkeyed, hsplit, List.flatMap_append]
  exact start.scene.due_sublist (List.sublist_append_left _ _) turn.type

theorem nodup_olds {sheet : Sheet LiveScene} (hentries : turns.map Turn.entry = sheet.entries) :
    (turns.flatMap Turn.olds).Nodup := by
  have hsublist : ∀ turn ∈ turns, turn.olds.Sublist (after.scene.nodesOfType turn.type) :=
    fun turn hturn => olds_sublist hdue hextends hkeyed hturn
  have hafter := hextends.keyed hkeyed
  refine List.nodup_flatMap.mpr ⟨?_, ?_⟩
  · exact fun turn hturn => (hafter.nodup_nodesOfType turn.type).sublist (hsublist turn hturn)
  · have htypes : (turns.map Turn.type).Nodup := by
      have hkeys := sheet.nodup
      rwa [← hentries, Entries.keys, List.map_map] at hkeys
    -- a node of two turns would be of two types
    refine (List.pairwise_map.mp htypes).imp_of_mem ?_
    intro first second hfirst hsecond hne id hid hid'
    obtain ⟨found, hfound, htype⟩ :=
      hafter.mem_nodesOfType_iff.mp ((hsublist first hfirst).subset hid)
    obtain ⟨found', hfound', htype'⟩ :=
      hafter.mem_nodesOfType_iff.mp ((hsublist second hsecond).subset hid')
    rw [Option.some.inj (hfound'.symm.trans hfound)] at htype'
    exact hne (htype.symm.trans htype')

end Turn

theorem byTurns_of_autoConvert {sheet : Sheet LiveScene} {workshop : Texture.Workshop}
    {run after : Run LiveScene} {report : ConversionReport} (hsheet : Sheet.Stepless sheet)
    (hkeyed : run.state.scene.Keyed)
    (hrun : (Migrator.inMemory sheet workshop).autoConvert run = (report, after))
    (hunused : run.state.NextUnused report.converted) :
    ∃ turns, ByTurns sheet run.state.scene after.state.scene report.conversions turns := by
  have hconversions : ((Migrator.inMemory sheet workshop).convertTypes sheet.entries run).1 =
      report.conversions := congrArg (fun result => result.1.conversions) hrun
  have hafter : ((Migrator.inMemory sheet workshop).convertTypes sheet.entries run).2 = after :=
    congrArg Prod.snd hrun
  rw [← length_replacementsOf, ← hconversions] at hunused
  have hhost : (Migrator.inMemory sheet workshop).host = LiveScene.host := rfl
  obtain ⟨turns, hentries, hreport, hfits, hdue, hextends⟩ := Migrator.turns_convertTypes hhost
    hsheet hkeyed sheet.entries (fun entry he => Table.mem_entries_iff.mp he) (.refl run.state)
    hunused
  rw [hafter] at hextends
  rw [hconversions] at hreport
  simp only [List.nil_append] at hdue hextends
  have hmade : (turns.flatMap Turn.made).map Prod.fst =
      (replacementsOf report.conversions).map Replacement.new := by
    rw [hreport, replacementsOf, List.filterMap_flatMap, List.map_flatMap, List.map_flatMap]
    exact List.flatMap_congr fun turn hturn => (hfits turn hturn).map_made_eq
  refine ⟨turns, hentries, hreport, hdue, ?_, ?_, ?_, ?_, hextends.schemas, hextends.roots, ?_⟩
  · rw [hreport, List.map_flatMap]
    exact Turn.nodup_olds hdue hextends hkeyed hentries
  · rw [hextends.keys, hmade]
  · intro turn hturn conversion hconversion new houtcome
    have hfit := hfits turn hturn conversion hconversion
    rw [houtcome] at hfit
    obtain ⟨target, htarget, _⟩ := hfit
    have hentry : (new, target) ∈ turns.flatMap Turn.made := by
      refine List.mem_flatMap.mpr ⟨turn, hturn, List.mem_flatMap.mpr ⟨conversion, hconversion, ?_⟩⟩
      simp [houtcome, Outcome.made_converted htarget]
    obtain ⟨found, hfound, _, htype, _⟩ := hextends.node _ hentry
    exact ⟨target, found, htarget, hfound, htype⟩
  · exact fun turn hturn conversion hconversion =>
      conversion.isFailed_iff (hfits turn hturn conversion hconversion)
  · intro id found hfound hrules
    refine (hextends.same id (Table.mem_keys_iff.mpr ⟨found, hfound⟩) ?_).trans hfound
    intro htouched
    obtain ⟨turn, hturn, htouched⟩ := List.mem_flatMap.mp htouched
    obtain ⟨hold, hplace⟩ := (hfits turn hturn).mem_touched htouched
    have hof := (Turn.olds_sublist hdue hextends hkeyed hturn).subset hold
    obtain ⟨found', hfound', htype⟩ := (hextends.keyed hkeyed).mem_nodesOfType_iff.mp hof
    obtain ⟨found'', hfound'', _, htype', _⟩ := hextends.kept hfound
    rw [Option.some.inj (hfound''.symm.trans hfound')] at htype'
    have hentry : (turn.type, turn.rule) ∈ sheet.entries := hentries ▸ List.mem_map_of_mem hturn
    rw [← htype, htype'] at hentry
    exact hrules turn.rule (Table.mem_entries_iff.mp hentry) hplace

/-- A conversion of a scene takes every node of a type once, at the turn of the type, and what was
there before changes only where a rule says so.  A node that cannot be replaced changes nothing, and
the search for a name ends at one that is free. -/
theorem autoConvert_converts_each_once {sheet : Sheet LiveScene} {workshop : Texture.Workshop}
    {run after : Run LiveScene} {report : ConversionReport} (hsheet : Sheet.Stepless sheet)
    (hkeyed : run.state.scene.Keyed)
    (hrun : (Migrator.inMemory sheet workshop).autoConvert run = (report, after))
    (hunused : run.state.NextUnused report.converted) :
    (∃ turns, ByTurns sheet run.state.scene after.state.scene report.conversions turns) ∧
      (∀ inline old mid,
        ((Migrator.inMemory sheet workshop).convertNode inline old mid).1.isFailed = true →
          ((Migrator.inMemory sheet workshop).convertNode inline old mid).2 = mid) ∧
      ∀ refused candidate, Namer.freeName refused candidate ∉ refused := by
  refine ⟨byTurns_of_autoConvert hsheet hkeyed hrun hunused, ?_, Namer.freeName_not_mem⟩
  exact fun inline old mid hfailed => Migrator.convertNode_failed rfl hsheet hfailed

/-- A lamp, a light, a wall and fog. -/
def litRoom : LiveScene where
  scene :=
    { schemas := .ofPairs
        [("lamp", ⟨"lamp", .ofPairs [("power", .float 1.0)], {}⟩),
          ("light", ⟨"light", .ofPairs [("power", .float 1.0)], {}⟩)]
      nodes := .ofPairs
        [(.ofNat 1, ⟨.ofNat 1, "lamp", none, "lamp1", .ofPairs [("power", ⟨.float 3.0, none⟩)],
            .empty⟩),
          (.ofNat 2, ⟨.ofNat 2, "light", none, "sun", .ofPairs [("power", ⟨.float 9.0, none⟩)],
            .empty⟩),
          (.ofNat 3, ⟨.ofNat 3, "wall", none, "wall", .ofPairs [("shiny", ⟨.bool true, none⟩)],
            .empty⟩),
          (.ofNat 4, ⟨.ofNat 4, "fog", none, "fog", {}, .empty⟩)]
      roots := [.ofNat 3] }
  supply := ⟨fun n => .ofNat (n + 5), 0⟩

/-- Swaps lamps and lights, dulls walls, and has no schema for what fog should become. -/
def swappedLights : Sheet LiveScene :=
  .ofPairs
    [("lamp", (Rule.replacing "light").rename "power" "power"),
      ("light", (Rule.replacing "lamp").rename "power" "power"),
      ("wall", Rule.onto.computed "shiny" "shiny" (.ofExpr .negation)),
      ("fog", Rule.replacing "smoke")]

def swappedRun : ConversionReport × Run LiveScene :=
  (Migrator.inMemory swappedLights ⟨{}, {}, fun _ _ => .ok (.code 0)⟩).autoConvert ⟨{}, litRoom⟩

/-- The light that the lamp became is turned into a lamp again, which then stays. -/
theorem litRoom_converted_once :
    (∃ turns, ByTurns swappedLights litRoom.scene swappedRun.2.state.scene
        swappedRun.1.conversions turns) ∧
      swappedRun.1.conversions.map NodeConversion.old =
        [.ofNat 1, .ofNat 2, .ofNat 5, .ofNat 3, .ofNat 4] ∧
      swappedRun.1.conversions.map NodeConversion.isFailed =
        [false, false, false, false, true] := by
  have hrun : (Migrator.inMemory swappedLights ⟨{}, {}, fun _ _ => .ok (.code 0)⟩).autoConvert
      ⟨{}, litRoom⟩ = (swappedRun.1, swappedRun.2) := (Prod.eta swappedRun).symm
  exact ⟨(autoConvert_converts_each_once (by decide) (by decide) hrun (by decide +kernel)).1,
    by decide +kernel, by decide +kernel⟩

end ShaderMigration

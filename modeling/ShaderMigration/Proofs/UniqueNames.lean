import ShaderMigration.Proofs.ConversionLineage
import ShaderMigration.Proofs.ConversionStep

namespace ShaderMigration

/-- The nodes are there, and no other node has the name of one of them. -/
def Scene.NamesApart (scene : Scene) (nodes : List NodeId) : Prop :=
  ∀ node ∈ nodes, ∃ name, scene.name? node = some name ∧
    ∀ other, other ≠ node → scene.name? other ≠ some name

namespace Scene.NamesApart

variable {scene scene' : Scene} {nodes : List NodeId}

theorem of_changesOnly {node : NodeId} (h : scene.NamesApart nodes)
    (hchanges : scene.ChangesOnly node scene') : scene'.NamesApart nodes := by
  intro node hnode
  simp only [hchanges.name?_eq]
  exact h node hnode

/-- A node is put there under a name that no other node has. -/
theorem of_adds {id : NodeId} {type name : String} (h : scene.NamesApart nodes)
    (hadds : scene.Adds id type name scene')
    (hname : ∀ other, other ≠ id → scene.name? other ≠ some name) :
    scene'.NamesApart (nodes ++ [id]) := by
  have hnew : ∀ other, other ≠ id → scene'.name? other ≠ some name := fun other hne =>
    hadds.name?_of_ne hne ▸ hname other hne
  intro node hnode
  by_cases hid : node = id
  · subst hid
    exact ⟨name, hadds.name?_self, hnew⟩
  · have hold : node ∈ nodes := by simpa [hid] using hnode
    obtain ⟨own, hown, hothers⟩ := h node hold
    have hkept : scene'.name? node = some own := (hadds.name?_of_ne hid).trans hown
    refine ⟨own, hkept, fun other hne hother => ?_⟩
    by_cases hother' : other = id
    · -- the new node has the name that was found free
      subst hother'
      have hsame := Option.some.inj (hother.symm.trans hadds.name?_self)
      exact hnew node hid (hsame ▸ hkept)
    · exact hothers other hne ((hadds.name?_of_ne hother').symm.trans hother)

end Scene.NamesApart

namespace Migrator

/-- Names are unique, every new node was made by a replacement, and their names are apart. -/
structure Distinguished (start : Scene) (made : List Replacement) (run : Run LiveScene) : Prop where
  policy : run.namer.policy = .unique
  known : ∀ id ∈ run.state.scene.nodes.keys,
    id ∈ start.nodes.keys ∨ id ∈ made.map Replacement.new
  apart : run.state.scene.NamesApart (made.map Replacement.new)

theorem Effect.distinguished {start : Scene} {made : List Replacement} {rule : Rule LiveScene}
    {old : NodeId} {run run' : Run LiveScene} {conversion : NodeConversion}
    (h : Effect rule old run conversion.outcome run') (hrun : Distinguished start made run) :
    Distinguished start (made ++ conversion.replacement?.toList) run' := by
  unfold NodeConversion.replacement?
  generalize conversion.outcome = outcome at h ⊢
  cases h with
  | passthrough | failed => simpa using hrun
  | inPlace _ _ hchanges =>
    refine ⟨hrun.policy, fun id hid => ?_, ?_⟩
    · simpa using hrun.known id (hchanges.keys ▸ hid)
    · simpa using hrun.apart.of_changesOnly hchanges
  | converted _ _ hadds hissues =>
    refine ⟨hissues.policy.trans hrun.policy, fun id hid => ?_, ?_⟩
    · by_cases hnew : id = run.state.supply.next
      · exact Or.inr (by simp [hnew])
      · obtain ⟨found, hfound⟩ := Table.mem_keys_iff.mp hid
        have hbefore := hrun.known id
          (Table.mem_keys_iff.mpr ⟨found, (hadds.others id hnew).symm.trans hfound⟩)
        exact hbefore.imp_right fun hm => by simp [hm]
    · simpa using hrun.apart.of_adds hadds (hissues.apart hrun.policy)

theorem stepKeeps_distinguished {migrator : Migrator LiveScene}
    (hhost : migrator.host = LiveScene.host) (hsheet : Sheet.Stepless migrator.sheet)
    (start : Scene) : migrator.StepKeeps (Distinguished start) := by
  intro made node run hrun
  rcases convertNode_unchanged_or_effect hhost hsheet false node run with
    ⟨hnone, heq⟩ | ⟨rule, heffect⟩
  · rw [hnone, heq]
    simpa using hrun
  · exact heffect.distinguished hrun

/-- Converts a scene by one sheet after the other, each time under a new namer. -/
def series : List (Sheet LiveScene × Texture.Workshop) → LiveScene →
    List ConversionReport × LiveScene
  | [], live => ([], live)
  | (sheet, workshop) :: rest, live =>
    let (report, run) := (inMemory sheet workshop).autoConvert ⟨{}, live⟩
    let (reports, live) := series rest run.state
    (report :: reports, live)

/-- The replacements made so far are distinguished from all other nodes, by whatever namer. -/
theorem distinguished_series {start : Scene} {batches : List (Sheet LiveScene × Texture.Workshop)}
    (hsheets : ∀ batch ∈ batches, Sheet.Stepless batch.1) {made : List Replacement}
    {live : LiveScene} (hstart : Distinguished start made ⟨{}, live⟩) :
    Distinguished start
      (made ++ (series batches live).1.flatMap fun report => replacementsOf report.conversions)
      ⟨{}, (series batches live).2⟩ := by
  induction batches generalizing made live with
  | nil => simpa [series] using hstart
  | cons batch rest ih =>
    obtain ⟨sheet, workshop⟩ := batch
    have hcons : series ((sheet, workshop) :: rest) live =
        let first := (inMemory sheet workshop).autoConvert ⟨{}, live⟩
        let others := series rest first.2.state
        (first.1 :: others.1, others.2) := rfl
    have hhost : (inMemory sheet workshop).host = LiveScene.host := rfl
    have hfirst := (stepKeeps_distinguished hhost (hsheets _ (List.mem_cons_self ..))
      start).autoConvert hstart
    have hnext : Distinguished start _
        ⟨{}, ((inMemory sheet workshop).autoConvert ⟨{}, live⟩).2.state⟩ :=
      ⟨rfl, hfirst.known, hfirst.apart⟩
    have hrest := ih (fun other hother => hsheets other (List.mem_cons_of_mem _ hother)) hnext
    rw [hcons]
    dsimp only
    rw [List.flatMap_cons, ← List.append_assoc]
    exact hrest

end Migrator

/-- After any number of batches, the nodes that they made have names that no other node has. -/
theorem series_namesApart {batches : List (Sheet LiveScene × Texture.Workshop)}
    {live after : LiveScene} {reports : List ConversionReport}
    (hsheets : ∀ batch ∈ batches, Sheet.Stepless batch.1)
    (hrun : Migrator.series batches live = (reports, after)) :
    let created := (reports.flatMap fun report => replacementsOf report.conversions).map
      Replacement.new
    (∀ id ∈ after.scene.nodes.keys, id ∈ live.scene.nodes.keys ∨ id ∈ created) ∧
      after.scene.NamesApart created := by
  have hstart : Migrator.Distinguished live.scene [] ⟨{}, live⟩ :=
    ⟨rfl, fun id hid => Or.inl hid, fun _ hm => absurd hm List.not_mem_nil⟩
  have hseries := Migrator.distinguished_series hsheets hstart
  rw [hrun] at hseries
  exact ⟨hseries.known, hseries.apart⟩

/-- The conversion by stages, and the same once more. -/
def stagesTwice : List (Sheet LiveScene × Texture.Workshop) :=
  [(phongByStages, ⟨{}, {}, fun _ _ => .ok (.code 0)⟩),
    (phongByStages, ⟨{}, {}, fun _ _ => .ok (.code 0)⟩)]

def stagedTwice : List ConversionReport × LiveScene := Migrator.series stagesTwice twiceShaded

theorem new_stagedTwice :
    (stagedTwice.1.flatMap fun report => replacementsOf report.conversions).map Replacement.new =
      [.ofNat 4, .ofNat 5, .ofNat 6, .ofNat 7, .ofNat 8] := by decide +kernel

/-- The shader is still there for the second batch, which finds the names of the first one taken. -/
theorem stagedTwice_namesApart :
    stagedTwice.2.scene.NamesApart [.ofNat 4, .ofNat 5, .ofNat 6, .ofNat 7, .ofNat 8] ∧
      stagedTwice.2.scene.nodes.values.map SceneNode.name =
        ["mesh", "skin", "map", "skin_blinn", "skin_standard", "skin_blinn_1", "skin_standard_1",
          "skin_standard_1_1"] := by
  have hrun : Migrator.series stagesTwice twiceShaded = (stagedTwice.1, stagedTwice.2) :=
    (Prod.eta stagedTwice).symm
  have happly := (series_namesApart (by decide) hrun).2
  rw [new_stagedTwice] at happly
  exact ⟨happly, by decide +kernel⟩

end ShaderMigration

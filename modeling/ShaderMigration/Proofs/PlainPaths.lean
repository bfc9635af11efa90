import ShaderMigration.Proofs.PathVariables
import ShaderMigration.Proofs.PatternMatches
import ShaderMigration.Texture

namespace ShaderMigration.Texture

open Files (Tree split)
open Files.Glob (Broken NamePattern Nameless Tidy behindStart extend fits isWildcard literal? matches? parse? spell
  startOf)

variable {env : Environment} {files : Tree} {path : String}

theorem expandVars_of_plain (h : '$' ∉ path.toList) : expandVars env path = path := by
  refine expandVars_of_unset fun piece hpiece name hname => ?_
  have htext : '$' ∉ piece.text := fun hm =>
    h (Piece.texts_split path.toList ▸ List.mem_flatMap.mpr ⟨piece, hpiece, hm⟩)
  cases piece with
  | plain => cases hname
  | braced | bare | lone => exact absurd List.mem_cons_self htext

theorem replace_of_not_contains {word value : String} (h : Text.contains word path = false) :
    Text.replace word value path = path := by
  rw [Text.replace, Text.replaceWithin_of_not_occurs _ h, String.ofList_toList]

theorem expandTiles_of_plain
    (h : ∀ token ∈ ["<UDIM>", "<U>", "<V>"], Text.contains token path = false) :
    expandTiles path = path := by
  rw [expandTiles, replace_of_not_contains (h "<UDIM>" (by simp)),
    replace_of_not_contains (h "<U>" (by simp)), replace_of_not_contains (h "<V>" (by simp))]

theorem inputs_eq_of_matches? {job : Job} {inputs : List String} (hpattern : job.pattern env = path)
    (hmatches : matches? files path = some inputs) : job.inputs env files = .ok inputs := by
  rw [Job.inputs, hpattern, hmatches]

/-- A path without a dollar sign and without a tile token is its own pattern.  If it is the path of a
file and has no wildcard in it, the file is what it means, spelled like the path if that is tidy; after
dots at the front an empty name means nothing.  A last name with wildcards means the entries of its
directory that it fits, and a path that is no pattern, in a name or as a whole, is an error. -/
theorem inputs_of_plain_path (transcoder : Transcoder) (env : Environment) (files : Tree) (path : String)
    (hdollar : '$' ∉ path.toList)
    (htokens : ∀ token ∈ ["<UDIM>", "<U>", "<V>"], Text.contains token path = false)
    (hsound : files.Sound) (hfile : files.isFile path = true) :
    let job : Job := ⟨transcoder, path⟩
    job.pattern env = path ∧
      ((∀ c ∈ path.toList, isWildcard c = false) →
        if Broken (split path.toList) then job.inputs env files = .ok []
        else ∃ file, job.inputs env files = .ok [file] ∧ files.locate file = files.locate path ∧
          (Tidy (split path.toList) → file = path)) ∧
      (parse? true path.toList = none ∨ (∃ name ∈ split path.toList, parse? true name = none) →
        job.inputs env files = .error .pattern) ∧
      ∀ before last pattern, split path.toList = before ++ [last] →
        (∀ name ∈ before, ∀ c ∈ name, isWildcard c = false) → ¬ Broken (split path.toList) →
        parse? true last = some pattern → literal? pattern = none → .anyDirectories ∉ pattern →
        pattern.head? ≠ some (.char '.') →
          ∃ directory place, files.locate directory = .ok place ∧
            files.locate path = .ok (place ++ [String.ofList last]) ∧
            (Tidy (split path.toList) → extend directory (String.ofList last) = path) ∧
            (before = [] → directory = ".") ∧
            job.inputs env files =
              .ok (((files.entriesAt place).filter fun name => fits pattern name.toList).map
                (extend directory)) := by
  intro job
  have hpattern : job.pattern env = path := by
    change expandTiles (expandVars env path) = path
    rw [expandVars_of_plain hdollar, expandTiles_of_plain htokens]
  obtain ⟨found, hlocate, hcontent⟩ := Tree.exists_of_isFile hfile
  refine ⟨hpattern, fun hplain => ?_, fun hnone => ?_, ?_⟩
  · have hmatches := Files.Glob.matches?_of_plain hsound hlocate hcontent hplain
    split
    next hbroken =>
      rw [if_pos hbroken] at hmatches
      exact inputs_eq_of_matches? hpattern hmatches
    next hwhole =>
      rw [if_neg hwhole] at hmatches
      obtain ⟨hspelled, htidy⟩ := Files.Glob.locate_spelled hsound hlocate hcontent hwhole
      exact ⟨_, inputs_eq_of_matches? hpattern hmatches, hspelled.trans hlocate.symm, htidy⟩
  · rw [Job.inputs, hpattern, Files.Glob.matches?_eq_none files hnone]
  · intro before last pattern hparts hplain hwhole hparse hliteral hnames hdot
    obtain ⟨directory, place, hlead, rfl, htidy, hhere, hmatches⟩ :=
      Files.Glob.exists_matches_of_last hsound hlocate hparts hplain hwhole hparse hliteral hnames hdot
    exact ⟨directory, place, hlead, hlocate, htidy, hhere, inputs_eq_of_matches? hpattern hmatches⟩

/-- Three textures below the working directory, one of them named like a pattern that another one fits,
and one that is only known by its place from the root. -/
def bracketed : Tree :=
  ⟨[(["[x].png"], ""), (["tex", "wood.png"], ""), (["x.png"], ""), (["/", "tex", "oak.png"], "")]⟩

theorem bracketed_wood :
    Job.inputs ⟨⟨"true", [], "tx"⟩, "tex/wood.png"⟩ {} bracketed = .ok ["tex/wood.png"] ∧
      Job.inputs ⟨⟨"true", [], "tx"⟩, "/tex/oak.png"⟩ {} bracketed = .ok ["/tex/oak.png"] := by
  have hsound : bracketed.Sound := by decide
  have hplain : ∀ path : String, '$' ∉ path.toList →
      (∀ token ∈ ["<UDIM>", "<U>", "<V>"], Text.contains token path = false) →
      bracketed.isFile path = true → (∀ c ∈ path.toList, isWildcard c = false) →
      ¬ Broken (split path.toList) → Tidy (split path.toList) →
        Job.inputs ⟨⟨"true", [], "tx"⟩, path⟩ {} bracketed = .ok [path] := by
    intro path hdollar htokens hfile hplain hwhole htidy
    have hinputs := (inputs_of_plain_path ⟨"true", [], "tx"⟩ {} bracketed path hdollar htokens hsound
      hfile).2.1 hplain
    rw [if_neg hwhole] at hinputs
    obtain ⟨file, hfound, _, hspelled⟩ := hinputs
    rw [hfound, hspelled htidy]
  constructor
  · exact hplain "tex/wood.png" (by decide) (by decide) (by decide +kernel) (by simp [isWildcard])
      (by decide) (by decide)
  · exact hplain "/tex/oak.png" (by decide) (by decide) (by decide +kernel) (by simp [isWildcard])
      (by decide) (by decide)

/-- What the name `[x].png` stands for as a pattern. -/
def bracketPattern : NamePattern :=
  [.oneOf [⟨'x', 'x'⟩], .char '.', .char 'p', .char 'n', .char 'g']

/-- The other texture is taken for the one that is named, and without it nothing is found. -/
theorem bracketed_mistaken :
    bracketed.isFile "[x].png" = true ∧
      Job.inputs ⟨⟨"true", [], "tx"⟩, "[x].png"⟩ {} bracketed = .ok ["x.png"] ∧
      Job.inputs ⟨⟨"true", [], "tx"⟩, "[x].png"⟩ {} ⟨[(["[x].png"], "")]⟩ = .ok [] := by
  have hpattern : Job.pattern ⟨⟨"true", [], "tx"⟩, "[x].png"⟩ {} = "[x].png" := by
    rw [Job.pattern, expandVars_of_plain (by decide), expandTiles_of_plain (by decide)]
  have hparse : parse? true "[x].png".toList = some bracketPattern := by cbv
  have hparts : split (behindStart "[x].png") = [] ++ ["[x].png".toList] := rfl
  have hmatches : ∀ files : Tree, files.Sound → matches? files "[x].png" =
      some (((files.entriesAt []).filter fun name => fits bracketPattern name.toList).map (extend ".")) := by
    intro files hsound
    have hplace : files.follow [] (Files.names (startOf "[x].png") ++ Files.namesOf []) = .ok [] := rfl
    exact (Files.Glob.matches?_of_last hsound hparts (by simp) (fun _ => by decide) hplace rfl hparse rfl
      (by decide) (by decide)).2
  have hother : fits bracketPattern "x.png".toList = true := by cbv
  have hself : fits bracketPattern "[x].png".toList = false := by cbv
  have hdirectory : fits bracketPattern "tex".toList = false := by cbv
  refine ⟨by decide +kernel, ?_, ?_⟩
  · have hentries : bracketed.entriesAt [] = ["[x].png", "tex", "x.png"] :=
      List.mergeSort_of_pairwise (by decide)
    rw [Job.inputs, hpattern, hmatches bracketed (by decide), hentries]
    simp only [List.filter, hself, hdirectory, hother]
    rfl
  · have hentries : Tree.entriesAt ⟨[(["[x].png"], "")]⟩ [] = ["[x].png"] := List.mergeSort_singleton _
    rw [Job.inputs, hpattern, hmatches ⟨[(["[x].png"], "")]⟩ (by decide), hentries]
    simp only [List.filter, hself]
    rfl

end ShaderMigration.Texture

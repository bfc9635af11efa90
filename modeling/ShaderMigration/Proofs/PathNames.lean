import ShaderMigration.Files.Tree
import ShaderMigration.Proofs.SceneEdits
import ShaderMigration.Proofs.WrittenParts

namespace ShaderMigration.Files

variable {name before : List Char} {parts : List (List Char)} {path : String}

theorem split_ne_nil (cs : List Char) : split cs ≠ [] := by
  induction cs with
  | nil => simp [split]
  | cons c cs ih =>
    obtain ⟨part, rest, hparts⟩ := List.exists_cons_of_ne_nil ih
    simp only [split] at hparts ⊢
    rw [List.foldr_cons, hparts]
    dsimp only
    split <;> simp

theorem split_cons {c : Char} {cs part : List Char} {rest : List (List Char)}
    (h : split cs = part :: rest) :
    split (c :: cs) = if c == '/' then [] :: part :: rest else (c :: part) :: rest := by
  simp only [split] at h ⊢
  rw [List.foldr_cons, h]

theorem split_eq_splitOn (cs : List Char) : split cs = cs.splitOn '/' := by
  induction cs with
  | nil => rfl
  | cons c cs ih =>
    obtain ⟨part, rest, hparts⟩ := List.exists_cons_of_ne_nil (split_ne_nil cs)
    rw [split_cons hparts, List.splitOn, List.splitOnP_cons_eq_if_modifyHead, ← List.splitOn, ← ih,
      hparts]
    rfl

/-- The parts of a path spell it, with slashes between them. -/
theorem eq_of_split {cs first : List Char} {more : List (List Char)} (h : split cs = first :: more) :
    cs = first ++ more.flatMap ('/' :: ·) := by
  induction cs generalizing first more with
  | nil =>
    cases h
    rfl
  | cons c cs ih =>
    obtain ⟨part, rest, hparts⟩ := List.exists_cons_of_ne_nil (split_ne_nil cs)
    rw [split_cons hparts] at h
    rw [ih hparts]
    by_cases hc : c = '/'
    · rw [if_pos (beq_iff_eq.mpr hc)] at h
      cases h
      rw [hc]
      rfl
    · rw [if_neg (by simpa using hc)] at h
      cases h
      rfl

theorem split_append_slash (xs ys : List Char) : split (xs ++ '/' :: ys) = split xs ++ split ys := by
  simp only [split_eq_splitOn, List.splitOn]
  exact List.splitOnP_append_cons xs ys rfl

theorem split_of_name (h : '/' ∉ name) : split name = [name] := by
  rw [split_eq_splitOn, List.splitOn_eq_singleton h]

theorem of_mem_split {cs : List Char} (h : name ∈ split cs) : '/' ∉ name ∧ ∀ c ∈ name, c ∈ cs := by
  induction cs generalizing name with
  | nil =>
    obtain rfl : name = [] := by simpa [split] using h
    simp
  | cons c cs ih =>
    obtain ⟨part, rest, hparts⟩ := List.exists_cons_of_ne_nil (split_ne_nil cs)
    have hlater : ∀ {later}, later ∈ split cs → '/' ∉ later ∧ ∀ d ∈ later, d ∈ c :: cs := fun hm =>
      ⟨(ih hm).1, fun d hd => List.mem_cons_of_mem c ((ih hm).2 d hd)⟩
    rw [split_cons hparts] at h
    rw [hparts] at hlater
    by_cases hc : c = '/'
    · rw [if_pos (beq_iff_eq.mpr hc)] at h
      rcases List.mem_cons.mp h with rfl | h
      · simp
      · exact hlater h
    · rw [if_neg (by simpa using hc)] at h
      rcases List.mem_cons.mp h with rfl | h
      · obtain ⟨hslash, hpart⟩ := hlater List.mem_cons_self
        simpa [hslash, Ne.symm hc] using hpart
      · exact hlater (List.mem_cons_of_mem _ h)

def namesOf (parts : List (List Char)) : List String :=
  (parts.filter fun name => !name.isEmpty && name != ['.']).map String.ofList

theorem names_eq (path : String) :
    names path = if isAbsolute path then "/" :: namesOf (split path.toList)
      else namesOf (split path.toList) := rfl

theorem namesOf_append (parts more : List (List Char)) :
    namesOf (parts ++ more) = namesOf parts ++ namesOf more := by
  simp [namesOf]

theorem namesOf_cons (name : List Char) (parts : List (List Char)) :
    namesOf (name :: parts) = namesOf [name] ++ namesOf parts :=
  namesOf_append [name] parts

theorem namesOf_name (hname : name ≠ []) (hdot : name ≠ ['.']) :
    namesOf [name] = [String.ofList name] := by
  simp [namesOf, hname, hdot]

/-- Where the last part is a name there is a name. -/
theorem exists_namesOf_eq_cons (hparts : parts ≠ [])
    (hlast : ∀ last ∈ parts.getLast?, last ≠ [] ∧ last ≠ ['.']) :
    ∃ first more, namesOf parts = first :: more := by
  obtain ⟨hname, hdot⟩ := hlast _ (List.getLast?_eq_some_getLast hparts)
  refine List.exists_cons_of_ne_nil fun hnone => ?_
  rw [← List.dropLast_append_getLast hparts, namesOf_append, namesOf_name hname hdot] at hnone
  exact List.cons_ne_nil _ _ (List.append_eq_nil_iff.mp hnone).2

theorem dropTrailing_cons (c : Char) (cs : List Char) :
    dropTrailing (c :: cs) =
      if c = '/' ∧ (dropTrailing cs = [] ∨ dropTrailing cs = ['.']) then []
      else c :: dropTrailing cs := by
  unfold dropTrailing
  rw [List.foldr_cons]
  generalize List.foldr _ [] cs = kept
  split
  next => by_cases hc : c = '/' <;> simp [hc]
  next => by_cases hc : c = '/' <;> simp [hc]
  next hnil hdot => rw [if_neg fun h => h.2.elim hnil hdot]

theorem dropTrailing_of_name (h : '/' ∉ name) : dropTrailing name = name := by
  induction name with
  | nil => rfl
  | cons c name ih =>
    obtain ⟨hc, hname⟩ := not_or.mp (mt List.mem_cons.mpr h)
    rw [dropTrailing_cons, ih hname, if_neg fun heq => hc heq.1.symm]

theorem dropTrailing_append (h : '/' ∉ name) (hname : name ≠ []) (hdot : name ≠ ['.']) :
    dropTrailing (before ++ name) = before ++ name := by
  induction before with
  | nil => exact dropTrailing_of_name h
  | cons c before ih =>
    rw [List.cons_append, dropTrailing_cons, ih, if_neg]
    rintro ⟨-, hnil | hone⟩
    · exact hname (List.append_eq_nil_iff.mp hnil).2
    · rcases List.append_eq_singleton_iff.mp hone with ⟨-, heq⟩ | ⟨-, heq⟩
      · exact hdot heq
      · exact hname heq

/-- A path of which nothing is dropped ends in a name, unless it is empty or a dot. -/
theorem getLast_split_of_dropTrailing {cs : List Char} (h : dropTrailing cs = cs) :
    ∀ last ∈ (split cs).getLast?, (last = [] → cs = []) ∧ (last = ['.'] → cs = ['.']) := by
  induction cs with
  | nil => simp [split]
  | cons c cs ih =>
    obtain ⟨part, rest, hparts⟩ := List.exists_cons_of_ne_nil (split_ne_nil cs)
    rw [dropTrailing_cons] at h
    split at h
    next => cases h
    next hends =>
      have hcs : dropTrailing cs = cs := List.tail_eq_of_cons_eq h
      rw [hcs] at hends
      have hlast := ih hcs
      intro last hm
      rw [split_cons hparts] at hm
      -- without a later slash, `c` belongs to the last part or is the slash in front of it
      cases rest with
      | nil =>
        have hpart : part = cs := by simpa using (eq_of_split hparts).symm
        subst hpart
        by_cases hc : c = '/'
        · obtain rfl : last = part := by simpa [hc] using hm.symm
          exact ⟨fun hnil => absurd ⟨hc, Or.inl hnil⟩ hends, fun hdot => absurd ⟨hc, Or.inr hdot⟩ hends⟩
        · obtain rfl : last = c :: part := by simpa [hc] using hm.symm
          exact ⟨nofun, id⟩
      | cons later rest =>
        have hm' : last ∈ (split cs).getLast? := by
          rw [hparts]
          split at hm <;> simpa using hm
        have hcases := hlast last hm'
        constructor
        · intro hnil
          rw [hcases.1 hnil] at hparts
          cases hparts
        · intro hdot
          rw [hcases.2 hdot] at hparts
          cases hparts

namespace Tree

variable {tree : Tree} {place found : List String}

/-- No file lies where a directory is. -/
def Sound (tree : Tree) : Prop := ∀ file ∈ tree.files, tree.isDirectoryAt file.1 = false

instance : DecidablePred Sound := fun tree =>
  inferInstanceAs (Decidable (∀ file ∈ tree.files, tree.isDirectoryAt file.1 = false))

theorem Sound.content?_eq_none (h : tree.Sound) (hplace : tree.isDirectoryAt place = true) :
    tree.content? place = none := by
  cases hcontent : tree.content? place with
  | none => rfl
  | some content =>
    have hmem : (place, content) ∈ tree.files := Entries.mem_of_find? hcontent
    cases hplace.symm.trans (h _ hmem)

theorem follow_append (tree : Tree) (place first second : List String) :
    tree.follow place (first ++ second) =
      tree.follow place first >>= fun between => tree.follow between second := by
  induction first generalizing place with
  | nil => rfl
  | cons name first ih =>
    simp only [List.cons_append, follow]
    split
    next =>
      split
      next =>
        cases above? place with
        | none => rfl
        | some outer => exact ih outer
      next => exact ih _
    next => split <;> rfl

/-- Only a directory can be left for a name below it. -/
theorem isDirectoryAt_of_follow {name : String} {names : List String}
    (h : tree.follow place (name :: names) = .ok found) : tree.isDirectoryAt place = true := by
  rw [follow] at h
  split at h
  next hplace => exact hplace
  next => split at h <;> cases h

theorem exists_of_isFile (h : tree.isFile path = true) :
    ∃ found, tree.locate path = .ok found ∧ (tree.content? found).isSome := by
  unfold isFile at h
  split at h
  next found hlocate => exact ⟨found, hlocate, h⟩
  next => cases h

/-- A name leads from a directory to its entry of that name, unless it leads out of the directory. -/
theorem of_follow_name {name : String} (hname : name ≠ "..") (h : tree.follow place [name] = .ok found) :
    tree.isDirectoryAt place = true ∧ found = place ++ [name] := by
  have hdirectory := isDirectoryAt_of_follow h
  have hup : (name == "..") = false := beq_eq_false_iff_ne.mpr hname
  rw [follow, hdirectory, hup] at h
  exact ⟨hdirectory, (Except.ok.inj h).symm⟩

/-- A path leads where its names lead, if nothing but a directory has to be there. -/
theorem locate_eq_ok_iff : tree.locate path = .ok place ↔
    path ≠ "" ∧ tree.follow [] (names path) = .ok place ∧
      (dropTrailing path.toList = path.toList ∨ tree.content? place = none) := by
  unfold locate
  by_cases hpath : path = ""
  · simp [hpath, throw, throwThe, MonadExceptOf.throw, bind, Except.bind]
  · have hempty : path.isEmpty = false := by simpa [String.isEmpty_iff] using hpath
    rw [hempty]
    cases tree.follow [] (names path) with
    | error cause => simp [bind, Except.bind]
    | ok found =>
      by_cases hends : dropTrailing path.toList = path.toList
      · simp [hpath, hends, bind, Except.bind, pure, Except.pure]
      · have hmissing : found = place → (tree.content? found = none ↔ tree.content? place = none) := by
          rintro rfl
          rfl
        cases hcontent : tree.content? found with
        | none =>
          simp only [hcontent] at hmissing
          simpa [hpath, hends, hcontent, bind, Except.bind, pure, Except.pure] using hmissing
        | some content =>
          simp only [hcontent] at hmissing
          simpa [hpath, hends, hcontent, bind, Except.bind, throw, throwThe, MonadExceptOf.throw]
            using hmissing

theorem locate_of_directory (hsound : tree.Sound) (hpath : path ≠ "")
    (hplace : tree.follow [] (names path) = .ok place) (hdirectory : tree.isDirectoryAt place = true) :
    tree.locate path = .ok place :=
  locate_eq_ok_iff.mpr ⟨hpath, hplace, Or.inr (hsound.content?_eq_none hdirectory)⟩

theorem isDirectory_of_names (hsound : tree.Sound) (hpath : path ≠ "")
    (hplace : tree.follow [] (names path) = .ok place) (hdirectory : tree.isDirectoryAt place = true) :
    tree.isDirectory path = true := by
  rw [isDirectory, locate_of_directory hsound hpath hplace hdirectory]
  exact hdirectory

end Tree

end ShaderMigration.Files

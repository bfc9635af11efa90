import ShaderMigration.Proofs.OptionalLists
import ShaderMigration.Proofs.PatternExpansion

namespace ShaderMigration.Files.Glob

variable {tree : Tree} {place found : List String} {path : String} {last : List Char}
variable {parts before : List (List Char)} {patterns : List NamePattern}

theorem startOf_ne_empty (path : String) : startOf path ≠ "" := by
  unfold startOf
  split <;> decide

/-- The root of an absolute path stands in front of its other parts. -/
theorem start_cases (path : String) :
    (isAbsolute path = true ∧ startOf path = "/" ∧ split path.toList = [] :: split (behindStart path)) ∨
      (isAbsolute path = false ∧ startOf path = "." ∧ split path.toList = split (behindStart path)) := by
  unfold startOf behindStart
  cases habsolute : isAbsolute path with
  | true =>
    obtain ⟨cs, hcs⟩ : ∃ cs, path.toList = '/' :: cs :=
      List.head?_eq_some_iff.mp (beq_iff_eq.mp habsolute)
    rw [hcs]
    exact Or.inl ⟨rfl, rfl, split_append_slash [] cs⟩
  | false => exact Or.inr ⟨rfl, rfl, rfl⟩

theorem names_startOf (path : String) :
    names path = names (startOf path) ++ namesOf (split (behindStart path)) := by
  rw [names_eq path]
  rcases start_cases path with ⟨habsolute, hstart, hsplit⟩ | ⟨hrelative, hstart, hsplit⟩
  · rw [habsolute, hstart, hsplit, namesOf_cons]
    rfl
  · rw [hrelative, hstart, hsplit]
    rfl

theorem getLast?_split_behindStart (path : String) :
    (split (behindStart path)).getLast? = (split path.toList).getLast? := by
  rcases start_cases path with ⟨_, _, hsplit⟩ | ⟨_, _, hsplit⟩
  · obtain ⟨first, more, hparts⟩ := List.exists_cons_of_ne_nil (split_ne_nil (behindStart path))
    rw [hsplit, hparts, List.getLast?_cons_cons]
  · rw [hsplit]

theorem mem_of_mem_behindStart {c : Char} (h : c ∈ behindStart path) : c ∈ path.toList := by
  unfold behindStart at h
  split at h
  next => exact List.mem_of_mem_tail h
  next => exact h

theorem head?_split (hpath : path ≠ "") (hrelative : isAbsolute path = false) :
    (split path.toList).head? ≠ some [] := by
  obtain ⟨first, more, hparts⟩ := List.exists_cons_of_ne_nil (split_ne_nil path.toList)
  rw [hparts]
  intro hhead
  obtain rfl : first = [] := by simpa using hhead
  have hspelled : path.toList = more.flatMap ('/' :: ·) := eq_of_split hparts
  cases more with
  | nil => exact hpath (String.toList_eq_nil_iff.mp hspelled)
  | cons later more =>
    rw [isAbsolute, hspelled] at hrelative
    simp at hrelative

/-- Dots at the front of a path, and then a name without a character. -/
def Broken (parts : List (List Char)) : Prop := parts.head? = some ['.'] ∧ Nameless parts

instance : DecidablePred Broken := fun parts =>
  inferInstanceAs (Decidable (parts.head? = some ['.'] ∧ Nameless parts))

theorem broken_iff (hpath : path ≠ "") :
    Broken (split path.toList) ↔ startOf path = "." ∧ Nameless (split (behindStart path)) := by
  rcases start_cases path with ⟨_, hstart, hsplit⟩ | ⟨hrelative, hstart, hsplit⟩
  · simp [Broken, hstart, hsplit]
  · have hhead := head?_split hpath hrelative
    rw [hsplit] at hhead ⊢
    refine ⟨fun h => ⟨hstart, h.2⟩, fun h => ⟨?_, h.2⟩⟩
    obtain ⟨first, more, hparts⟩ := List.exists_cons_of_ne_nil (split_ne_nil (behindStart path))
    have hnameless := h.2
    rw [hparts] at hhead hnameless ⊢
    by_cases hdot : first = ['.']
    · rw [hdot]
      rfl
    · rw [Nameless, List.dropWhile_cons_of_neg (by simpa using hdot)] at hnameless
      exact absurd hnameless hhead

theorem Nameless.append (h : Nameless parts) (more : List (List Char)) : Nameless (parts ++ more) := by
  obtain ⟨rest, hrest⟩ := List.head?_eq_some_iff.mp h
  rw [Nameless, List.dropWhile_append, hrest]
  rfl

/-- No name of the path is empty, and the first one is no dot. -/
def Tidy (parts : List (List Char)) : Prop := (∀ name ∈ parts.tail, name ≠ []) ∧ parts.head? ≠ some ['.']

instance : DecidablePred Tidy := fun parts =>
  inferInstanceAs (Decidable ((∀ name ∈ parts.tail, name ≠ []) ∧ parts.head? ≠ some ['.']))

theorem getLast?_append_name {name before : List Char} (h : '/' ∉ name) (hname : name ≠ []) :
    (before ++ name).getLast? ≠ some '/' := by
  rw [List.getLast?_append_of_ne_nil before hname]
  exact fun heq => h (List.mem_of_mem_getLast? heq)

theorem toList_spell (hpath : path ≠ "") (hdot : path ≠ ".")
    (hslash : path.toList.getLast? ≠ some '/') (hparts : ∀ name ∈ parts, '/' ∉ name ∧ name ≠ []) :
    (spell path parts).toList = path.toList ++ parts.flatMap ('/' :: ·) := by
  induction parts generalizing path with
  | nil => exact (List.append_nil _).symm
  | cons name rest ih =>
    obtain ⟨⟨hname, hnonempty⟩, hrest⟩ := List.forall_mem_cons.mp hparts
    have htext : (extend path (String.ofList name)).toList = path.toList ++ '/' :: name := by
      rw [toList_extend hpath hname, if_neg hdot, if_neg hslash]
    have hnext : extend path (String.ofList name) ≠ "." := fun heq =>
      hdot ((extend_eq_dot_iff hpath hname).mp heq).1
    have hlast : (extend path (String.ofList name)).toList.getLast? ≠ some '/' := by
      obtain ⟨before, hbefore⟩ := exists_toList_extend hpath hname
      rw [hbefore]
      exact getLast?_append_name hname hnonempty
    have hnonemptyPath : extend path (String.ofList name) ≠ "" := by
      rw [Ne, ← String.toList_eq_nil_iff, htext]
      simp
    rw [spell_cons, ih hnonemptyPath hnext hlast hrest, htext]
    simp

/-- The first name of a tidy path behind its start, and how the path goes on behind it. -/
theorem first_of_tidy {first : List Char} {more : List (List Char)} (hpath : path ≠ "")
    (htidy : Tidy (split path.toList)) (hparts : split (behindStart path) = first :: more) :
    first ≠ [] ∧ (startOf path = "." → first ≠ ['.']) ∧ (∀ name ∈ more, name ≠ []) ∧
      path.toList =
        (extend (startOf path) (String.ofList first)).toList ++ more.flatMap ('/' :: ·) := by
  have hname : '/' ∉ first := (of_mem_split (hparts ▸ List.mem_cons_self)).1
  have hnext := toList_extend (startOf_ne_empty path) hname
  rcases start_cases path with ⟨_, hstart, hsplit⟩ | ⟨hrelative, hstart, hsplit⟩
  · rw [hparts] at hsplit
    rw [hsplit] at htidy
    obtain ⟨hfirst, hmore⟩ := List.forall_mem_cons.mp htidy.1
    refine ⟨hfirst, fun hdot => absurd (hstart.symm.trans hdot) (by decide), hmore, ?_⟩
    have hslash : "/".toList.getLast? = some '/' := rfl
    rw [hstart, if_neg (by decide), if_pos hslash] at hnext
    rw [hstart, hnext, eq_of_split hsplit]
    rfl
  · have hhead := head?_split hpath hrelative
    rw [hparts] at hsplit
    rw [hsplit] at htidy hhead
    refine ⟨fun hnil => hhead (congrArg some hnil), fun _ hdot => htidy.2 (congrArg some hdot),
      htidy.1, ?_⟩
    rw [hstart, if_pos rfl] at hnext
    rw [hstart, hnext, eq_of_split hsplit]

/-- A tidy path is spelled as it is written. -/
theorem spell_split (hpath : path ≠ "") (htidy : Tidy (split path.toList)) :
    spell (startOf path) (split (behindStart path)) = path := by
  obtain ⟨first, more, hparts⟩ := List.exists_cons_of_ne_nil (split_ne_nil (behindStart path))
  obtain ⟨hfirst, hdot, hmore, htext⟩ := first_of_tidy hpath htidy hparts
  have hslash : ∀ name ∈ first :: more, '/' ∉ name := fun name hm => (of_mem_split (hparts ▸ hm)).1
  obtain ⟨hname, hslashes⟩ := List.forall_mem_cons.mp hslash
  have hstart := startOf_ne_empty path
  have hnext : extend (startOf path) (String.ofList first) ≠ "." := fun heq =>
    hdot ((extend_eq_dot_iff hstart hname).mp heq).1 ((extend_eq_dot_iff hstart hname).mp heq).2
  have hnonempty : extend (startOf path) (String.ofList first) ≠ "" := by
    obtain ⟨before, hbefore⟩ := exists_toList_extend hstart hname
    rw [Ne, ← String.toList_eq_nil_iff, hbefore]
    simp [hfirst]
  have hlast : (extend (startOf path) (String.ofList first)).toList.getLast? ≠ some '/' := by
    obtain ⟨before, hbefore⟩ := exists_toList_extend hstart hname
    rw [hbefore]
    exact getLast?_append_name hname hfirst
  rw [← String.toList_inj, hparts, spell_cons,
    toList_spell hnonempty hnext hlast fun name hm => ⟨hslashes name hm, hmore name hm⟩, ← htext]

theorem getLast?_ne_slash {cs : List Char} (hlast : ∀ last ∈ (split cs).getLast?, last ≠ []) :
    cs.getLast? ≠ some '/' := by
  intro hslash
  obtain ⟨xs, rfl⟩ := List.getLast?_eq_some_iff.mp hslash
  rw [split_append_slash] at hlast
  exact hlast [] (by simp [split]) rfl

theorem matches?_eq (tree : Tree) (hparse : (parse? true path.toList).isSome)
    (hpatterns : (split (behindStart path)).mapM (parse? true) = some patterns)
    (hplain : ∀ pattern ∈ patterns, pattern.contains .anyDirectories = false)
    (hlast : ∀ last ∈ (split path.toList).getLast?, last ≠ []) :
    matches? tree path = some (expand tree (bound tree patterns) patterns (startOf path)) := by
  have hend : ((split (behindStart path)).getLast? == some []) = false := by
    rw [getLast?_split_behindStart, beq_eq_false_iff_ne]
    exact fun heq => hlast [] heq rfl
  have hslash : (path.toList.getLast? == some '/') = false :=
    beq_eq_false_iff_ne.mpr (getLast?_ne_slash hlast)
  have hnames : namePatterns? (behindStart path) = some patterns := by
    unfold namePatterns?
    dsimp only
    rw [hend]
    exact hpatterns
  obtain ⟨whole, hwhole⟩ := Option.isSome_iff_exists.mp hparse
  unfold matches?
  rw [hwhole, hnames]
  simp only [collapse_eq hplain, hslash, bind, Option.bind, if_false, Bool.false_eq_true]
  rfl

theorem mapM_parse?_of_plain (h : ∀ name ∈ parts, ∀ c ∈ name, isWildcard c = false) :
    parts.mapM (parse? true) = some (parts.map (·.map .char)) :=
  mapM_eq_some_map fun name hm => parse?_of_plain (h name hm) true

theorem not_mem_anyDirectories_of_plain :
    ∀ pattern ∈ parts.map (·.map Part.char), pattern.contains .anyDirectories = false := by
  intro pattern hm
  obtain ⟨name, _, rfl⟩ := List.mem_map.mp hm
  simp

/-- A path is no pattern if it is none as a whole or if one of its names is none. -/
theorem matches?_eq_none (tree : Tree)
    (h : parse? true path.toList = none ∨ ∃ name ∈ split path.toList, parse? true name = none) :
    matches? tree path = none := by
  unfold matches?
  rcases h with hpath | ⟨name, hm, hname⟩
  · rw [hpath]
    rfl
  · -- the name that a slash at the end begins is dropped, but nothing is wrong with an empty one
    have hne : name ≠ [] := by
      rintro rfl
      rw [parse?] at hname
      cases hname
    have hbehind : name ∈ split (behindStart path) := by
      rcases start_cases path with ⟨_, _, hsplit⟩ | ⟨_, _, hsplit⟩
      · rw [hsplit] at hm
        exact (List.mem_cons.mp hm).resolve_left hne
      · exact hsplit ▸ hm
    have hnames : namePatterns? (behindStart path) = none := by
      unfold namePatterns?
      refine mapM_eq_none ?_ hname
      split
      next hlast =>
        obtain ⟨xs, hxs⟩ := List.getLast?_eq_some_iff.mp (beq_iff_eq.mp (Bool.and_eq_true_iff.mp hlast).1)
        rw [hxs, List.dropLast_concat]
        rw [hxs] at hbehind
        exact (List.mem_append.mp hbehind).resolve_right fun h => hne (List.mem_singleton.mp h)
      next => exact hbehind
    rw [hnames]
    cases parse? true path.toList <;> rfl

theorem last_of_file (hsound : tree.Sound) (hlocate : tree.locate path = .ok found)
    (hfile : (tree.content? found).isSome) :
    ∀ last ∈ (split path.toList).getLast?, last ≠ [] ∧ last ≠ ['.'] := by
  obtain ⟨hpath, hfollow, hends⟩ := Tree.locate_eq_ok_iff.mp hlocate
  have hwritten := hends.resolve_right (Option.isSome_iff_ne_none.mp hfile)
  intro last hm
  obtain ⟨hempty, hdot⟩ := getLast_split_of_dropTrailing hwritten last hm
  constructor
  · exact fun hnil => hpath (String.toList_eq_nil_iff.mp (hempty hnil))
  · intro hone
    obtain rfl : path = "." := String.toList_inj.mp (hdot hone)
    obtain rfl : [] = found := Except.ok.inj hfollow
    rw [hsound.content?_eq_none rfl] at hfile
    cases hfile

theorem arrives_of_file (hsound : tree.Sound) (hlocate : tree.locate path = .ok found)
    (hfile : (tree.content? found).isSome) : Arrives tree (split (behindStart path)) found :=
  Or.inr ⟨hfile, getLast?_split_behindStart path ▸ last_of_file hsound hlocate hfile⟩

theorem not_nameless_of_not_broken (hpath : path ≠ "") (hwhole : ¬ Broken (split path.toList))
    (hstart : startOf path = ".") : ¬ Nameless (split (behindStart path)) := fun hnameless =>
  hwhole ((broken_iff hpath).mpr ⟨hstart, hnameless⟩)

/-- A file whose path has no wildcard is all that its path leads to. -/
theorem matches?_of_plain (hsound : tree.Sound) (hlocate : tree.locate path = .ok found)
    (hfile : (tree.content? found).isSome) (h : ∀ c ∈ path.toList, isWildcard c = false) :
    matches? tree path = some
      (if Broken (split path.toList) then [] else [spell (startOf path) (split (behindStart path))]) := by
  obtain ⟨hpath, hfollow, _⟩ := Tree.locate_eq_ok_iff.mp hlocate
  have hlast := last_of_file hsound hlocate hfile
  have hplain : ∀ name ∈ split (behindStart path), ∀ c ∈ name, isWildcard c = false :=
    fun name hm c hc => h c (mem_of_mem_behindStart ((of_mem_split hm).2 c hc))
  have hparse : (parse? true path.toList).isSome := by rw [parse?_of_plain h]; rfl
  have hmatches := matches?_eq tree hparse (mapM_parse?_of_plain hplain) not_mem_anyDirectories_of_plain
    fun last hm => (hlast last hm).1
  have hdepth : (split (behindStart path)).length <
      bound tree ((split (behindStart path)).map (·.map .char)) := by
    simpa using length_lt_bound tree ((split (behindStart path)).map (·.map Part.char))
  rw [hmatches]
  congr 1
  split
  next hbroken =>
    obtain ⟨hstart, hnameless⟩ := (broken_iff hpath).mp hbroken
    have hnothing := expand_nameless tree
      (bound tree ((split (behindStart path)).map (·.map .char))) [] hnameless
    rwa [hstart, List.append_nil] at *
  next hwhole =>
    rw [names_startOf, Tree.follow_append] at hfollow
    obtain ⟨place, hplace, hfound⟩ := except_bind_eq_ok_iff.mp hfollow
    have hbelow := expand_append hsound hdepth (startOf_ne_empty path) hplace
      (fun name hm => (of_mem_split hm).1) (not_nameless_of_not_broken hpath hwhole) hfound
      (arrives_of_file hsound hlocate hfile) []
    obtain ⟨more, hmore⟩ := Nat.exists_eq_add_of_lt hdepth
    rw [List.append_nil, hmore, Nat.add_assoc, Nat.add_sub_cancel_left, expand] at hbelow
    rw [hmore, Nat.add_assoc, hbelow]

/-- A name with wildcards leads to the entries that it fits; those that start with a dot have names of
their own. -/
theorem expand_name (hlocate : tree.locate path = .ok place)
    (hdirectory : tree.isDirectoryAt place = true) {pattern : NamePattern} {depth : Nat}
    (hdepth : 1 < depth) (hliteral : literal? pattern = none) (hnames : .anyDirectories ∉ pattern)
    (hdot : pattern.head? ≠ some (.char '.')) :
    expand tree depth [pattern] path =
      ((tree.entriesAt place).filter fun name => fits pattern name.toList).map (extend path) := by
  obtain ⟨depth, rfl⟩ := Nat.exists_eq_add_of_lt hdepth
  have hcontains : pattern.contains .anyDirectories = false := by simpa using hnames
  have hdots : dotNames pattern = [] := if_neg (by simpa using hdot)
  have hentries : tree.entries path = .ok (tree.entriesAt place) := by
    unfold Tree.entries
    rw [hlocate]
    simp [hdirectory, bind, Except.bind, pure, Except.pure]
  have hend : ∀ name, expand tree (1 + depth) [] name = [name] := by
    intro name
    rw [Nat.add_comm, expand]
  rw [expand, hliteral, hentries, hcontains, List.map_eq_flatMap]
  simp [hdots, hend]

/-- A pattern in a plain directory is a pattern. -/
theorem isSome_parse?_of_last {cs : List Char} {pattern : NamePattern}
    (hparts : split cs = before ++ [last]) (hplain : ∀ name ∈ before, ∀ c ∈ name, isWildcard c = false)
    (hpattern : parse? true last = some pattern) : (parse? true cs).isSome := by
  cases before with
  | nil =>
    obtain rfl : cs = last := by simpa using eq_of_split hparts
    rw [hpattern]
    rfl
  | cons first more =>
    obtain ⟨hfirst, hmore⟩ := List.forall_mem_cons.mp hplain
    have hspelled : cs = (first ++ more.flatMap ('/' :: ·)) ++ '/' :: last := by
      rw [eq_of_split hparts]
      simp
    have hchars : ∀ c ∈ first ++ more.flatMap ('/' :: ·), isWildcard c = false := by
      intro c hc
      rcases List.mem_append.mp hc with hc | hc
      · exact hfirst c hc
      · obtain ⟨name, hm, hc⟩ := List.mem_flatMap.mp hc
        rcases List.mem_cons.mp hc with rfl | hc
        · rfl
        · exact hmore name hm c hc
    rw [hspelled, parse?_append_slash hchars, hpattern]
    rfl

/-- A name with wildcards behind plain ones leads to the entries of the directory where these arrive. -/
theorem matches?_of_last {dirs : List (List Char)} {pattern : NamePattern} (hsound : tree.Sound)
    (hparts : split (behindStart path) = dirs ++ [last])
    (hplain : ∀ name ∈ dirs, ∀ c ∈ name, isWildcard c = false)
    (hwhole : startOf path = "." → ¬ Nameless dirs)
    (hplace : tree.follow [] (names (startOf path) ++ namesOf dirs) = .ok place)
    (hdirectory : tree.isDirectoryAt place = true) (hpattern : parse? true last = some pattern)
    (hliteral : literal? pattern = none) (hnames : .anyDirectories ∉ pattern)
    (hdot : pattern.head? ≠ some (.char '.')) :
    tree.locate (spell (startOf path) dirs) = .ok place ∧
      matches? tree path = some (((tree.entriesAt place).filter fun name => fits pattern name.toList).map
        (extend (spell (startOf path) dirs))) := by
  have hslash : ∀ name ∈ dirs, '/' ∉ name := fun name hm =>
    (of_mem_split (hparts ▸ List.mem_append_left [last] hm)).1
  have hend : Arrives tree dirs place := Or.inl hdirectory
  have hlocate : tree.locate (spell (startOf path) dirs) = .ok place :=
    locate_spell hsound (startOf_ne_empty path) hslash hwhole hplace hend fun _ => hdirectory
  have hlast : ∀ name ∈ (split path.toList).getLast?, name ≠ [] := by
    rw [← getLast?_split_behindStart, hparts, List.getLast?_concat]
    rintro name ⟨⟩
    exact (name_of_literal? hpattern hliteral).1
  have hparse : (parse? true path.toList).isSome := by
    rcases start_cases path with ⟨_, _, hsplit⟩ | ⟨_, _, hsplit⟩
    · have hroot : ∀ name ∈ [] :: dirs, ∀ c ∈ name, isWildcard c = false :=
        List.forall_mem_cons.mpr ⟨nofun, hplain⟩
      exact isSome_parse?_of_last (hsplit.trans (congrArg _ hparts)) hroot hpattern
    · exact isSome_parse?_of_last (hsplit.trans hparts) hplain hpattern
  have hpatterns : (split (behindStart path)).mapM (parse? true) =
      some (dirs.map (·.map .char) ++ [pattern]) := by
    rw [hparts, List.mapM_append, mapM_parse?_of_plain hplain, List.mapM_cons, hpattern]
    rfl
  have hnone : ∀ pattern' ∈ dirs.map (·.map .char) ++ [pattern],
      pattern'.contains .anyDirectories = false := by
    intro pattern' hm
    rcases List.mem_append.mp hm with hm | hm
    · exact not_mem_anyDirectories_of_plain pattern' hm
    · obtain rfl := List.mem_singleton.mp hm
      simpa using hnames
  have hdepth : dirs.length + 1 < bound tree (dirs.map (·.map .char) ++ [pattern]) := by
    have hlt := length_lt_bound tree (dirs.map (·.map .char) ++ [pattern])
    rwa [List.length_append, List.length_map, List.length_singleton] at hlt
  have hmatches := matches?_eq tree hparse hpatterns hnone hlast
  rw [Tree.follow_append] at hplace
  obtain ⟨start, hstart, hfound⟩ := except_bind_eq_ok_iff.mp hplace
  refine ⟨hlocate, ?_⟩
  rw [hmatches, expand_append hsound (Nat.lt_of_succ_lt hdepth) (startOf_ne_empty path) hstart hslash
    hwhole hfound hend, expand_name hlocate hdirectory (by omega) hliteral hnames hdot]

/-- The path of a file is spelled below its start as one that leads there. -/
theorem locate_spelled (hsound : tree.Sound) (hlocate : tree.locate path = .ok found)
    (hfile : (tree.content? found).isSome) (hwhole : ¬ Broken (split path.toList)) :
    tree.locate (spell (startOf path) (split (behindStart path))) = .ok found ∧
      (Tidy (split path.toList) → spell (startOf path) (split (behindStart path)) = path) := by
  obtain ⟨hpath, hfollow, _⟩ := Tree.locate_eq_ok_iff.mp hlocate
  rw [names_startOf] at hfollow
  exact ⟨locate_spell hsound (startOf_ne_empty path) (fun name hm => (of_mem_split hm).1)
    (not_nameless_of_not_broken hpath hwhole) hfollow (arrives_of_file hsound hlocate hfile)
    fun hnil => absurd hnil (split_ne_nil _), spell_split hpath⟩

/-- Names in front of the last one, as the parts of a path behind its start. -/
theorem exists_dirs {before : List (List Char)} {last : List Char} (hlast : last ≠ [])
    (hparts : split path.toList = before ++ [last]) :
    ∃ dirs, split (behindStart path) = dirs ++ [last] ∧ (∀ name ∈ dirs, name ∈ before) ∧
      (before = [] → dirs = [] ∧ startOf path = ".") := by
  rcases start_cases path with ⟨_, _, hsplit⟩ | ⟨_, hstart, hsplit⟩
  · rw [hsplit] at hparts
    cases before with
    | nil => exact absurd (List.cons_eq_cons.mp hparts).1.symm hlast
    | cons first dirs =>
      obtain ⟨rfl, hdirs⟩ := List.cons_eq_cons.mp hparts
      exact ⟨dirs, hdirs, fun name hm => List.mem_cons_of_mem _ hm, nofun⟩
  · exact ⟨before, hsplit ▸ hparts, fun name hm => hm, fun hnil => ⟨hnil, hstart⟩⟩

/-- A last name with wildcards behind plain ones leads to what it fits in the directory of the file. -/
theorem exists_matches_of_last {pattern : NamePattern} (hsound : tree.Sound)
    (hlocate : tree.locate path = .ok found) (hparts : split path.toList = before ++ [last])
    (hplain : ∀ name ∈ before, ∀ c ∈ name, isWildcard c = false)
    (hwhole : ¬ Broken (split path.toList)) (hpattern : parse? true last = some pattern)
    (hliteral : literal? pattern = none) (hnames : .anyDirectories ∉ pattern)
    (hdot : pattern.head? ≠ some (.char '.')) :
    ∃ directory place, tree.locate directory = .ok place ∧ found = place ++ [String.ofList last] ∧
      (Tidy (split path.toList) → extend directory (String.ofList last) = path) ∧
      (before = [] → directory = ".") ∧
      matches? tree path = some (((tree.entriesAt place).filter fun name => fits pattern name.toList).map
        (extend directory)) := by
  obtain ⟨hpath, hfollow, _⟩ := Tree.locate_eq_ok_iff.mp hlocate
  obtain ⟨hnonempty, hone, htwo⟩ := name_of_literal? hpattern hliteral
  have hup : String.ofList last ≠ ".." := fun heq => htwo (by simpa using congrArg String.toList heq)
  obtain ⟨dirs, hbehind, hdirs, hnone⟩ := exists_dirs hnonempty hparts
  have hdirsWhole : startOf path = "." → ¬ Nameless dirs := fun hstart hnameless =>
    not_nameless_of_not_broken hpath hwhole hstart (hbehind ▸ hnameless.append [last])
  rw [names_startOf, hbehind, namesOf_append, namesOf_name hnonempty hone, ← List.append_assoc,
    Tree.follow_append] at hfollow
  obtain ⟨place, hplace, hentry⟩ := except_bind_eq_ok_iff.mp hfollow
  obtain ⟨hdirectory, rfl⟩ := Tree.of_follow_name hup hentry
  obtain ⟨hlead, hmatches⟩ := matches?_of_last hsound hbehind
    (fun name hm => hplain name (hdirs name hm)) hdirsWhole hplace hdirectory hpattern hliteral hnames hdot
  refine ⟨spell (startOf path) dirs, place, hlead, rfl, fun htidy => ?_, fun hnil => ?_, hmatches⟩
  · rw [← spell_concat, ← hbehind, spell_split hpath htidy]
  · obtain ⟨rfl, hstart⟩ := hnone hnil
    exact hstart

end ShaderMigration.Files.Glob

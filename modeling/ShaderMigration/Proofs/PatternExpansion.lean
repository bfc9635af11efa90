import ShaderMigration.Files.Glob
import ShaderMigration.Proofs.PathNames

namespace ShaderMigration.Files.Glob

variable {tree : Tree} {place found : List String} {path : String}
variable {name before : List Char} {parts : List (List Char)} {patterns : List NamePattern}

def isWildcard (c : Char) : Bool := c == '*' || c == '?' || c == '['

theorem parse?_cons_of_plain {c : Char} (h : isWildcard c = false) (start : Bool) (cs : List Char) :
    parse? start (c :: cs) = (parse? (c == '/') cs).map (.char c :: ·) := by
  rw [parse?]
  all_goals
    intros
    simp_all [isWildcard]

theorem parse?_of_plain {cs : List Char} (h : ∀ c ∈ cs, isWildcard c = false) (start : Bool) :
    parse? start cs = some (cs.map .char) := by
  induction cs generalizing start with
  | nil => rw [parse?, List.map_nil]
  | cons c cs ih =>
    obtain ⟨hc, hplain⟩ := List.forall_mem_cons.mp h
    rw [parse?_cons_of_plain hc, ih hplain, Option.map_some, List.map_cons]

/-- A pattern behind a plain directory is read like a pattern of its own. -/
theorem parse?_append_slash {xs : List Char} (h : ∀ c ∈ xs, isWildcard c = false) (start : Bool)
    (ys : List Char) :
    parse? start (xs ++ '/' :: ys) = (parse? true ys).map (xs.map .char ++ .char '/' :: ·) := by
  induction xs generalizing start with
  | nil => exact parse?_cons_of_plain rfl start ys
  | cons c xs ih =>
    obtain ⟨hc, hplain⟩ := List.forall_mem_cons.mp h
    rw [List.cons_append, parse?_cons_of_plain hc, ih hplain, Option.map_map]
    rfl

theorem literal?_map (name : List Char) : literal? (name.map .char) = some name := by
  induction name with
  | nil => rfl
  | cons c name ih => rw [List.map_cons, literal?, ih, Option.map_some]

/-- A name that is read as more than its characters has a wildcard in it. -/
theorem not_plain_of_literal? {pattern : NamePattern} (hpattern : parse? true name = some pattern)
    (hliteral : literal? pattern = none) : ¬ ∀ c ∈ name, isWildcard c = false := by
  intro hplain
  rw [parse?_of_plain hplain] at hpattern
  cases hpattern
  rw [literal?_map] at hliteral
  cases hliteral

theorem name_of_literal? {pattern : NamePattern} (hpattern : parse? true name = some pattern)
    (hliteral : literal? pattern = none) : name ≠ [] ∧ name ≠ ['.'] ∧ name ≠ ['.', '.'] := by
  have hwild := not_plain_of_literal? hpattern hliteral
  refine ⟨?_, ?_, ?_⟩ <;> rintro rfl <;> exact hwild (by simp [isWildcard])

theorem collapse_eq (h : ∀ pattern ∈ patterns, pattern.contains .anyDirectories = false) :
    collapse patterns = patterns := by
  fun_induction collapse patterns with
  | case1 first second rest hboth ih => simp_all
  | case2 first second rest _ ih => rw [ih fun pattern hm => h pattern (List.mem_cons_of_mem _ hm)]
  | case3 => rfl

theorem length_lt_bound (tree : Tree) (patterns : List NamePattern) :
    patterns.length < bound tree patterns := by
  have hle : ∀ (files : List (List String × String)) (n : Nat),
      n ≤ files.foldl (fun n file => n + file.1.length) n := by
    intro files
    induction files with
    | nil => exact fun n => Nat.le_refl n
    | cons file files ih => exact fun n => Nat.le_trans (Nat.le_add_right n _) (ih _)
  exact Nat.lt_add_of_pos_right (hle tree.files 1)

/-- The path that a list of names spells below another one. -/
def spell (path : String) (parts : List (List Char)) : String :=
  parts.foldl (fun path name => extend path (String.ofList name)) path

theorem spell_cons (path : String) (name : List Char) (rest : List (List Char)) :
    spell path (name :: rest) = spell (extend path (String.ofList name)) rest := rfl

theorem spell_concat (path : String) (parts : List (List Char)) (name : List Char) :
    spell path (parts ++ [name]) = extend (spell path parts) (String.ofList name) := by
  rw [spell, List.foldl_append]
  rfl

theorem toList_extend (hpath : path ≠ "") (h : '/' ∉ name) :
    (extend path (String.ofList name)).toList =
      if path = "." then name
      else if path.toList.getLast? = some '/' then path.toList ++ name
      else path.toList ++ '/' :: name := by
  have hname : isAbsolute (String.ofList name) = false := by
    rw [isAbsolute, String.toList_ofList, beq_eq_false_iff_ne]
    exact fun heq => h (List.mem_of_mem_head? heq)
  have hempty : path.isEmpty = false := by simpa [String.isEmpty_iff] using hpath
  unfold extend join
  rw [hname, hempty]
  by_cases hdot : path = "."
  · simp [hdot]
  · by_cases hslash : path.toList.getLast? = some '/' <;> simp [hdot, hslash]

theorem isAbsolute_extend (hpath : path ≠ "") (h : '/' ∉ name) :
    isAbsolute (extend path (String.ofList name)) = isAbsolute path := by
  have hchars : path.toList ≠ [] := mt String.toList_eq_nil_iff.mp hpath
  rw [isAbsolute, isAbsolute, toList_extend hpath h]
  split
  next hdot =>
    subst hdot
    rw [beq_eq_false_iff_ne.mpr fun heq => h (List.mem_of_mem_head? heq)]
    rfl
  next => split <;> rw [List.head?_append_of_ne_nil _ hchars]

theorem names_extend (hpath : path ≠ "") (h : '/' ∉ name) :
    names (extend path (String.ofList name)) = names path ++ namesOf [name] := by
  have hparts : namesOf (split (extend path (String.ofList name)).toList) =
      namesOf (split path.toList) ++ namesOf [name] := by
    rw [toList_extend hpath h]
    split
    next hdot =>
      subst hdot
      rw [split_of_name h]
      rfl
    next =>
      split
      next hslash =>
        obtain ⟨xs, hxs⟩ := List.getLast?_eq_some_iff.mp hslash
        rw [hxs, List.append_assoc, List.singleton_append, split_append_slash, split_append_slash,
          split_of_name h, namesOf_append, namesOf_append]
        simp [namesOf, split]
      next => rw [split_append_slash, split_of_name h, namesOf_append]
  rw [names_eq, names_eq, isAbsolute_extend hpath h, hparts]
  split <;> rfl

theorem exists_toList_extend (hpath : path ≠ "") (h : '/' ∉ name) :
    ∃ before, (extend path (String.ofList name)).toList = before ++ name := by
  rw [toList_extend hpath h]
  split
  next => exact ⟨[], rfl⟩
  next =>
    split
    next => exact ⟨path.toList, rfl⟩
    next => exact ⟨path.toList ++ ['/'], by simp⟩

theorem extend_eq_dot_iff (hpath : path ≠ "") (h : '/' ∉ name) :
    extend path (String.ofList name) = "." ↔ path = "." ∧ name = ['.'] := by
  rw [← String.toList_inj, toList_extend hpath h]
  split
  next hdot => simp [hdot]
  next hdot =>
    refine iff_of_false (fun heq => ?_) fun h => hdot h.1
    split at heq
    next hslash =>
      have hmem := List.mem_of_mem_getLast? hslash
      have : '/' ∈ ".".toList := heq ▸ List.mem_append_left name hmem
      exact absurd this (by decide)
    next =>
      have : '/' ∈ ".".toList := heq ▸ List.mem_append_right _ List.mem_cons_self
      exact absurd this (by decide)

/-- Behind the dots at the front stands a name without a character. -/
def Nameless (parts : List (List Char)) : Prop := (parts.dropWhile (· == ['.'])).head? = some []

instance : DecidablePred Nameless := fun parts =>
  inferInstanceAs (Decidable ((parts.dropWhile (· == ['.'])).head? = some []))

/-- Below the working directory there is nothing without a name. -/
theorem expand_nameless (tree : Tree) (depth : Nat) (patterns : List NamePattern) (h : Nameless parts) :
    expand tree depth (parts.map (·.map .char) ++ patterns) "." = [] := by
  induction parts generalizing depth with
  | nil => cases h
  | cons name rest ih =>
    cases depth with
    | zero => rw [expand]
    | succ depth =>
      rw [List.map_cons, List.cons_append, expand, literal?_map]
      by_cases hdot : name = ['.']
      · subst hdot
        have hrest : Nameless rest := by simpa [Nameless] using h
        have hbelow : expand tree depth (rest.map (·.map .char) ++ patterns)
            (extend "." (String.ofList ['.'])) = [] := ih depth hrest
        simp only [hbelow, ite_self]
      · obtain rfl : name = [] := by simpa [Nameless, hdot] using h
        have hmissing : tree.isPresent (extend "." (String.ofList [])) = false := rfl
        simp [hmissing]

theorem extend_step (hpath : path ≠ "") (h : '/' ∉ name)
    (hwhole : path = "." → ¬ Nameless (name :: parts)) :
    extend path (String.ofList name) ≠ "" ∧
      (extend path (String.ofList name) = "." → ¬ Nameless parts) := by
  constructor
  · rw [Ne, ← String.toList_eq_nil_iff, toList_extend hpath h]
    split
    next hdot =>
      rintro rfl
      exact hwhole hdot rfl
    next => split <;> simp [hpath]
  · rintro hdots hnameless
    obtain ⟨hdot, rfl⟩ := (extend_eq_dot_iff hpath h).mp hdots
    exact hwhole hdot (by simpa [Nameless] using hnameless)

/-- Names arrive at a directory, or at a file that the last of them names. -/
def Arrives (tree : Tree) (parts : List (List Char)) (found : List String) : Prop :=
  tree.isDirectoryAt found = true ∨
    (tree.content? found).isSome ∧ ∀ last ∈ parts.getLast?, last ≠ [] ∧ last ≠ ['.']

theorem Arrives.tail (h : Arrives tree (name :: parts) found) : Arrives tree parts found :=
  h.imp_right fun hfile => ⟨hfile.1, fun last hm => hfile.2 last (List.mem_getLast?_cons hm)⟩

theorem isDirectoryAt_of_arrives (hfound : tree.follow place (namesOf parts) = .ok found)
    (hend : Arrives tree parts found) (hparts : parts ≠ []) : tree.isDirectoryAt place = true := by
  cases hnames : namesOf parts with
  | nil =>
    rw [hnames] at hfound
    obtain rfl : place = found := Except.ok.inj hfound
    refine hend.resolve_right fun hfile => ?_
    obtain ⟨first, more, hcons⟩ := exists_namesOf_eq_cons hparts hfile.2
    cases hnames.symm.trans hcons
  | cons first more =>
    rw [hnames] at hfound
    exact Tree.isDirectoryAt_of_follow hfound

/-- What a name leads to is there, if the names behind it arrive somewhere. -/
theorem isPresent_extend {between : List String} (hsound : tree.Sound) (hpath : path ≠ "")
    (hname : '/' ∉ name) (hnext : extend path (String.ofList name) ≠ "")
    (hnames : tree.follow [] (names (extend path (String.ofList name))) = .ok between)
    (hrest : tree.follow between (namesOf parts) = .ok found)
    (hend : Arrives tree (name :: parts) found) :
    tree.isPresent (extend path (String.ofList name)) = true := by
  rw [Tree.isPresent, Bool.or_eq_true]
  by_cases hmore : parts = []
  · subst hmore
    obtain rfl : between = found := Except.ok.inj hrest
    rcases hend with hdirectory | ⟨hfile, hlast⟩
    · exact Or.inr (Tree.isDirectory_of_names hsound hnext hnames hdirectory)
    · obtain ⟨hnonempty, hdot⟩ := hlast name rfl
      obtain ⟨before, hbefore⟩ := exists_toList_extend hpath hname
      have hlocate : tree.locate (extend path (String.ofList name)) = .ok between :=
        Tree.locate_eq_ok_iff.mpr
          ⟨hnext, hnames, Or.inl (hbefore ▸ dropTrailing_append hname hnonempty hdot)⟩
      exact Or.inl (by rw [Tree.isFile, hlocate]; exact hfile)
  · exact Or.inr (Tree.isDirectory_of_names hsound hnext hnames
      (isDirectoryAt_of_arrives hrest hend.tail hmore))

/-- Where plain names can be followed, the search goes on from the path that they spell. -/
theorem expand_append (hsound : tree.Sound) {depth : Nat} (hdepth : parts.length < depth)
    (hpath : path ≠ "") (hplace : tree.follow [] (names path) = .ok place)
    (hslash : ∀ name ∈ parts, '/' ∉ name) (hwhole : path = "." → ¬ Nameless parts)
    (hfound : tree.follow place (namesOf parts) = .ok found) (hend : Arrives tree parts found)
    (patterns : List NamePattern) :
    expand tree depth (parts.map (·.map .char) ++ patterns) path =
      expand tree (depth - parts.length) patterns (spell path parts) := by
  -- each name takes one unit of the depth and puts one name behind the path
  induction parts generalizing depth path place with
  | nil => rfl
  | cons name rest ih =>
    obtain ⟨depth, rfl⟩ := Nat.exists_eq_add_one_of_ne_zero (Nat.ne_zero_of_lt hdepth)
    obtain ⟨hname, hslashes⟩ := List.forall_mem_cons.mp hslash
    obtain ⟨hnext, hrestWhole⟩ := extend_step hpath hname hwhole
    have hfirst : tree.isDirectoryAt place = true :=
      isDirectoryAt_of_arrives hfound hend (List.cons_ne_nil name rest)
    rw [namesOf_cons, Tree.follow_append] at hfound
    obtain ⟨between, hbetween, hrest⟩ := except_bind_eq_ok_iff.mp hfound
    have hnames : tree.follow [] (names (extend path (String.ofList name))) = .ok between := by
      rw [names_extend hpath hname, Tree.follow_append, hplace]
      exact hbetween
    have hpresent : tree.isPresent (extend path (String.ofList name)) = true :=
      isPresent_extend hsound hpath hname hnext hnames hrest hend
    have hbelow := ih (Nat.lt_of_succ_lt_succ hdepth) hnext hnames hslashes hrestWhole hrest hend.tail
    rw [List.map_cons, List.cons_append, expand, literal?_map, spell_cons, List.length_cons,
      Nat.add_sub_add_right]
    dsimp only
    rw [hbelow, if_pos]
    split
    next => exact Tree.isDirectory_of_names hsound hpath hplace hfirst
    next => exact hpresent

theorem names_spell (hpath : path ≠ "") (hslash : ∀ name ∈ parts, '/' ∉ name)
    (hwhole : path = "." → ¬ Nameless parts) : spell path parts ≠ "" ∧
      names (spell path parts) = names path ++ namesOf parts ∧
      ∀ last ∈ parts.getLast?, ∃ before, (spell path parts).toList = before ++ last := by
  induction parts generalizing path with
  | nil => exact ⟨hpath, (List.append_nil _).symm, nofun⟩
  | cons name rest ih =>
    obtain ⟨hname, hslashes⟩ := List.forall_mem_cons.mp hslash
    obtain ⟨hnext, hrestWhole⟩ := extend_step hpath hname hwhole
    obtain ⟨hspelled, hnames, hlast⟩ := ih hnext hslashes hrestWhole
    refine ⟨hspelled, ?_, ?_⟩
    · rw [spell_cons, hnames, names_extend hpath hname, List.append_assoc, ← namesOf_cons]
    · intro last hm
      cases rest with
      | nil =>
        obtain rfl := Option.some.inj hm
        exact exists_toList_extend hpath hname
      | cons later rest => exact hlast last (by simpa using hm)

/-- The path that is spelled leads where the names lead. -/
theorem locate_spell (hsound : tree.Sound) (hpath : path ≠ "") (hslash : ∀ name ∈ parts, '/' ∉ name)
    (hwhole : path = "." → ¬ Nameless parts)
    (hfound : tree.follow [] (names path ++ namesOf parts) = .ok found) (hend : Arrives tree parts found)
    (hparts : parts = [] → tree.isDirectoryAt found = true) :
    tree.locate (spell path parts) = .ok found := by
  obtain ⟨hspelled, hnames, hends⟩ := names_spell hpath hslash hwhole
  rw [← hnames] at hfound
  rcases hend with hdirectory | ⟨hfile, hlast⟩
  · exact Tree.locate_of_directory hsound hspelled hfound hdirectory
  · by_cases hnil : parts = []
    · exact Tree.locate_of_directory hsound hspelled hfound (hparts hnil)
    · have hm := List.getLast?_eq_some_getLast hnil
      obtain ⟨before, hbefore⟩ := hends _ hm
      obtain ⟨hnonempty, hdot⟩ := hlast _ hm
      have hname : '/' ∉ parts.getLast hnil := hslash _ (List.getLast_mem hnil)
      exact Tree.locate_eq_ok_iff.mpr
        ⟨hspelled, hfound, Or.inl (hbefore ▸ dropTrailing_append hname hnonempty hdot)⟩

end ShaderMigration.Files.Glob

import Mathlib.Data.List.Basic
import Mathlib.Data.List.TakeWhile
import ShaderMigration.Texture.Scanner

namespace ShaderMigration.Texture

namespace Piece

variable {piece : Piece} {pieces : List Piece} {cs next : List Char}

/-- What a piece may hold, and what may stand behind it, so that it is neither shorter nor longer than
it has to be. -/
def EndsAt (next : List Char) : Piece → Prop
  | plain cs => cs ≠ [] ∧ '$' ∉ cs ∧ ∀ c ∈ next.head?, c = '$'
  | braced name => '\x7d' ∉ name
  | bare name =>
    (∀ c ∈ name, isNameChar c = true) ∧ (∀ c ∈ next.head?, isNameChar c = false) ∧
      (name = [] → next.head? ≠ some '\x7b')
  | lone => next.head? = some '\x7b' ∧ '\x7d' ∉ next

/-- The pieces of a text from left to right. -/
inductive Splits : List Char → List Piece → Prop
  | nil : Splits [] []
  | cons {piece : Piece} {next : List Char} {pieces : List Piece} (hends : piece.EndsAt next)
      (hrest : Splits next pieces) : Splits (piece.text ++ next) (piece :: pieces)

theorem takeWhile_append_of_ends {p : Char → Bool} (hall : ∀ c ∈ cs, p c = true)
    (hends : ∀ c ∈ next.head?, p c = false) : (cs ++ next).takeWhile p = cs := by
  rw [List.takeWhile_append_of_pos hall]
  cases next with
  | nil => simp
  | cons c next => simp [hends c rfl]

theorem EndsAt.ne_brace {name : List Char} (h : (bare name).EndsAt next) (rest : List Char) :
    name ++ next ≠ '\x7b' :: rest := by
  obtain ⟨hname, _, hbrace⟩ := h
  intro heq
  cases name with
  | nil => exact hbrace rfl (by rw [show next = _ from heq]; rfl)
  | cons c name =>
    cases heq
    exact absurd (hname '\x7b' List.mem_cons_self) (by decide)

/-- A piece that ends where it should is the first one of the text. -/
theorem EndsAt.first_eq (h : piece.EndsAt next) : first (piece.text ++ next) = piece := by
  cases piece with
  | plain cs =>
    obtain ⟨hne, hplain, hends⟩ := h
    obtain ⟨c, cs, rfl⟩ := List.exists_cons_of_ne_nil hne
    have hc : c ≠ '$' := fun heq => hplain (heq ▸ List.mem_cons_self)
    have htake : ((c :: cs) ++ next).takeWhile (· != '$') = c :: cs :=
      takeWhile_append_of_ends (fun d hd => bne_iff_ne.mpr (ne_of_mem_of_not_mem hd hplain))
        fun d hd => by simpa using hends d hd
    unfold first text
    split
    next heq => cases heq; exact absurd rfl hc
    next => rw [htake]
  | braced name =>
    have htake : (name ++ '\x7d' :: next).takeWhile (· != '\x7d') = name :=
      takeWhile_append_of_ends (fun d hd => bne_iff_ne.mpr (ne_of_mem_of_not_mem hd h)) (by simp)
    have htext : (braced name).text ++ next = '$' :: '\x7b' :: (name ++ '\x7d' :: next) := by
      simp [text]
    rw [htext, first, behindDollar, htake, if_pos (by simp)]
  | bare name =>
    have hopen := h.ne_brace
    obtain ⟨hname, hends, _⟩ := h
    rw [text, List.cons_append, first]
    unfold behindDollar
    split
    next rest heq => exact absurd heq (hopen rest)
    next => rw [takeWhile_append_of_ends hname hends]
  | lone =>
    obtain ⟨hbrace, hopen⟩ := h
    obtain ⟨tail, rfl⟩ := List.head?_eq_some_iff.mp hbrace
    have htake : tail.takeWhile (· != '\x7d') = tail :=
      List.takeWhile_eq_self_iff.mpr fun d hd =>
        bne_iff_ne.mpr (ne_of_mem_of_not_mem (List.mem_cons_of_mem _ hd) hopen)
    rw [text, List.cons_append, List.nil_append, first, behindDollar, htake, if_neg (Nat.lt_irrefl _)]

theorem EndsAt.text_ne_nil (h : piece.EndsAt next) : piece.text ≠ [] := by
  cases piece with
  | plain cs => exact h.1
  | braced | bare | lone => simp [text]

theorem EndsAt.split_eq (h : piece.EndsAt next) :
    split (piece.text ++ next) = piece :: split next := by
  have hfirst := h.first_eq
  obtain ⟨c, cs, hcs⟩ := List.exists_cons_of_ne_nil h.text_ne_nil
  have hdrop : (piece.text ++ next).drop piece.text.length = next := List.drop_left
  rw [hcs, List.cons_append] at hfirst hdrop ⊢
  rw [split, hfirst, hcs, hdrop]

theorem mem_takeWhile {p : Char → Bool} {c : Char} (h : c ∈ cs.takeWhile p) : p c = true := by
  have hall := List.all_takeWhile (p := p) (l := cs)
  exact List.all_eq_true.mp hall c h

theorem head?_dropWhile {p : Char → Bool} {c : Char} (h : c ∈ (cs.dropWhile p).head?) :
    p c = false := by
  have hnot := List.head?_dropWhile_not p cs
  rw [show (cs.dropWhile p).head? = some c from h] at hnot
  exact hnot

theorem endsAt_behindDollar (cs : List Char) :
    (behindDollar cs).EndsAt (cs.drop ((behindDollar cs).text.length - 1)) := by
  unfold behindDollar
  split
  next rest =>
    dsimp only
    split
    next hclosed => exact fun hm => by simpa using mem_takeWhile hm
    next hopen =>
      have hall : rest.takeWhile (· != '\x7d') = rest :=
        (List.takeWhile_prefix _).eq_of_length_le (Nat.le_of_not_lt hopen)
      refine ⟨rfl, fun hm => ?_⟩
      have hrest : '\x7d' ∈ rest := (List.mem_cons.mp hm).resolve_left (by decide)
      rw [← hall] at hrest
      simpa using mem_takeWhile hrest
  next hbrace =>
    have hdrop : cs.drop ((bare (cs.takeWhile isNameChar)).text.length - 1) =
        cs.dropWhile isNameChar := drop_length_takeWhile cs
    rw [hdrop]
    refine ⟨fun c hc => mem_takeWhile hc, fun c hc => head?_dropWhile hc, fun hnone hhead => ?_⟩
    have hcs : cs.dropWhile isNameChar = cs := by
      rw [← drop_length_takeWhile, hnone, List.length_nil, List.drop_zero]
    rw [hcs] at hhead
    obtain ⟨rest, rfl⟩ := List.head?_eq_some_iff.mp hhead
    exact hbrace rest rfl

theorem endsAt_first (c : Char) (cs : List Char) :
    (first (c :: cs)).EndsAt ((c :: cs).drop (first (c :: cs)).text.length) := by
  unfold first
  split
  next rest heq =>
    cases heq
    have hends := endsAt_behindDollar cs
    have hlength : 0 < (behindDollar cs).text.length := by
      rw [List.length_pos_iff]
      exact hends.text_ne_nil
    rwa [← Nat.sub_add_cancel hlength, List.drop_succ_cons]
  next hdollar =>
    have hc : (c != '$') = true := bne_iff_ne.mpr fun heq => hdollar cs (by rw [heq])
    refine ⟨by rw [List.takeWhile_cons, if_pos hc]; simp, ?_, ?_⟩
    · exact fun hm => by simpa using mem_takeWhile hm
    · intro d hd
      rw [text, drop_length_takeWhile] at hd
      simpa using head?_dropWhile hd

theorem splits_split (cs : List Char) : Splits cs (split cs) := by
  fun_induction split cs with
  | case1 => exact .nil
  | case2 c cs ih =>
    have hcons := Splits.cons (endsAt_first c cs) ih
    rwa [text_first] at hcons

/-- There is one way to split a text. -/
theorem splits_iff : Splits cs pieces ↔ pieces = split cs := by
  constructor
  · intro h
    induction h with
    | nil => rw [split]
    | cons hends hrest ih => rw [hends.split_eq, ih]
  · rintro rfl
    exact splits_split cs

end Piece

namespace Scanner

open Piece (Splits EndsAt)

variable {piece : Piece} {pieces : List Piece} {p : Char → Bool} {cs next : List Char}

theorem byteLength_append (xs ys : List Char) :
    byteLength (xs ++ ys) = byteLength xs + byteLength ys := by
  induction xs with
  | nil => simp
  | cons c xs ih => rw [List.cons_append, byteLength_cons, byteLength_cons, ih, Nat.add_assoc]

theorem cut?_append (xs ys : List Char) : cut? (byteLength xs) (xs ++ ys) = some (xs, ys) :=
  cut?_eq_some_iff.mpr ⟨rfl, rfl⟩

theorem offset?_append (hnone : ∀ c ∈ cs, p c = false) :
    offset? p (cs ++ next) = (offset? p next).map (byteLength cs + ·) := by
  induction cs with
  | nil => simp
  | cons c cs ih =>
    obtain ⟨hc, hrest⟩ := List.forall_mem_cons.mp hnone
    rw [List.cons_append, offset?, hc, if_neg Bool.false_ne_true, ih hrest, Option.map_map]
    simp [Function.comp_def, Nat.add_assoc]

theorem offset?_append_cons (hnone : ∀ c ∈ cs, p c = false) {c : Char} (hc : p c = true) :
    offset? p (cs ++ c :: next) = some (byteLength cs) := by
  rw [offset?_append hnone, offset?, if_pos hc, Option.map_some, Nat.add_zero]

theorem offset?_eq_none (hnone : ∀ c ∈ cs, p c = false) : offset? p cs = none := by
  have happend : offset? p (cs ++ []) = (offset? p []).map (byteLength cs + ·) := offset?_append hnone
  simpa [offset?] using happend

theorem name?_of_endsAt (h : piece.EndsAt next) {behind : List Char}
    (htext : piece.text = '$' :: behind) :
    ∃ name, name? (behind ++ next) = some (name, byteLength behind) ∧
      piece.nameOf? = if name.isEmpty then none else some name := by
  cases piece with
  | plain cs =>
    obtain ⟨_, hplain, _⟩ := h
    obtain rfl : cs = '$' :: behind := htext
    exact absurd List.mem_cons_self hplain
  | braced name =>
    obtain rfl : '\x7b' :: name ++ ['\x7d'] = behind := List.cons.inj htext |>.2
    have hstop : offset? (· == '\x7d') (name ++ '\x7d' :: next) = some (byteLength name) :=
      offset?_append_cons (fun d hd => beq_eq_false_iff_ne.mpr (ne_of_mem_of_not_mem hd h)) rfl
    have hcut : cut? (byteLength name) (name ++ '\x7d' :: next) = some (name, '\x7d' :: next) :=
      cut?_append _ _
    refine ⟨name, ?_, rfl⟩
    have hbytes : byteLength ('\x7b' :: name ++ ['\x7d']) = byteLength name + 2 := by
      rw [List.cons_append, byteLength_cons, byteLength_append]
      exact Nat.add_comm 1 _
    rw [hbytes]
    simp [name?, hstop, hcut]
  | bare name =>
    obtain rfl : name = behind := List.cons.inj htext |>.2
    have hopen := h.ne_brace
    obtain ⟨hname, hends, _⟩ := h
    have hstop : (offset? (fun c => !isNameChar c) (name ++ next)).getD (byteLength (name ++ next)) =
        byteLength name := by
      have hnone : ∀ c ∈ name, (!isNameChar c) = false := fun c hc => by rw [hname c hc]; rfl
      cases next with
      | nil => rw [List.append_nil, offset?_eq_none hnone]; rfl
      | cons d next => rw [offset?_append_cons hnone (by rw [hends d rfl]; rfl)]; rfl
    refine ⟨name, ?_, rfl⟩
    unfold name?
    split
    next rest heq => exact absurd heq (hopen rest)
    next => simp [hstop, cut?_append]
  | lone =>
    obtain rfl : [] = behind := List.cons.inj htext |>.2
    obtain ⟨hbrace, hopen⟩ := h
    obtain ⟨tail, rfl⟩ := List.head?_eq_some_iff.mp hbrace
    have hnone : offset? (· == '\x7d') tail = none :=
      offset?_eq_none fun c hc =>
        beq_eq_false_iff_ne.mpr (ne_of_mem_of_not_mem (List.mem_cons_of_mem _ hc) hopen)
    exact ⟨[], by simp [name?, hnone], rfl⟩

/-- A turn cuts the text in front of its piece and behind it. -/
theorem turn?_of_endsAt (env : Environment) (out before : List Char) (h : piece.EndsAt next)
    {behind : List Char} (htext : piece.text = '$' :: behind) :
    turn? env out (before ++ (piece.text ++ next)) (byteLength before) =
      some (out ++ before ++ piece.expand env, next) := by
  obtain ⟨name, hname, hnameOf⟩ := name?_of_endsAt h htext
  have hafter : cut? (byteLength before + 1) (before ++ '$' :: (behind ++ next)) =
      some (before ++ ['$'], behind ++ next) :=
    cut?_eq_some_iff.mpr ⟨by simp, byteLength_append before ['$']⟩
  have hthrough : cut? (byteLength before + 1 + byteLength behind) (before ++ '$' :: (behind ++ next)) =
      some (before ++ '$' :: behind, next) :=
    cut?_eq_some_iff.mpr ⟨by simp, by rw [byteLength_append, byteLength_cons, Nat.add_assoc]; rfl⟩
  have hexpand : (value? env name).getD ('$' :: behind) = piece.expand env := by
    rw [Piece.expand, hnameOf, value?, htext]
    cases hempty : name.isEmpty with
    | true => rfl
    | false => cases hvalue : env.find? (String.ofList name) <;> simp [hvalue]
  rw [htext, List.cons_append]
  simp [turn?, cut?_append, hafter, hthrough, hname, hexpand]

/-- The pieces behind a text without a dollar sign are expanded one after the other. -/
theorem scan?_of_splits (env : Environment) (h : Splits cs pieces) :
    ∀ out before : List Char, '$' ∉ before →
      scan? env out (before ++ cs) = some (out ++ before ++ pieces.flatMap (Piece.expand env)) := by
  have hnone : ∀ {before : List Char}, '$' ∉ before → ∀ c ∈ before, (c == '$') = false :=
    fun hplain c hc => beq_eq_false_iff_ne.mpr (ne_of_mem_of_not_mem hc hplain)
  induction h with
  | nil =>
    intro out before hplain
    rw [scan?, List.append_nil, offset?_eq_none (hnone hplain)]
    simp
  | @cons piece next pieces hends hrest ih =>
    intro out before hplain
    by_cases hdollar : ∃ behind, piece.text = '$' :: behind
    · obtain ⟨behind, htext⟩ := hdollar
      have hoffset : offset? (· == '$') (before ++ (piece.text ++ next)) = some (byteLength before) := by
        rw [htext, List.cons_append]
        exact offset?_append_cons (hnone hplain) rfl
      have hturn := turn?_of_endsAt env out before hends htext
      have hscan : scan? env out (before ++ (piece.text ++ next)) =
          scan? env (out ++ before ++ piece.expand env) next := by
        rw [scan?, hoffset]
        dsimp only
        split
        next heq => cases hturn.symm.trans heq
        next heq => cases hturn.symm.trans heq; rfl
      have hnext := ih (out ++ before ++ piece.expand env) [] (by simp)
      rw [hscan, ← List.nil_append next, hnext]
      simp
    · cases piece with
      | plain cs =>
        -- such a piece is scanned together with what stands in front of it
        have hboth : '$' ∉ before ++ cs := by simp [hplain, hends.2.1]
        have hnext := ih out (before ++ cs) hboth
        rw [Piece.text, ← List.append_assoc, hnext]
        simp [Piece.expand, Piece.nameOf?, Piece.text]
      | braced | bare | lone => exact absurd ⟨_, rfl⟩ hdollar

theorem expandVars?_eq (env : Environment) (path : String) :
    expandVars? env path = some (expandVars env path) := by
  have hscan := scan?_of_splits env (Piece.splits_split path.toList) [] [] (by simp)
  rw [List.nil_append] at hscan
  rw [expandVars?, hscan]
  rfl

end Scanner

theorem expandVars_of_unset {env : Environment} {path : String}
    (h : ∀ piece ∈ Piece.split path.toList, ∀ name ∈ piece.nameOf?,
      env.find? (String.ofList name) = none) : expandVars env path = path := by
  have hverbatim : ∀ piece ∈ Piece.split path.toList, piece.expand env = piece.text := by
    intro piece hpiece
    unfold Piece.expand
    cases hname : piece.nameOf? with
    | none => rfl
    | some name => rw [Option.bind_some, h piece hpiece name hname]
  rw [expandVars, List.flatMap_congr hverbatim, Piece.texts_split, String.ofList_toList]

/-- A path splits in one way into pieces, which spell it.  The scan ends, without cutting a character,
and gives the pieces with the values of the variables that are set in place of these; values are not
scanned, and a path without such a variable stays as it is. -/
theorem expandVars_of_pieces (env : Environment) (path : String) :
    ∃ pieces, (∀ others, Piece.Splits path.toList others ↔ others = pieces) ∧
      pieces.flatMap Piece.text = path.toList ∧
      Scanner.expandVars? env path = some (expandVars env path) ∧
      (expandVars env path).toList = pieces.flatMap (Piece.expand env) ∧
      ((∀ piece ∈ pieces, ∀ name ∈ piece.nameOf?, env.find? (String.ofList name) = none) →
        expandVars env path = path) := by
  refine ⟨Piece.split path.toList, fun others => Piece.splits_iff, Piece.texts_split _,
    Scanner.expandVars?_eq env path, ?_, expandVars_of_unset⟩
  rw [expandVars, String.toList_ofList]

/-- A variable whose value looks like another one, an empty name, and a brace that stays open.  Where no
variable is set all of it stays. -/
theorem expandVars_tex : ∃ env : Environment, env.find? "TEX" = some "ü$U" ∧ env.find? "U" = some "1" ∧
    Scanner.expandVars? env "$TEX/$\x7bU\x7d$\x7b\x7dé$ $\x7bTEX" = some "ü$U/1$\x7b\x7dé$ $\x7bTEX" ∧
    expandVars {} "$TEX/$\x7bU\x7d$\x7b\x7dé$ $\x7bTEX" = "$TEX/$\x7bU\x7d$\x7b\x7dé$ $\x7bTEX" := by
  let env : Environment := ⟨[("TEX", "ü$U"), ("U", "1")]⟩
  refine ⟨env, rfl, rfl, ?_, ?_⟩
  · obtain ⟨pieces, _, _, hscan, _⟩ := expandVars_of_pieces env "$TEX/$\x7bU\x7d$\x7b\x7dé$ $\x7bTEX"
    rw [hscan]
    decide +kernel
  · obtain ⟨pieces, _, _, _, _, hunset⟩ :=
      expandVars_of_pieces {} "$TEX/$\x7bU\x7d$\x7b\x7dé$ $\x7bTEX"
    exact hunset fun _ _ _ _ => rfl

end ShaderMigration.Texture

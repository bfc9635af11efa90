import ShaderMigration.Proofs.JsonParsing
import Mathlib.Data.List.Forall2

namespace ShaderMigration.Json

section Printing

/-- A text spells tokens, whatever follows that ends a word. -/
def SpelledBy (tokens : List Token) (text : String) : Prop :=
  ∀ (later : List Token) (rest : List Char), EndsWord rest → Spells later rest →
    Spells (tokens ++ later) (text.toList ++ rest)

def separated (close : Token) : List (List Token) → List Token
  | [] => [close]
  | part :: rest => .comma :: (part ++ separated close rest)

def bracketed (opening close : Token) : List (List Token) → List Token
  | [] => [opening, close]
  | part :: rest => opening :: (part ++ separated close rest)

theorem tokensOfItems_eq (items : List Data) :
    tokensOfItems items = separated .closeBracket (items.map tokensOf) := by
  induction items with
  | nil => rfl
  | cons item rest ih => rw [tokensOfItems, ih, List.map_cons, separated]

theorem tokensOfMembers_eq (members : List (String × Data)) :
    tokensOfMembers members = separated .closeBrace (members.map tokensOfMember) := by
  induction members with
  | nil => rfl
  | cons member rest ih => rw [tokensOfMembers, ih, List.map_cons, separated]

theorem tokensOf_list (items : List Data) :
    tokensOf (.list items) = bracketed .openBracket .closeBracket (items.map tokensOf) := by
  cases items with
  | nil => rfl
  | cons item rest => rw [tokensOf, tokensOfItems_eq, List.map_cons, bracketed]

theorem tokensOf_record (members : List (String × Data)) :
    tokensOf (.record members) = bracketed .openBrace .closeBrace (members.map tokensOfMember) := by
  cases members with
  | nil => rfl
  | cons member rest => rw [tokensOf, tokensOfMembers_eq, List.map_cons, bracketed]

theorem endsWord_cons {c : Char} {cs : List Char} (h : isWordChar c = false) : EndsWord (c :: cs) := by
  intro d hd
  obtain rfl := Option.some.inj hd
  exact h

theorem isWordChar_of_isBlank {c : Char} (h : isBlank c = true) : isWordChar c = false := by
  simp only [isBlank, Bool.or_eq_true, beq_iff_eq] at h
  rcases h with ((rfl | rfl) | rfl) | rfl <;> decide

theorem isWordChar_of_punctuation? {c : Char} {token : Token} (h : punctuation? c = some token) :
    isWordChar c = false := by
  unfold punctuation? at h
  split at h
  all_goals first | decide | cases h

theorem endsWord_blanks {cs rest : List Char} {c : Char} {token : Token}
    (hcs : ∀ c ∈ cs, isBlank c = true) (hc : punctuation? c = some token) :
    EndsWord (cs ++ c :: rest) := by
  cases cs with
  | nil => exact endsWord_cons (isWordChar_of_punctuation? hc)
  | cons d ds => exact endsWord_cons (isWordChar_of_isBlank (hcs d (by simp)))

variable {parts : List (List Token)} {texts : List String} {gap last : List Char}
  {opening closing : Char} {openToken closeToken : Token}

/-- Parts that stand in the same gap after each comma. -/
theorem spells_separated (hgap : ∀ c ∈ gap, isBlank c = true) (hlast : ∀ c ∈ last, isBlank c = true)
    (hclose : punctuation? closing = some closeToken) (h : List.Forall₂ SpelledBy parts texts)
    {later : List Token} {rest : List Char} (hrest : Spells later rest) :
    Spells (separated closeToken parts ++ later)
        ((texts.flatMap fun text => ',' :: (gap ++ text.toList)) ++ (last ++ closing :: rest)) ∧
      EndsWord ((texts.flatMap fun text => ',' :: (gap ++ text.toList)) ++
        (last ++ closing :: rest)) := by
  induction h with
  | nil =>
    rw [List.flatMap_nil, List.nil_append]
    exact ⟨(Spells.mark hclose hrest).blanks hlast, endsWord_blanks hlast hclose⟩
  | cons hpart _ ih =>
    have hmore := (hpart _ _ ih.2 ih.1).blanks hgap
    simp only [separated, List.flatMap_cons, List.cons_append, List.append_assoc]
    exact ⟨.mark rfl hmore, endsWord_cons (by decide)⟩

/-- The text between brackets: parts in gaps, and nothing at all when there is no part. -/
def inside (gap last : List Char) : List String → List Char
  | [] => []
  | text :: rest =>
    gap ++ text.toList ++ (rest.flatMap fun text => ',' :: (gap ++ text.toList)) ++ last

theorem spelledBy_bracketed {text : String} (hgap : ∀ c ∈ gap, isBlank c = true)
    (hlast : ∀ c ∈ last, isBlank c = true) (hopen : punctuation? opening = some openToken)
    (hclose : punctuation? closing = some closeToken)
    (htext : text.toList = opening :: (inside gap last texts ++ [closing]))
    (h : List.Forall₂ SpelledBy parts texts) :
    SpelledBy (bracketed openToken closeToken parts) text := by
  intro later rest _ hrest
  rw [htext]
  cases h with
  | nil => exact .mark hopen (.mark hclose hrest)
  | cons hpart hmore =>
    obtain ⟨hspells, hends⟩ := spells_separated hgap hlast hclose hmore hrest
    have hfirst := (hpart _ _ hends hspells).blanks hgap
    simpa [bracketed, inside] using Spells.mark hopen hfirst

theorem toList_intercalate (sep text : String) (texts : List String) :
    (sep.intercalate (text :: texts)).toList =
      text.toList ++ texts.flatMap fun text => sep.toList ++ text.toList := by
  induction texts generalizing text with
  | nil => simp
  | cons next rest ih =>
    rw [String.intercalate_cons_cons, String.toList_append, String.toList_append, ih,
      List.flatMap_cons]
    simp

/-- The text of a word that denotes a leaf. -/
theorem spelledBy_word {token : Token} {text : String} (hword : word? text.toList = some token)
    (hchars : ∀ c ∈ text.toList, isWordChar c = true) : SpelledBy [token] text :=
  fun _ _ hends hrest => .word hword hchars hends hrest

theorem spelledBy_number {value : Option Number} {text : String}
    (h : number? text.toList = some value) : SpelledBy [.number value] text :=
  fun _ _ hends hrest => .number h hends hrest

theorem spelledBy_bool (b : Bool) : SpelledBy [.bool b] (if b then "true" else "false") := by
  cases b with
  | true => exact spelledBy_word rfl (List.all_eq_true.mp rfl)
  | false => exact spelledBy_word rfl (List.all_eq_true.mp rfl)

theorem spelledBy_null : SpelledBy [.null] "null" :=
  spelledBy_word rfl (List.all_eq_true.mp rfl)

theorem spelledBy_int {n : Int} (h : Legible FiniteReadsBack (.int n)) :
    SpelledBy [.number (some (.int n))] (intText n) := by
  obtain ⟨hlow, hhigh⟩ := legible_int_iff.mp h
  exact spelledBy_number (number?_intText hlow hhigh)

theorem floatText_of_not_isFinite {x : Float} (h : ¬ Binary64.isFinite x = true) :
    floatText x = "null" := by
  rw [Binary64.isFinite, Bool.not_eq_true, Option.isSome_eq_false_iff, Option.isNone_iff_eq_none] at h
  rw [floatText, h]

theorem spelledBy_float {x : Float} (h : Legible FiniteReadsBack (.float x)) :
    SpelledBy (tokensOf (.float x)) (floatText x) := by
  rw [tokensOf]
  split
  next hfinite => exact spelledBy_number (legible_float_iff.mp h hfinite)
  next hfinite => exact floatText_of_not_isFinite hfinite ▸ spelledBy_null

theorem spelledBy_member {key text colon : String} {value : Data} {space : List Char}
    (hcolon : colon.toList = ':' :: space) (hspace : ∀ c ∈ space, isBlank c = true)
    (h : SpelledBy (tokensOf value) text) :
    SpelledBy (tokensOfMember (key, value)) (quoted key ++ colon ++ text) := by
  intro later rest hends hrest
  have hvalue := (h later rest hends hrest).blanks hspace
  simpa [tokensOfMember, hcolon] using Spells.string key (Spells.mark (c := ':') rfl hvalue)

theorem spelledBy_joined {openText closeText : String} (hopenText : openText.toList = [opening])
    (hcloseText : closeText.toList = [closing]) (hopen : punctuation? opening = some openToken)
    (hclose : punctuation? closing = some closeToken) (h : List.Forall₂ SpelledBy parts texts) :
    SpelledBy (bracketed openToken closeToken parts)
      (openText ++ ",".intercalate texts ++ closeText) := by
  refine spelledBy_bracketed (List.forall_mem_nil _) (List.forall_mem_nil _) hopen hclose ?_ h
  cases texts with
  | nil => simp [hopenText, hcloseText, inside]
  | cons text texts =>
    simp only [String.toList_append, toList_intercalate, hopenText, hcloseText]
    simp [inside]

mutual

theorem spelledBy_compact : ∀ d : Data, Legible FiniteReadsBack d →
    SpelledBy (tokensOf d) (compact d)
  | .null, _ => spelledBy_null
  | .bool b, _ => spelledBy_bool b
  | .int _, h => spelledBy_int h
  | .float _, h => spelledBy_float h
  | .text s, _ => fun _ _ _ hrest => .string s hrest
  | .list items, h => by
    rw [tokensOf_list, compact]
    exact spelledBy_joined rfl rfl rfl rfl (spelledBy_compactItems items h)
  | .record members, h => by
    rw [tokensOf_record, compact]
    exact spelledBy_joined rfl rfl rfl rfl (spelledBy_compactMembers members h)

theorem spelledBy_compactItems : ∀ items : List Data, Legible FiniteReadsBack (.list items) →
    List.Forall₂ SpelledBy (items.map tokensOf) (compactItems items)
  | [], _ => .nil
  | item :: rest, h => .cons (spelledBy_compact item (legible_list_cons.mp h).1)
    (spelledBy_compactItems rest (legible_list_cons.mp h).2)

theorem spelledBy_compactMembers : ∀ members : List (String × Data),
    Legible FiniteReadsBack (.record members) →
      List.Forall₂ SpelledBy (members.map tokensOfMember) (compactMembers members)
  | [], _ => .nil
  | (_, value) :: rest, h => .cons
    (spelledBy_member rfl (by simp) (spelledBy_compact value (legible_record_cons.mp h).1))
    (spelledBy_compactMembers rest (legible_record_cons.mp h).2)

end

theorem isBlank_of_mem_indent {level : Nat} {c : Char} (h : c ∈ (indent level).toList) :
    isBlank c = true := by
  rw [indent, String.toList_ofList] at h
  rw [List.eq_of_mem_replicate h]
  decide

def lineBreak (level : Nat) : List Char := '\n' :: (indent level).toList

theorem isBlank_of_mem_lineBreak {level : Nat} : ∀ c ∈ lineBreak level, isBlank c = true :=
  List.forall_mem_cons.mpr ⟨by decide, fun _ => isBlank_of_mem_indent⟩

theorem toList_block {openText closeText : String} (hopen : openText.toList = [opening])
    (hclose : closeText.toList = [closing]) (level : Nat) (texts : List String) :
    (block openText closeText level texts).toList =
      opening :: (inside (lineBreak (level + 1)) (lineBreak level) texts ++ [closing]) := by
  unfold block
  cases texts with
  | nil => simp [hopen, hclose, inside]
  | cons text texts =>
    have hrest : (texts.map fun part => indent (level + 1) ++ part).flatMap
        (fun part => ",\n".toList ++ part.toList) =
          texts.flatMap fun text => ',' :: (lineBreak (level + 1) ++ text.toList) := by
      simp [List.flatMap_map, lineBreak]
    rw [List.isEmpty_cons, if_neg (by decide), List.map_cons]
    simp only [String.toList_append, toList_intercalate, hrest, hopen, hclose, inside]
    simp [lineBreak]

theorem spelledBy_block {openText closeText : String} (hopenText : openText.toList = [opening])
    (hcloseText : closeText.toList = [closing]) (hopen : punctuation? opening = some openToken)
    (hclose : punctuation? closing = some closeToken) (level : Nat)
    (h : List.Forall₂ SpelledBy parts texts) :
    SpelledBy (bracketed openToken closeToken parts) (block openText closeText level texts) :=
  spelledBy_bracketed isBlank_of_mem_lineBreak isBlank_of_mem_lineBreak hopen hclose
    (toList_block hopenText hcloseText level texts) h

mutual

theorem spelledBy_prettyAt (level : Nat) : ∀ d : Data, Legible FiniteReadsBack d →
    SpelledBy (tokensOf d) (prettyAt level d)
  | .null, _ => spelledBy_null
  | .bool b, _ => spelledBy_bool b
  | .int _, h => spelledBy_int h
  | .float _, h => spelledBy_float h
  | .text s, _ => fun _ _ _ hrest => .string s hrest
  | .list items, h => tokensOf_list items ▸
    spelledBy_block rfl rfl rfl rfl level (spelledBy_prettyItems (level + 1) items h)
  | .record members, h => tokensOf_record members ▸
    spelledBy_block rfl rfl rfl rfl level (spelledBy_prettyMembers (level + 1) members h)

theorem spelledBy_prettyItems (level : Nat) : ∀ items : List Data,
    Legible FiniteReadsBack (.list items) →
      List.Forall₂ SpelledBy (items.map tokensOf) (prettyItems level items)
  | [], _ => .nil
  | item :: rest, h => .cons (spelledBy_prettyAt level item (legible_list_cons.mp h).1)
    (spelledBy_prettyItems level rest (legible_list_cons.mp h).2)

theorem spelledBy_prettyMembers (level : Nat) : ∀ members : List (String × Data),
    Legible FiniteReadsBack (.record members) →
      List.Forall₂ SpelledBy (members.map tokensOfMember) (prettyMembers level members)
  | [], _ => .nil
  | (_, value) :: rest, h => .cons
    (spelledBy_member rfl (List.all_eq_true.mp rfl)
      (spelledBy_prettyAt level value (legible_record_cons.mp h).1))
    (spelledBy_prettyMembers level rest (legible_record_cons.mp h).2)

end

theorem ofText?_of_spelledBy {d : Data} {text : String} (h : SpelledBy (tokensOf d) text) :
    Written.ofText? text = some (Written.ofData d) := by
  have hspells := h [] [] (by simp [EndsWord]) .done
  rw [List.append_nil, List.append_nil] at hspells
  exact ofText?_of_spells hspells

theorem ofText?_compact {d : Data} (h : Legible FiniteReadsBack d) :
    Written.ofText? (compact d) = some (Written.ofData d) :=
  ofText?_of_spelledBy (spelledBy_compact d h)

theorem ofText?_pretty {d : Data} (h : Legible FiniteReadsBack d) :
    Written.ofText? (pretty d) = some (Written.ofData d) :=
  ofText?_of_spelledBy (spelledBy_prettyAt 0 d h)

end Printing

/-- What the text of a document shows is read from it, by an outline that keeps all of it. -/
theorem read?_pretty {d : Data} {outline : Outline} (h : Legible FiniteReadsBack d)
    (hdepth : d.depth ≤ 127) (houtline : Outline.Keeps outline d) :
    read? outline (pretty d) = some d.printed := by
  rw [read?, ofText?_pretty h, Option.bind_some, houtline, data?_ofData hdepth]

theorem read?_compact {d : Data} {outline : Outline} (h : Legible FiniteReadsBack d)
    (hdepth : d.depth ≤ 127) (houtline : Outline.Keeps outline d) :
    read? outline (compact d) = some d.printed := by
  rw [read?, ofText?_compact h, Option.bind_some, houtline, data?_ofData hdepth]

end ShaderMigration.Json

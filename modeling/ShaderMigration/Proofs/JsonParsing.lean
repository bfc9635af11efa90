import ShaderMigration.Proofs.PrintedDocuments

namespace ShaderMigration.Json

mutual

/-- The tree of the text of a document. -/
def Written.ofData : Data → Written
  | .null => .null
  | .bool b => .bool b
  | .int n => .number (some (.int n))
  | .float x => if Binary64.isFinite x then .number (some (.float x)) else .null
  | .text s => .string (some s)
  | .list items => .list (Written.ofItems items)
  | .record members => .record (Written.ofMembers members)

def Written.ofItems : List Data → List Written
  | [] => []
  | item :: rest => Written.ofData item :: Written.ofItems rest

def Written.ofMembers : List (String × Data) → List (Option String × Written)
  | [] => []
  | member :: rest => Written.ofMember member :: Written.ofMembers rest

def Written.ofMember : String × Data → Option String × Written
  | (key, value) => (some key, Written.ofData value)

end

mutual

def tokensOf : Data → List Token
  | .null => [.null]
  | .bool b => [.bool b]
  | .int n => [.number (some (.int n))]
  | .float x => if Binary64.isFinite x then [.number (some (.float x))] else [.null]
  | .text s => [.string (some s)]
  | .list [] => [.openBracket, .closeBracket]
  | .list (item :: rest) => .openBracket :: (tokensOf item ++ tokensOfItems rest)
  | .record [] => [.openBrace, .closeBrace]
  | .record (member :: rest) => .openBrace :: (tokensOfMember member ++ tokensOfMembers rest)

/-- The tokens of the items that follow the first one, and of the end of the list. -/
def tokensOfItems : List Data → List Token
  | [] => [.closeBracket]
  | item :: rest => .comma :: (tokensOf item ++ tokensOfItems rest)

def tokensOfMembers : List (String × Data) → List Token
  | [] => [.closeBrace]
  | member :: rest => .comma :: (tokensOfMember member ++ tokensOfMembers rest)

def tokensOfMember : String × Data → List Token
  | (key, value) => .string (some key) :: .colon :: tokensOf value

end

section Parsing

open Written.Progress (step)

variable {frames : List Written.Frame} {later : List Token}

/-- A document does not begin with a closing bracket. -/
theorem foldlM_itemOrEnd (d : Data) :
    (tokensOf d ++ later).foldlM step ⟨frames, .itemOrEnd⟩ =
      (tokensOf d ++ later).foldlM step ⟨frames, .value⟩ := by
  cases d with
  | list items => cases items <;> rfl
  | record members => cases members <;> rfl
  | float x =>
    rw [tokensOf]
    split <;> rfl
  | null | bool | int | text => rfl

mutual

/-- Where a value is expected, the tokens of a document are parsed to its tree. -/
theorem foldlM_tokensOf (d : Data) {frames : List Written.Frame} {later : List Token} :
    (tokensOf d ++ later).foldlM step ⟨frames, .value⟩ =
      later.foldlM step ⟨frames, .done (Written.ofData d)⟩ := by
  match d with
  | .null | .bool _ | .int _ | .text _ => rfl
  | .float x =>
    rw [tokensOf, Written.ofData]
    split <;> rfl
  | .list [] => rfl
  | .list (item :: rest) =>
    -- the first item stands where the list could have ended
    have hopen : (tokensOf (.list (item :: rest)) ++ later).foldlM step ⟨frames, .value⟩ =
        (tokensOf item ++ (tokensOfItems rest ++ later)).foldlM step
          ⟨.items [] :: frames, .itemOrEnd⟩ := by
      rw [tokensOf, List.cons_append, List.append_assoc]
      rfl
    rw [hopen, foldlM_itemOrEnd, foldlM_tokensOf item, foldlM_tokensOfItems rest]
    rfl
  | .record [] => rfl
  | .record ((key, value) :: rest) =>
    have hopen : (tokensOf (.record ((key, value) :: rest)) ++ later).foldlM step
        ⟨frames, .value⟩ = (tokensOf value ++ (tokensOfMembers rest ++ later)).foldlM step
          ⟨.members [] (some key) :: frames, .value⟩ := by
      rw [tokensOf, tokensOfMember, List.cons_append, List.append_assoc]
      rfl
    rw [hopen, foldlM_tokensOf value, foldlM_tokensOfMembers rest]
    rfl

theorem foldlM_tokensOfItems (items : List Data) {frames : List Written.Frame}
    {later : List Token} {done : List Written} {value : Written} :
    (tokensOfItems items ++ later).foldlM step ⟨.items done :: frames, .done value⟩ =
      later.foldlM step
        ⟨frames, .done (.list ((value :: done).reverse ++ Written.ofItems items))⟩ := by
  match items with
  | [] =>
    rw [Written.ofItems, List.append_nil]
    rfl
  | item :: rest =>
    have hcomma : (tokensOfItems (item :: rest) ++ later).foldlM step
        ⟨.items done :: frames, .done value⟩ =
          (tokensOf item ++ (tokensOfItems rest ++ later)).foldlM step
            ⟨.items (value :: done) :: frames, .value⟩ := by
      rw [tokensOfItems, List.cons_append, List.append_assoc]
      rfl
    rw [hcomma, foldlM_tokensOf item, foldlM_tokensOfItems rest, Written.ofItems,
      List.reverse_cons, List.append_assoc, List.singleton_append]

theorem foldlM_tokensOfMembers (members : List (String × Data)) {frames : List Written.Frame}
    {later : List Token} {done : List (Option String × Written)} {key : Option String}
    {value : Written} :
    (tokensOfMembers members ++ later).foldlM step ⟨.members done key :: frames, .done value⟩ =
      later.foldlM step
        ⟨frames, .done (.record (((key, value) :: done).reverse ++ Written.ofMembers members))⟩ := by
  match members with
  | [] =>
    rw [Written.ofMembers, List.append_nil]
    rfl
  | (key', value') :: rest =>
    have hcomma : (tokensOfMembers ((key', value') :: rest) ++ later).foldlM step
        ⟨.members done key :: frames, .done value⟩ =
          (tokensOf value' ++ (tokensOfMembers rest ++ later)).foldlM step
            ⟨.members ((key, value) :: done) (some key') :: frames, .value⟩ := by
      rw [tokensOfMembers, tokensOfMember, List.cons_append, List.append_assoc]
      rfl
    rw [hcomma, foldlM_tokensOf value', foldlM_tokensOfMembers rest, Written.ofMembers,
      Written.ofMember, List.reverse_cons, List.append_assoc, List.singleton_append]

end

/-- A text that spells the tokens of a document is a tree: that of the document. -/
theorem ofText?_of_spells {d : Data} {text : String} (h : Spells (tokensOf d) text.toList) :
    Written.ofText? text = some (Written.ofData d) := by
  have hparse : (tokensOf d ++ []).foldlM step ⟨[], .value⟩ =
      [].foldlM step ⟨[], .done (Written.ofData d)⟩ := foldlM_tokensOf d
  rw [List.append_nil] at hparse
  unfold Written.ofText?
  rw [h.tokens?_eq]
  simp only [Option.bind_eq_bind, Option.bind_some, hparse]
  rfl

mutual

theorem read?_ofData : ∀ d : Data, (Written.ofData d).read? = some d.printed
  | .null | .bool _ | .int _ | .text _ => rfl
  | .float x => by
    rw [Written.ofData, Data.printed]
    split <;> rfl
  | .list items => by
    rw [Written.ofData, Written.read?, readItems?_ofItems, Option.map_some, Data.printed]
  | .record members => by
    rw [Written.ofData, Written.read?, readMembers?_ofMembers, Option.map_some, Data.printed]

theorem readItems?_ofItems : ∀ items : List Data,
    Written.readItems? (Written.ofItems items) = some (Data.printedItems items)
  | [] => rfl
  | item :: rest => by
    rw [Written.ofItems, Written.readItems?, read?_ofData item, readItems?_ofItems rest,
      Data.printedItems]

theorem readMembers?_ofMembers : ∀ members : List (String × Data),
    Written.readMembers? (Written.ofMembers members) = some (Data.printedMembers members)
  | [] => rfl
  | (key, value) :: rest => by
    have hmember : Written.readMember? (some key, Written.ofData value) =
        some (key, value.printed) := by simp only [Written.readMember?, read?_ofData value]
    rw [Written.ofMembers, Written.ofMember, Written.readMembers?, hmember,
      readMembers?_ofMembers rest, Data.printedMembers, Data.printedMember]

end

theorem data?_ofData {d : Data} (h : d.depth ≤ 127) : (Written.ofData d).data? = some d.printed := by
  have hdepth : d.printed.depth ≤ 127 := d.depth_printed ▸ h
  rw [Written.data?, read?_ofData, Option.filter_some, if_pos (by simpa using hdepth)]

end Parsing

section Outlines

theorem Written.ofMembers_eq_map (members : List (String × Data)) :
    ofMembers members = members.map fun member => (some member.1, ofData member.2) := by
  induction members with
  | nil => rfl
  | cons member rest ih => rw [ofMembers, ih, List.map_cons, ofMember]

/-- An outline keeps a document as it stands. -/
def Outline.Keeps (outline : Outline) (d : Data) : Prop :=
  outline (Written.ofData d) = Written.ofData d

theorem Outline.keeps_whole (d : Data) : Outline.Keeps whole d := rfl

/-- Members that are all known, each kept by its own outline, are kept. -/
theorem Outline.keeps_fields {known : List (String × Outline)} {members : List (String × Data)}
    (h : ∀ member ∈ members, ∃ outline, Entries.find? member.1 known = some outline ∧
      Outline.Keeps outline member.2) : Outline.Keeps (fields known) (.record members) := by
  unfold Outline.Keeps
  rw [Written.ofData, Written.ofMembers_eq_map, fields]
  congr 1
  induction members with
  | nil => rfl
  | cons member rest ih =>
    obtain ⟨⟨outline, hfind, hkeeps⟩, hrest⟩ := List.forall_mem_cons.mp h
    rw [List.map_cons, List.filterMap_cons]
    simp only [hfind, Option.map_some]
    rw [ih hrest, show outline (Written.ofData member.2) = _ from hkeeps]

theorem Outline.keeps_entries {outline : Outline} {members : List (String × Data)}
    (h : ∀ member ∈ members, Outline.Keeps outline member.2) :
    Outline.Keeps (entries outline) (.record members) := by
  unfold Outline.Keeps
  rw [Written.ofData, Written.ofMembers_eq_map, entries, List.map_map]
  congr 1
  refine List.map_congr_left fun member hm => ?_
  exact Prod.ext rfl (h member hm)

end Outlines

end ShaderMigration.Json

import ShaderMigration.KeyOrder

namespace ShaderMigration

/-- Texts by key, in key order. -/
@[ext] structure Tags where
  entries : List (String × String)
  sorted : Entries.InKeyOrder entries

namespace Tags

def empty : Tags := ⟨[], .nil⟩

instance : DecidableEq Tags := fun a b =>
  if h : a.entries = b.entries then isTrue (Tags.ext h)
  else isFalse fun hab => h (congrArg entries hab)

instance : Inhabited Tags := ⟨empty⟩

def insert (tags : Tags) (key text : String) : Tags :=
  ⟨Entries.enter key text tags.entries, Entries.inKeyOrder_enter tags.sorted⟩

def find? (tags : Tags) (key : String) : Option String :=
  (tags.entries.find? fun entry => entry.1 == key).map Prod.snd

def ofPairs (pairs : List (String × String)) : Tags :=
  pairs.foldl (fun tags pair => tags.insert pair.1 pair.2) empty

end Tags

end ShaderMigration

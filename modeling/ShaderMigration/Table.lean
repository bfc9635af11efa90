import ShaderMigration.Entries

namespace ShaderMigration

universe u v w

/-- A finite map in insertion order. -/
@[ext] structure Table (κ : Type u) (α : Type v) where
  entries : List (κ × α)
  nodup : (Entries.keys entries).Nodup := by simp

namespace Table

variable {κ : Type u} {α : Type v} {β : Type w} [DecidableEq κ]

instance [DecidableEq α] : DecidableEq (Table κ α) := fun a b =>
  if h : a.entries = b.entries then isTrue (Table.ext h)
  else isFalse fun hab => h (congrArg entries hab)

def empty : Table κ α := ⟨[], by simp⟩

instance : EmptyCollection (Table κ α) := ⟨empty⟩

instance : Inhabited (Table κ α) := ⟨empty⟩

def keys (table : Table κ α) : List κ := Entries.keys table.entries

def values (table : Table κ α) : List α := table.entries.map Prod.snd

def size (table : Table κ α) : Nat := table.entries.length

def isEmpty (table : Table κ α) : Bool := table.entries.isEmpty

def find? (table : Table κ α) (key : κ) : Option α := Entries.find? key table.entries

def contains (table : Table κ α) (key : κ) : Bool := (table.find? key).isSome

/-- Stores a value: a known key keeps its place, a new one goes to the end. -/
def insert (table : Table κ α) (key : κ) (value : α) : Table κ α :=
  ⟨Entries.put key value table.entries, Entries.nodup_keys_put table.nodup⟩

def modify (table : Table κ α) (key : κ) (f : α → α) : Table κ α :=
  ⟨Entries.modify key f table.entries, by rw [Entries.keys_modify]; exact table.nodup⟩

def ofPairs (pairs : List (κ × α)) : Table κ α :=
  ⟨Entries.ofPairs pairs, Entries.nodup_keys_ofPairs pairs⟩

def merge (table other : Table κ α) : Table κ α :=
  other.entries.foldl (fun found entry => found.insert entry.1 entry.2) table

def map (f : α → β) (table : Table κ α) : Table κ β :=
  ⟨table.entries.map fun entry => (entry.1, f entry.2), by
    have h := table.nodup
    simpa [Entries.keys, Function.comp_def] using h⟩

@[simp] theorem find?_insert_self (table : Table κ α) (key : κ) (value : α) :
    (table.insert key value).find? key = some value :=
  Entries.find?_put_self key value table.entries

theorem find?_insert_of_ne (table : Table κ α) {key other : κ} (h : other ≠ key) (value : α) :
    (table.insert key value).find? other = table.find? other :=
  Entries.find?_put_of_ne h value table.entries

theorem find?_modify (table : Table κ α) (key other : κ) (f : α → α) :
    (table.modify key f).find? other =
      if other = key then (table.find? other).map f else table.find? other :=
  Entries.find?_modify key other f table.entries

@[simp] theorem keys_modify (table : Table κ α) (key : κ) (f : α → α) :
    (table.modify key f).keys = table.keys :=
  Entries.keys_modify key f table.entries

theorem mem_keys_iff {table : Table κ α} {key : κ} :
    key ∈ table.keys ↔ ∃ value, table.find? key = some value := by
  have h : table.find? key = none ↔ key ∉ table.keys := Entries.find?_eq_none_iff
  cases hf : table.find? key with
  | none => simpa using h.mp hf
  | some value => simpa [hf] using h

theorem contains_iff {table : Table κ α} {key : κ} : table.contains key ↔ key ∈ table.keys := by
  rw [mem_keys_iff, contains, Option.isSome_iff_exists]

theorem mem_entries_iff {table : Table κ α} {key : κ} {value : α} :
    (key, value) ∈ table.entries ↔ table.find? key = some value :=
  Entries.mem_iff_find? table.nodup

theorem find?_map (f : α → β) (table : Table κ α) (key : κ) :
    (table.map f).find? key = (table.find? key).map f :=
  Entries.find?_map f key table.entries

theorem keys_insert (table : Table κ α) (key : κ) (value : α) :
    (table.insert key value).keys =
      if key ∈ table.keys then table.keys else table.keys ++ [key] :=
  Entries.keys_put key value table.entries

end Table

end ShaderMigration

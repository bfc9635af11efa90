import ShaderMigration.Data
import ShaderMigration.Table

namespace ShaderMigration

def Table.toData {α : Type} (write : α → Data) (table : Table String α) : Data :=
  .record (table.entries.map fun entry => (entry.1, write entry.2))

def Table.ofData? {α : Type} (read : Data → Option α) (d : Data) : Option (Table String α) :=
  d.members?.bind fun members =>
    (members.mapM fun member => (read member.2).map fun a => (member.1, a)).map Table.ofPairs

end ShaderMigration

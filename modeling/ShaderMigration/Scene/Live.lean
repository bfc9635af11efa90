import ShaderMigration.Scene

namespace ShaderMigration

/-- An endless supply of node ids, and how many have been drawn. -/
structure Supply where
  id : Nat → NodeId
  drawn : Nat := 0

namespace Supply

def next (supply : Supply) : NodeId := supply.id supply.drawn

def rest (supply : Supply) : Supply := { supply with drawn := supply.drawn + 1 }

end Supply

structure LiveScene where
  scene : Scene
  supply : Supply

namespace LiveScene

/-- Replaces the scene by the result of an edit that may fail. -/
def edit {α : Type} (result : α) (f : Scene → Except HostError Scene) : Action LiveScene α := fun live =>
  match f live.scene with
  | .ok scene => (.ok result, { live with scene })
  | .error e => (.error e, live)

def addNode (type name : String) : StateM LiveScene NodeId := fun live =>
  let id := live.supply.next
  (id, ⟨live.scene.addNode id type name, live.supply.rest⟩)

def create (type : String) (secondary : Option String) : Action LiveScene NodeId := fun live =>
  let id := live.supply.next
  match live.scene.create id type secondary with
  | .ok scene => (.ok id, ⟨scene, live.supply.rest⟩)
  | .error e => (.error e, live)

def host : Host LiveScene where
  reads live := live.scene.reads
  rename node name := edit name fun scene => scene.rename node name
  create := create
  set node attr value := edit () fun scene => scene.set node attr value
  connect source node attr := edit () fun scene => scene.connect source node attr
  setIndexed node attr index value := edit () fun scene => scene.setIndexed node attr index value
  setTag node key text := edit () fun scene => scene.setTag node key text

theorem edit_error {α : Type} {result : α} {f : Scene → Except HostError Scene} {live : LiveScene}
    {e : HostError} (h : (edit result f live).1 = .error e) : (edit result f live).2 = live := by
  unfold edit at h ⊢
  split
  next hf => simp [hf] at h
  next => rfl

end LiveScene

end ShaderMigration

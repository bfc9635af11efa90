import ShaderMigration.Value

namespace ShaderMigration.Arnold

/-- Cuts a channel to a byte and scales it to at most one. -/
def channel (v : Float) : Float := Binary64.clamp 0.0 255.0 v / 255.0

def redOf (t : Float) : Float :=
  if t ≤ 66.0 then 255.0 else 329.698727446 * Float.pow (t - 60.0) (-0.1332047592)

def greenOf (t : Float) : Float :=
  if t ≤ 66.0 then 99.4708025861 * Float.log t - 161.1195681661
  else 288.1221695283 * Float.pow (t - 60.0) (-0.0755148492)

def blueOf (t : Float) : Float :=
  if t ≥ 66.0 then 255.0
  else if t ≤ 19.0 then 0.0
  else 138.5177312231 * Float.log (t - 10.0) - 305.0447927307

/-- The colour of a glowing body, by an approximation that is good from 1000 to 40000 kelvin. -/
def colorOfTemperature (kelvin : Float) : Color :=
  let t := Binary64.clamp 1000.0 40000.0 kelvin / 100.0
  ⟨channel (redOf t), channel (greenOf t), channel (blueOf t)⟩

end ShaderMigration.Arnold

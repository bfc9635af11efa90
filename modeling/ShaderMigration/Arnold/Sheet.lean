import ShaderMigration.Arnold.Temperature
import ShaderMigration.Rule

namespace ShaderMigration.Arnold

variable {σ : Type}

def ofNumber (f : Float → Value) : Converter := .unary fun value => return f (← value.asNumber)

def ofInteger (f : Int64 → Value) : Converter := .unary fun value => return f (← value.asInteger)

def fixedInt (n : Int64) : Converter := .constant (.int n)

def exposureToIntensity : Converter := ofNumber fun x => .float (Float.pow 2.0 x)

def meanOfComponents : Converter := .unary fun value => return .float (← value.asVector).mean

/-- A failed reading of the scene as the failure of a converter. -/
def convertError (cause : HostError) : ConvertError := ⟨cause.message⟩

/-- The path of the texture that drives the colour of a dome. -/
def domeTexture (old : NodeView) : Except ConvertError Value := do
  let plugs ← (old.reads.connections old.node "color").mapError convertError
  match plugs with
  | [] => throw ⟨"dome colour is not driven by a texture"⟩
  | source :: _ =>
    let type ← (old.reads.nodeType source.node).mapError convertError
    let attr := if type == "file" then "fileTextureName" else "filename"
    (old.reads.getStatic source.node attr).mapError convertError

/-- The colour of a light: that of its temperature where it uses one, else its stored colour. -/
def lightColor (value : Value) (old : NodeView) : Except ConvertError Value := do
  let flag ← (old.getStatic "aiUseColorTemperature").mapError convertError
  if ← flag.asTruth then return .color (colorOfTemperature (← value.asNumber))
  else (old.getStatic "color").mapError convertError

/-- Connects what drives an attribute to a target, or copies the stored value. -/
def forwardInput (host : Host σ) (old : NodeId) (attr : String) (new : NodeId) (target : String) :
    Step σ := fun state =>
  let reads := host.reads state
  let forward : Action σ Unit := do
    match ← reads.connections old attr with
    | plug :: _ => host.connect plug new target
    | [] => host.set new target (← reads.getStatic old attr)
  let (result, state) := forward state
  (result.mapError .host, state)

def standard : Rule σ :=
  (Rule.replacing "RedshiftMaterial").withSecondary "shader"
    |>.fanOut "color" ["diffuse_color", "transl_color"]
    |>.rename "Kd" "diffuse_weight"
    |>.rename "diffuseRoughness" "diffuse_roughness"
    |>.rename "Kb" "transl_weight"
    |>.rename "directDiffuse" "diffuse_direct"
    |>.rename "indirectDiffuse" "diffuse_indirect"
    |>.rename "KsColor" "refl_color"
    |>.rename "Ks" "refl_weight"
    |>.rename "specularRoughness" "refl_roughness"
    |>.computed "specularAnisotropy" "refl_aniso" (ofNumber fun x => .float ((x - 0.5) * 2.0))
    |>.rename "specularRotation" "refl_aniso_rotation"
    |>.rename "specularDistribution" "refl_brdf"
    |>.computed "specularFresnel" "refl_fresnel_mode" (ofInteger fun n => .int (if n == 1 then 1 else 3))
    |>.computed "Ksn" "refl_reflectivity"
      (ofNumber fun x => .color (Color.grey (if 0.0 < x then x else 0.001)))
    |>.computed "Ksn" "refl_edge_tint" (.constant (.color (Color.grey 1.0)))
    |>.rename "directSpecular" "refl_direct"
    |>.rename "indirectSpecular" "refl_indirect"
    |>.rename "KtColor" "refr_color"
    |>.rename "Kt" "refr_weight"
    |>.computed "IOR" "refr_ior" (ofNumber fun x => .float (Binary64.max x 1.0))
    |>.rename "FresnelUseIOR" "refr_use_base_IOR"
    |>.rename "dispersionAbbe" "refr_abbe"
    |>.rename "refractionRoughness" "refr_roughness"
    |>.rename "transmittance" "refr_transmittance"
    |>.rename "opacity" "opacity_color"
    |>.rename "normalCamera" "bump_input"
    |>.rename "KsssColor" "ms_color0"
    |>.rename "Ksss" "ms_amount"
    |>.computed "sssRadius" "ms_radius0" meanOfComponents
    |>.rename "emissionColor" "emission_color"
    |>.rename "emission" "emission_weight"

def standardSurface : Rule σ :=
  let mapped := (Rule.replacing "RedshiftMaterial").withSecondary "shader"
    |>.fanOut "baseColor" ["diffuse_color", "transl_color"]
    |>.rename "base" "diffuse_weight"
    |>.rename "diffuseRoughness" "diffuse_roughness"
    |>.rename "indirectDiffuse" "diffuse_indirect"
    |>.rename "specular" "refl_weight"
    |>.rename "specularColor" "refl_color"
    |>.rename "specularRoughness" "refl_roughness"
    |>.rename "specularIOR" "refl_ior"
    |>.rename "specularAnisotropy" "refl_aniso"
    |>.rename "specularRotation" "refl_aniso_rotation"
    |>.computed "metalness" "refl_fresnel_mode" (fixedInt 2)
    |>.computed "metalness" "refl_brdf" (fixedInt 1)
    |>.rename "indirectSpecular" "refl_indirect"
    |>.rename "transmission" "refr_weight"
    |>.rename "transmissionColor" "refr_color"
    |>.rename "transmissionScatter" "ss_scatter_coeff"
    |>.rename "transmissionDispersion" "refr_abbe"
    |>.rename "thinWalled" "refr_thin_walled"
    |>.rename "normalCamera" "bump_input"
    |>.rename "subsurface" "ms_amount"
    |>.rename "subsurfaceColor" "ms_color0"
    |>.computed "subsurfaceRadius" "ms_radius0" meanOfComponents
    |>.rename "emissionColor" "emission_color"
    |>.rename "emission" "emission_weight"
  { mapped with
    after := some fun host old new => forwardInput host old "metalness" new "refl_metalness" }

def skinShader : Rule σ :=
  (Rule.replacing "RedshiftSkin").withSecondary "shader"
    |>.rename "sssWeight" "overall_scale"
    |>.rename "globalSssRadiusMultiplier" "radius_scale"
    |>.rename "shallowScatterColor" "shallow_color"
    |>.rename "shallowScatterWeight" "shallow_weight"
    |>.rename "shallowScatterRadius" "shallow_radius"
    |>.rename "midScatterColor" "mid_color"
    |>.rename "midScatterWeight" "mid_weight"
    |>.rename "midScatterRadius" "mid_radius"
    |>.rename "deepScatterColor" "deep_color"
    |>.rename "deepScatterWeight" "deep_weight"
    |>.rename "deepScatterRadius" "deep_radius"
    |>.rename "specularColor" "refl_color0"
    |>.rename "specularWeight" "refl_weight0"
    |>.rename "specularRoughness" "refl_gloss0"
    |>.rename "specularIor" "refl_ior0"
    |>.rename "sheenColor" "refl_color1"
    |>.rename "sheenWeight" "refl_weight1"
    |>.rename "sheenRoughness" "refl_gloss1"
    |>.rename "sheenIor" "refl_ior1"
    |>.rename "normalCamera" "bump_input"

def occlusion : Rule σ :=
  (Rule.replacing "RedshiftAmbientOcclusion").withSecondary "utility"
    |>.rename "white" "bright"
    |>.rename "black" "dark"
    |>.rename "spread" "spread"
    |>.computed "falloff" "fallOff" (ofNumber fun x => .float (x + 1.0))
    |>.rename "farClip" "maxDistance"
    |>.rename "invertNormals" "invert"

def normalMap : Rule σ :=
  (Rule.replacing "RedshiftBumpMap").withSecondary "texture"
    |>.rename "input" "input"
    |>.computed "strength" "scale" (.unary pure)
    |>.computed "strength" "inputType" (fixedInt 1)

def colorCorrect : Rule σ :=
  (Rule.replacing "RedshiftColorCorrection").withSecondary "utility"
    |>.rename "input" "input"
    |>.rename "gamma" "gamma"
    |>.computed "hueShift" "hue" (ofNumber fun x => .float (Binary64.remainder (x * 360.0) 360))
    |>.rename "saturation" "saturation"
    |>.computed "contrast" "contrast" (ofNumber fun x => .float (x * 0.5))
    |>.computed "exposure" "level" exposureToIntensity

def corners : Rule σ :=
  (Rule.replacing "RedshiftRoundCorners").withSecondary "texture"
    |>.rename "samples" "numSamples"
    |>.rename "radius" "radius"
    |>.rename "selfOnly" "sameObjectOnly"

def skyDome : Rule σ :=
  (Rule.replacing "RedshiftDomeLight").withSecondary "light"
    |>.computed "color" "tex0" (.binary fun _ old => domeTexture old)

def light (withDecay : Bool) : Rule σ :=
  let exposed := (Rule.onto : Rule σ)
    |>.computed "aiExposure" "intensity" exposureToIntensity
    |>.computed "aiSamples" "shadowRays" (fixedInt 1)
  let decaying :=
    if withDecay then
      exposed.computed "aiDecayType" "decayRate" (ofInteger fun n => .int (if n == 0 then 0 else 2))
    else exposed
  decaying.computed "aiColorTemperature" "color" (.binary lightColor)

/-- The rule for meshes; linear subdivision turns smoothing off. -/
def mesh : Rule σ :=
  (Rule.onto : Rule σ)
    |>.computed "aiSubdivType" "rsEnableSubdivision" (ofInteger fun n => .bool (decide (0 < n)))
    |>.computed "aiSubdivType" "rsSubdivisionRule" (fixedInt 0)
    |>.computed "aiSubdivType" "rsDoSmoothSubdivision" (ofInteger fun n => .bool (n != 2))
    |>.computed "aiSubdivAdaptiveSpace" "rsScreenSpaceAdaptive" (ofInteger fun n => .bool (n == 0))
    |>.rename "aiSubdivIterations" "rsMaxTessellationSubdivs"
    |>.rename "aiDispHeight" "rsDisplacementScale"
    |>.rename "aiDispAutobump" "rsAutoBumpMap"

/-- A rule that only transcodes the texture whose path an attribute holds. -/
def texture (transcoder : Texture.Transcoder) (attr : String) : Rule σ :=
  { textureJob := some (Texture.jobOfAttribute transcoder attr) }

def textureRules : Option Texture.Transcoder → List (String × Rule σ)
  | none => []
  | some transcoder =>
    [("file", texture transcoder "fileTextureName"), ("aiImage", texture transcoder "filename")]

def toRedshift (transcoder : Option Texture.Transcoder) : Sheet σ :=
  Table.ofPairs <| textureRules transcoder ++
    [("aiStandard", standard), ("aiStandardSurface", standardSurface), ("aiSkin", skinShader),
      ("aiAmbientOcclusion", occlusion), ("aiNormalMap", normalMap),
      ("aiColorCorrect", colorCorrect), ("aiRoundCorners", corners), ("aiSkyDomeLight", skyDome),
      ("areaLight", light true), ("pointLight", (light true).rename "aiRadius" "lightRadius"),
      ("directionalLight", (light false).rename "aiAngle" "lightAngle"), ("mesh", mesh)]

end ShaderMigration.Arnold

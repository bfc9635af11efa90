import ShaderMigration.Scene

namespace ShaderMigration.Arnold

def grey (v : Float) : Value := .color (Color.grey v)

def choice (n : Int64) : Value := .scalar (.enumeration n)

def ofDefaults (type : String) (defaults : List (String × Value)) : Schema :=
  { type, attributes := Table.ofPairs defaults }

def material : Schema := ofDefaults "RedshiftMaterial" [
  ("diffuse_color", grey 0.5),
  ("diffuse_weight", .float 1.0),
  ("diffuse_roughness", .float 0.0),
  ("diffuse_direct", .float 1.0),
  ("diffuse_indirect", .float 1.0),
  ("transl_color", grey 0.0),
  ("transl_weight", .float 0.0),
  ("refl_color", grey 1.0),
  ("refl_weight", .float 1.0),
  ("refl_roughness", .float 0.0),
  ("refl_aniso", .float 0.0),
  ("refl_aniso_rotation", .float 0.0),
  ("refl_brdf", choice 0),
  ("refl_fresnel_mode", choice 3),
  ("refl_reflectivity", grey 0.04),
  ("refl_edge_tint", grey 0.0),
  ("refl_metalness", .float 0.0),
  ("refl_ior", .float 1.5),
  ("refl_direct", .float 1.0),
  ("refl_indirect", .float 1.0),
  ("refr_color", grey 1.0),
  ("refr_weight", .float 0.0),
  ("refr_ior", .float 1.5),
  ("refr_use_base_IOR", .bool true),
  ("refr_abbe", .float 0.0),
  ("refr_roughness", .float 0.0),
  ("refr_transmittance", grey 1.0),
  ("refr_thin_walled", .bool false),
  ("ss_scatter_coeff", grey 1.0),
  ("opacity_color", grey 1.0),
  ("bump_input", .vector3 (.splat 0.0)),
  ("ms_amount", .float 0.0),
  ("ms_color0", grey 1.0),
  ("ms_radius0", .float 1.0),
  ("emission_color", grey 0.0),
  ("emission_weight", .float 0.0),
  ("outColor", grey 0.0)]

def skin : Schema := ofDefaults "RedshiftSkin" [
  ("overall_scale", .float 1.0),
  ("radius_scale", .float 1.0),
  ("shallow_color", .color ⟨1.0, 0.9, 0.7⟩),
  ("shallow_weight", .float 0.5),
  ("shallow_radius", .float 0.15),
  ("mid_color", .color ⟨0.9, 0.4, 0.3⟩),
  ("mid_weight", .float 0.25),
  ("mid_radius", .float 0.25),
  ("deep_color", .color ⟨0.7, 0.1, 0.1⟩),
  ("deep_weight", .float 1.0),
  ("deep_radius", .float 0.6),
  ("refl_color0", grey 1.0),
  ("refl_weight0", .float 0.7),
  ("refl_gloss0", .float 0.6),
  ("refl_ior0", .float 1.4),
  ("refl_color1", grey 1.0),
  ("refl_weight1", .float 0.0),
  ("refl_gloss1", .float 0.6),
  ("refl_ior1", .float 1.4),
  ("bump_input", .vector3 (.splat 0.0)),
  ("outColor", grey 0.0)]

def ambientOcclusion : Schema := ofDefaults "RedshiftAmbientOcclusion" [
  ("bright", grey 1.0),
  ("dark", grey 0.0),
  ("spread", .float 0.8),
  ("fallOff", .float 1.0),
  ("maxDistance", .float 0.0),
  ("invert", choice 0),
  ("outColor", grey 0.0)]

def bumpMap : Schema := ofDefaults "RedshiftBumpMap" [
  ("input", grey 0.0),
  ("scale", .float 1.0),
  ("inputType", choice 0),
  ("out", .vector3 (.splat 0.0))]

def colorCorrection : Schema := ofDefaults "RedshiftColorCorrection" [
  ("input", grey 0.0),
  ("gamma", .float 1.0),
  ("hue", .float 0.0),
  ("saturation", .float 1.0),
  ("contrast", .float 0.0),
  ("level", .float 1.0),
  ("outColor", grey 0.0)]

def roundCorners : Schema := ofDefaults "RedshiftRoundCorners" [
  ("numSamples", .int 4),
  ("radius", .float 0.1),
  ("sameObjectOnly", .bool false),
  ("out", .vector3 (.splat 0.0))]

def domeLight : Schema := ofDefaults "RedshiftDomeLight" [
  ("tex0", .string "")]

/-- Every node type that the conversion creates. -/
def schemas : List Schema :=
  [material, skin, ambientOcclusion, bumpMap, colorCorrection, roundCorners, domeLight]

end ShaderMigration.Arnold

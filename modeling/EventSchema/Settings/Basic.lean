import EventSchema.Schema.Format

namespace EventSchema

structure Settings where
  /-- The share in percent that the most frequent value of a field must reach for the field to be
  recommended for rollup. -/
  rollupRatio : Float := 80.0
  /-- The formats whose fields are looked at for rollup. -/
  uniqueFormats : List Format := [.uuid, .email, .uri]
  /-- How deep sample values may nest. -/
  maxDepth : Nat := 32
  /-- Whether formats other than temporal ones are detected in strings. -/
  detectFormats : Bool := true

inductive SettingsError where
  | ratioNotFinite
  | depthZero
  deriving DecidableEq, Repr

def SettingsError.message : SettingsError → String
  | ratioNotFinite => "Invalid config: rollupRatio must be a finite number"
  | depthZero => "Invalid config: maxDepth must be at least 1"

namespace Settings

def isUnique (settings : Settings) (format : Format) : Bool := format ∈ settings.uniqueFormats

def clampPercent (value : Float) : Float :=
  if value < 0.0 then 0.0 else if value > 100.0 then 100.0 else value

/-- Refuses settings that cannot be meant, and clamps the ratio. -/
def validate (settings : Settings) : Except SettingsError Settings :=
  if !settings.rollupRatio.isFinite then .error .ratioNotFinite
  else if settings.maxDepth = 0 then .error .depthZero
  else .ok { settings with rollupRatio := clampPercent settings.rollupRatio }

def withRollupRatio (ratio : Float) (settings : Settings) : Settings :=
  { settings with rollupRatio := clampPercent ratio }

def withMaxDepth (depth : Nat) (settings : Settings) : Settings :=
  { settings with maxDepth := max depth 1 }

end Settings

end EventSchema

import EngineHost.Failure

/-!
# Locations

Objects are named by locations: a bucket and an object in it, an address on the web, or else a path.
-/

namespace EngineHost

/-- Where an object is. -/
inductive Location where
  | bucket (bucket object : String)
  | web (url : String)
  | file (path : String)
  deriving DecidableEq, Repr

/-- Why a text is no location. -/
inductive LocationError where
  | empty
  | badBucket (text : String)
  deriving DecidableEq, Repr

/-- The wording of a refusal. -/
def LocationError.message : LocationError → String
  | .empty => "empty location"
  | .badBucket text => "invalid GCS location " ++ Text.quote text ++ " (want gs://bucket/object)"

namespace Location

/-- Reads a location. -/
def resolve (text : String) : Except LocationError Location :=
  if Text.startsWith "gs://" text then
    match Text.cut? '/' (Text.stripStart "gs://" text) with
    | some (name, object) =>
      if name = "" ∨ object = "" then .error (.badBucket text) else .ok (.bucket name object)
    | none => .error (.badBucket text)
  else if Text.startsWith "http://" text || Text.startsWith "https://" text then .ok (.web text)
  else if text = "" then .error .empty
  else .ok (.file text)

/-- The refusal to write to the web. -/
def readOnly (url : String) : Failure :=
  .plain ("writing to " ++ Text.quote url ++ ": http locations are read-only")

end Location

end EngineHost

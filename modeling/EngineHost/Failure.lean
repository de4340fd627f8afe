import EngineHost.Tensor.Device
import EngineHost.Tensor.Shape
import EngineHost.Text.Bytes

/-!
# Failures

A failure is a cause, possibly with contexts around it: `Failure.within context cause` reads
`context: cause`. Callers tell failures apart by `Failure.Kind`; a failure is of a kind when its
cause is, whatever contexts stand around it, and a failed load is also of every kind that made it
fail.

`Failure.crash` is not a reported error. It stands for an access outside a buffer, a buffer that
cannot be had or a look into a value that is not there, that is, for a computation that has no
result at all.
-/

namespace EngineHost

/-- Why a caller gave up waiting. -/
inductive Interruption where
  | canceled
  | deadline
  deriving DecidableEq, Repr

/-- The wording of an interruption. -/
def Interruption.message : Interruption → String
  | .canceled => "context canceled"
  | .deadline => "context deadline exceeded"

/-- What a running computation polls: nothing ever, or an interruption from some poll on. -/
structure Signal where
  firing : Option (Nat × Interruption)
  deriving DecidableEq, Repr

namespace Signal

/-- Never interrupted. -/
def never : Signal := ⟨none⟩

/-- Interrupted from the start. -/
def fired (why : Interruption) : Signal := ⟨some (0, why)⟩

/-- What the next poll says, and the signal after it. -/
def poll (s : Signal) : Option Interruption × Signal :=
  match s.firing with
  | none => (none, s)
  | some (0, why) => (some why, s)
  | some (n + 1, why) => (none, ⟨some (n, why)⟩)

end Signal

/-- Inputs outside what an engine supports. An absent list is not shown, an empty one is. -/
structure ShapeBinding where
  engine : String := ""
  input : Bytes := []
  shape : Option Shape := none
  min : Option Shape := none
  max : Option Shape := none
  reason : String := ""
  deriving DecidableEq, Repr

/-- The wording of a shape binding failure: each part that is there, in order. -/
def ShapeBinding.message (b : ShapeBinding) : String :=
  let engine := if b.engine = "" then "" else " for engine " ++ Text.quote b.engine
  let input := if b.input = [] then "" else " input " ++ Text.quoteBytes b.input
  let shape := match b.shape with
    | some s => " shape " ++ s.listText
    | none => ""
  let profile :=
    if b.min.isSome || b.max.isSome then
      " (profile min " ++ (b.min.getD []).listText ++ " max " ++ (b.max.getD []).listText ++ ")"
    else ""
  let reason := if b.reason = "" then "" else ": " ++ b.reason
  "shape binding failed" ++ engine ++ input ++ shape ++ profile ++ reason

/-- A failed computation. -/
inductive Failure where
  /-- A corrupted or unreadable engine handle. -/
  | malformed (field reason : String)
  /-- A payload that cannot be loaded here. -/
  | loading (engine : String) (hardwareCompatible : Bool) (platform : String) (cause : Failure)
  /-- Inputs outside the supported profile. -/
  | shapeBinding (b : ShapeBinding)
  /-- An input on another device than the engine's. -/
  | deviceMismatch (engine input : String) (got want : Device)
  /-- A handle that does not say what its outputs look like. -/
  | noOutputMetadata
  | unknownOperator
  | unknownClass
  | duplicate
  | interrupted (why : Interruption)
  /-- A file or an object that is not there. -/
  | missing (text : String)
  | plain (text : String)
  | within (context : String) (cause : Failure)
  | crash
  deriving DecidableEq, Repr

namespace Failure

/-- The wording of a failure. -/
def message : Failure → String
  | .malformed field reason =>
    if field = "" then "malformed engine handle: " ++ reason
    else "malformed engine handle: field " ++ field ++ ": " ++ reason
  | .loading engine hardwareCompatible platform cause =>
    "deserialize engine " ++ Text.quote engine ++ " (hardware_compatible=" ++
      Text.ofBool hardwareCompatible ++ ", target_platform=" ++ platform ++ "): " ++ cause.message
  | .shapeBinding b => b.message
  | .deviceMismatch engine input got want =>
    "engine " ++ Text.quote engine ++ " input " ++ Text.quote input ++ " is on " ++ got.text ++
      ", engine runs on " ++ want.text
  | .noOutputMetadata => "engine handle has no output metadata"
  | .unknownOperator => "unknown operator"
  | .unknownClass => "unknown class"
  | .duplicate => "already registered"
  | .interrupted why => why.message
  | .missing text => text
  | .plain text => text
  | .within context cause => context ++ ": " ++ cause.message
  | .crash => "access out of range"

/-- What callers tell apart. -/
inductive Kind where
  | malformed
  | loading
  | shapeBinding
  | deviceMismatch
  | noOutputMetadata
  | unknownOperator
  | unknownClass
  | duplicate
  | interrupted (why : Interruption)
  | missing
  deriving DecidableEq, Repr

/-- Is a failure of a kind? -/
def is (k : Kind) : Failure → Bool
  | .malformed _ _ => k = .malformed
  | .loading _ _ _ cause => k = .loading || is k cause
  | .shapeBinding _ => k = .shapeBinding
  | .deviceMismatch _ _ _ _ => k = .deviceMismatch
  | .noOutputMetadata => k = .noOutputMetadata
  | .unknownOperator => k = .unknownOperator
  | .unknownClass => k = .unknownClass
  | .duplicate => k = .duplicate
  | .interrupted why => k = .interrupted why
  | .missing _ => k = .missing
  | .plain _ => false
  | .within _ cause => is k cause
  | .crash => false

/-- Did the caller give up? -/
def isInterrupted (f : Failure) : Bool :=
  f.is (.interrupted .canceled) || f.is (.interrupted .deadline)

/-- Is a failure a computation without a result? -/
def isCrash : Failure → Bool
  | .crash => true
  | .loading _ _ _ cause => cause.isCrash
  | .within _ cause => cause.isCrash
  | _ => false

end Failure

end EngineHost

import EngineHost.Digest.Sha256
import EngineHost.Handle.Metadata
import EngineHost.Number.Size

/-!
# Engine handles

A handle owns a compiled payload with what is needed to bind and place it. `HandleParts` are the
parts in any state; a `Handle` is a set of parts that passed `HandleParts.validate`. Changing a part
means making a new handle, which checks again; the compatibility flag alone is never checked and can
change freely. The checks ask less than loading an exported handle does, so there are handles whose
exported form is not loaded again.
-/

namespace EngineHost

/-- The parts of a handle. -/
structure HandleParts (ν : Type := String) where
  name : String := ""
  device : DeviceInfo := ⟨⟨"", 0⟩, ""⟩
  engine : Bytes := []
  inputNames : List ν := []
  outputNames : List ν := []
  hardwareCompatible : Bool := false
  metadata : Metadata ν := {}
  targetPlatform : String := ""
  reserved : String := ""
  deriving DecidableEq, Repr, Inhabited

namespace HandleParts

variable {ν : Type} [DecidableEq ν] [BindingName ν]

/-- Fills in what may be left open: the platform of this host, the processor. -/
def withDefaults (p : HandleParts ν) : HandleParts ν :=
  { p with
    targetPlatform := if p.targetPlatform = "" then hostPlatform else p.targetPlatform
    device := { p.device with device := p.device.device.normalized }
    metadata := p.metadata.normalized }

/-- Checks binding names: none is empty, holds the delimiter or stands twice. -/
def checkNames (slot : Slot) (seen : List ν) : List ν → Except Malformed Unit
  | [] => .ok ()
  | n :: more =>
    if n = BindingName.empty then .error (slot.malformed "empty binding name")
    else if BindingName.hasDelim n then
      .error (slot.malformed ("binding name " ++ BindingName.quote n ++ " contains " ++
        Text.quote "%"))
    else if seen.contains n then
      .error (slot.malformed ("duplicate binding name " ++ BindingName.quote n))
    else checkNames slot (n :: seen) more

/-- Checks all parts, in a fixed order. -/
def validate (p : HandleParts ν) : Except Malformed Unit :=
  if Text.isBlankText p.name then .error (Slot.name.malformed "empty engine name")
  else if p.device.signature = "" then .error (Slot.device.malformed "empty device signature")
  else if Text.hasChar bindingDelim p.device.signature then
    .error (Slot.device.malformed ("device signature " ++ Text.quote p.device.signature ++
      " contains " ++ Text.quote "%"))
  else if p.engine.isEmpty then .error (Slot.engine.malformed "empty engine payload")
  else do
    checkNames .inputNames [] p.inputNames
    if p.outputNames.isEmpty then
      .error (Slot.outputNames.malformed "at least one binding name is required")
    checkNames .outputNames [] p.outputNames
    if Text.isBlankText p.targetPlatform then
      .error (Slot.targetPlatform.malformed "empty target platform")
    p.metadata.validate p.inputNames p.outputNames

end HandleParts

/-- A handle: parts that passed every check. -/
structure Handle (ν : Type := String) [DecidableEq ν] [BindingName ν] extends HandleParts ν where
  valid : toHandleParts.validate = .ok ()

namespace Handle

theorem toHandleParts_inj {ν : Type} [DecidableEq ν] [BindingName ν] {h h' : Handle ν} :
    h.toHandleParts = h'.toHandleParts ↔ h = h' := by
  cases h
  cases h'
  simp

instance {ν : Type} [DecidableEq ν] [BindingName ν] : DecidableEq (Handle ν) := fun _ _ =>
  decidable_of_decidable_of_iff toHandleParts_inj

/-- Makes a handle of parts. -/
def make {ν : Type} [DecidableEq ν] [BindingName ν] (p : HandleParts ν) :
    Except Malformed (Handle ν) :=
  let p := p.withDefaults
  match h : p.validate with
  | .ok () => .ok ⟨p, h⟩
  | .error e => .error e

variable (h : Handle)

/-- The digest of the payload. -/
def digest : String :=
  Sha256.hexDigest h.engine

/-- The handle with another compatibility flag; the payload stays as it is. -/
def withHardwareCompatible (flag : Bool) : Handle :=
  ⟨{ h.toHandleParts with hardwareCompatible := flag }, h.valid⟩

/-- The handle for another device. -/
def withDevice (device : DeviceInfo) : Except Malformed Handle :=
  make { h.toHandleParts with device }

/-- The handle labelled for another platform. -/
def withTargetPlatform (platform : String) : Except Malformed Handle :=
  make { h.toHandleParts with targetPlatform := platform }

/-- The size of the payload for reading. -/
def sizeText : String :=
  EngineHost.sizeText (UInt64.ofNat h.engine.length)

/-- The printed form. -/
def text : String :=
  h.name ++ " (" ++ h.sizeText ++ ", inputs " ++ Text.bracketed h.inputNames ++ ", outputs " ++
    Text.bracketed h.outputNames ++ ", " ++ h.device.device.text ++ ", hardware_compatible=" ++
    Text.ofBool h.hardwareCompatible ++ ", " ++ h.targetPlatform ++ ")"

end Handle

end EngineHost

import EngineHost.Engine.Library
import EngineHost.Handle.Schema

/-!
# The host of engines

What runtimes know of the machine they run on.
-/

namespace EngineHost

/-- The hardware signature where none is given. -/
def defaultSignature : String := "cpu/generic"

/-- A host as the runtimes see it; what is empty is this host's. -/
structure HostConfig where
  platform : String := ""
  signature : String := ""
  /-- How many workers a kernel may use. -/
  workers : Nat := 1
  /-- The library for ONNX graphs. -/
  library : LibraryLookup :=
    ⟨⟨"not found", Library.unknownVersion⟩,
      some (.plain "unable to detect ONNX Runtime library path")⟩
  /-- The version of the library's interface; zero for the usual one. -/
  apiVersion : UInt32 := 0
  deriving DecidableEq, Repr

/-- Fills in this host's platform and device. -/
def HostConfig.withDefaults (c : HostConfig) : HostConfig :=
  { c with
    platform := if c.platform = "" then hostPlatform else c.platform
    signature := if c.signature = "" then defaultSignature else c.signature }

end EngineHost

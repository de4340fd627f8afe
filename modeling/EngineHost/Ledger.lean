/-!
# The ledger of device resources

Loading an engine, opening a context on it, growing the context's buffers and closing both are
entries. A ledger sums them up in three counters of sixty-four bits that wrap around. It is idle
when all three are zero; a run that closes whatever it opened leaves the ledger as it found it.
-/

namespace EngineHost

/-- What happens to device resources. -/
inductive Entry where
  | engineOpened (bytes : Int64)
  | engineClosed (bytes : Int64)
  | contextOpened (bytes : Int64)
  | contextClosed (bytes : Int64)
  | grown (bytes : Int64)
  deriving DecidableEq, Repr

/-- The resources that are held. -/
structure Ledger where
  engines : Int64 := 0
  contexts : Int64 := 0
  bytes : Int64 := 0
  deriving DecidableEq, Repr

namespace Ledger

/-- Nothing held. -/
def empty : Ledger := {}

/-- The ledger after one entry. -/
def post (l : Ledger) : Entry → Ledger
  | .engineOpened n => { l with engines := l.engines + 1, bytes := l.bytes + n }
  | .engineClosed n => { l with engines := l.engines - 1, bytes := l.bytes - n }
  | .contextOpened n => { l with contexts := l.contexts + 1, bytes := l.bytes + n }
  | .contextClosed n => { l with contexts := l.contexts - 1, bytes := l.bytes - n }
  | .grown n => { l with bytes := l.bytes + n }

/-- The ledger after a list of entries. -/
def postAll (l : Ledger) (entries : List Entry) : Ledger :=
  entries.foldl post l

/-- Is nothing held? -/
def isIdle (l : Ledger) : Bool :=
  l.engines = 0 && l.contexts = 0 && l.bytes = 0

end Ledger

end EngineHost

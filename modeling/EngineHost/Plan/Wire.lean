import EngineHost.Digest.Crc32
import EngineHost.Plan.Network

/-!
# The byte format of compiled networks

A compiled network is written as

* the magic `EBPL`, the format version in two octets, an octet of flags whose lowest bit says
  whether the plan is hardware compatible,
* the platform and the device signature,
* the inputs, each with its name, its rank in one octet and its two lists of sizes,
* the layers, each with its label, its operands, its output, its axis in four octets and its scalar,
* the outputs,
* the check value of all that.

Numbers are little-endian. A string is its length in two octets and its octets; the lists of inputs,
layers and outputs have their length in two octets, the list of operands in one. Lengths, ranks and
axes are cut to their width on writing; only a string that does not fit is refused.
-/

namespace EngineHost

/-- A compiled network: what it was built for, and the network. -/
structure CompiledPlan where
  version : UInt16
  hardwareCompatible : Bool
  platform : Bytes
  signature : Bytes
  network : Network
  deriving DecidableEq, Repr

namespace Wire

/-- The first octets of every plan. -/
def magic : Bytes := Bytes.ofText "EBPL"

/-- The only version of the format. -/
def formatVersion : UInt16 := 1

/-! ### Writing -/

/-- A string behind its length. -/
def putString (s : Bytes) : Bytes :=
  Bytes.littleEndian 2 s.length ++ s

/-- A size. -/
def putInt64 (n : Int64) : Bytes :=
  Bytes.littleEndian 8 n.toUInt64.toNat

/-- An input. -/
def putInput (i : NetworkInput) : Bytes :=
  putString i.name ++ Bytes.littleEndian 1 i.min.length ++ i.min.flatMap putInt64 ++
    i.max.flatMap putInt64

/-- A layer. -/
def putLayer (l : Layer) : Bytes :=
  putString l.label ++ Bytes.littleEndian 1 l.operands.length ++ l.operands.flatMap putString ++
    putString l.output ++ Bytes.littleEndian 4 l.axis.toUInt64.toNat ++
    Bytes.littleEndian 4 l.scalar.bits.toNat

/-- Everything before the check value. -/
def body (p : CompiledPlan) : Bytes :=
  let net := p.network
  magic ++ Bytes.littleEndian 2 p.version.toNat ++ [if p.hardwareCompatible then 1 else 0] ++
    putString p.platform ++ putString p.signature ++
    Bytes.littleEndian 2 net.inputs.length ++ net.inputs.flatMap putInput ++
    Bytes.littleEndian 2 net.layers.length ++ net.layers.flatMap putLayer ++
    Bytes.littleEndian 2 net.outputs.length ++ net.outputs.flatMap putString

/-- A body with its check value. -/
def sealed (body : Bytes) : Bytes :=
  body ++ Bytes.littleEndian 4 (Crc32.checksum body).toNat

/-- Every string of a plan, in the order of writing. -/
def strings (p : CompiledPlan) : List Bytes :=
  let net := p.network
  [p.platform, p.signature] ++ net.inputs.map (·.name) ++
    net.layers.flatMap (fun l => l.label :: l.operands ++ [l.output]) ++ net.outputs

/-- The largest length of a string. -/
def maxString : Nat := 65535

/-- The length of a string that does not fit. -/
structure TooLong where
  length : Nat
  deriving DecidableEq, Repr

/-- The wording of the refusal. -/
def TooLong.message (e : TooLong) : String :=
  "string of " ++ toString e.length ++ " bytes does not fit a plan"

/-- Writes a plan. -/
def encode (p : CompiledPlan) : Except TooLong Bytes :=
  match (strings p).find? (maxString < ·.length) with
  | some s => .error ⟨s.length⟩
  | none => .ok (sealed (body p))

/-! ### Reading -/

/-- Why octets are refused as a plan. -/
inductive ReadError where
  | badMagic
  | checksum (got want : UInt32)
  | version (v : UInt16)
  /-- The octets end: before a field, or inside it. -/
  | truncated (inside : Bool)
  | trailing (n : Nat)
  | network (e : NetworkError)
  deriving DecidableEq, Repr

/-- The wording of a refusal. -/
def ReadError.message : ReadError → String
  | .badMagic => "not a plan: bad magic"
  | .checksum got want =>
    "plan checksum mismatch (got " ++ String.ofList (Bytes.hexDigits 8 got.toNat) ++ ", want " ++
      String.ofList (Bytes.hexDigits 8 want.toNat) ++ ")"
  | .version v =>
    "unsupported plan format version " ++ toString v.toNat ++ " (runtime supports " ++
      toString formatVersion.toNat ++ ")"
  | .truncated inside => "truncated plan: " ++ (if inside then "unexpected EOF" else "EOF")
  | .trailing n => "plan has " ++ toString n ++ " trailing bytes"
  | .network e => "invalid plan network: " ++ e.message

/-- Takes a value off the front of octets. -/
abbrev Take (α : Type) := Bytes → Except ReadError (α × Bytes)

/-- Takes a number of octets. -/
def takeBytes (n : Nat) : Take Bytes := fun bs =>
  if bs.length < n then .error (.truncated !bs.isEmpty) else .ok (bs.take n, bs.drop n)

/-- Takes a number of some width. -/
def takeWord (width : Nat) : Take Nat := fun bs => do
  let (w, r) ← takeBytes width bs
  pure (Bytes.ofLittleEndian w, r)

/-- Takes a string. -/
def takeString : Take Bytes := fun bs => do
  let (n, r) ← takeWord 2 bs
  takeBytes n r

/-- Takes a size. -/
def takeInt64 : Take Int64 := fun bs => do
  let (n, r) ← takeWord 8 bs
  pure ((UInt64.ofNat n).toInt64, r)

/-- Takes a number of values of one kind. -/
def takeMany (take : Take α) : (n : Nat) → Take (List α)
  | 0, bs => .ok ([], bs)
  | n + 1, bs => do
    let (a, r) ← take bs
    let (more, r) ← takeMany take n r
    pure (a :: more, r)

/-- Takes an input. -/
def takeInput : Take NetworkInput := fun bs => do
  let (name, r) ← takeString bs
  let (rank, r) ← takeWord 1 r
  let (min, r) ← takeMany takeInt64 rank r
  let (max, r) ← takeMany takeInt64 rank r
  pure ({ name, min, max }, r)

/-- Takes a layer. -/
def takeLayer : Take Layer := fun bs => do
  let (label, r) ← takeString bs
  let (count, r) ← takeWord 1 r
  let (operands, r) ← takeMany takeString count r
  let (output, r) ← takeString r
  let (axis, r) ← takeWord 4 r
  let (scalar, r) ← takeWord 4 r
  pure ({ label, operands, output, axis := (UInt32.ofNat axis).toInt32.toInt64,
          scalar := ⟨UInt32.ofNat scalar⟩ }, r)

/-- Takes what stands between the magic and the check value. -/
def takePlan : Take CompiledPlan := fun bs => do
  let (version, r) ← takeWord 2 bs
  let version := UInt16.ofNat version
  if version ≠ formatVersion then .error (.version version)
  let (flags, r) ← takeWord 1 r
  let (platform, r) ← takeString r
  let (signature, r) ← takeString r
  let (n, r) ← takeWord 2 r
  let (inputs, r) ← takeMany takeInput n r
  let (n, r) ← takeWord 2 r
  let (layers, r) ← takeMany takeLayer n r
  let (n, r) ← takeWord 2 r
  let (outputs, r) ← takeMany takeString n r
  pure ({ version, hardwareCompatible := flags % 2 = 1, platform, signature,
          network := { inputs, layers, outputs } }, r)

/-- Reads a plan: magic and length, check value, fields, nothing behind them, a sound network. -/
def decode (data : Bytes) : Except ReadError CompiledPlan :=
  if data.length < magic.length + 4 ∨ data.take magic.length ≠ magic then .error .badMagic
  else
    let body := data.take (data.length - 4)
    let want := UInt32.ofNat (Bytes.ofLittleEndian (data.drop (data.length - 4)))
    let got := Crc32.checksum body
    if got ≠ want then .error (.checksum got want)
    else do
      let (p, r) ← takePlan (body.drop magic.length)
      if !r.isEmpty then .error (.trailing r.length)
      match p.network.validate with
      | .error e => .error (.network e)
      | .ok () => pure p

end Wire

end EngineHost

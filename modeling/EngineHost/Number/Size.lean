import EngineHost.Number.Layout

/-!
# Sizes for reading

A count of bytes is written in the largest decimal unit that it reaches, with one place below ten
units and none from there on; below ten bytes it stays a plain count. Which unit is reached is
judged on a rounded logarithm, so a count a few bytes below a very large unit already takes it.
-/

namespace EngineHost

/-- The units, each a thousand of the one before. -/
def sizeUnits : List String :=
  ["B", "kB", "MB", "GB", "TB", "PB", "EB"]

/-- A count of bytes for reading. -/
def sizeText (n : UInt64) : String :=
  if n < 10 then toString n.toNat ++ " B"
  else
    let count := Double.ofInt n.toNat
    let exponent := ((Float.ofBits count.bits).log / (1000.0 : Float).log).floor.toUInt64.toNat
    let scaled := (count.div (Double.ofInt (Nat.pow 1000 exponent))).mul (Double.ofInt 10)
    let half : Double := ⟨0x3FE0000000000000⟩
    let tenths := (scaled.add half).truncate.toNat
    let places := if tenths < 100 then 1 else 0
    fixedRatio places tenths 10 ++ " " ++ sizeUnits.getD exponent ""

end EngineHost

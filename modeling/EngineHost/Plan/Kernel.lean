import EngineHost.Tensor.Basic

/-!
# Kernels

A kernel fills a result buffer place by place. The places are cut into chunks for the workers at
hand (`chunks`), each chunk writes its own places only, and so the result does not depend on how
many workers there are or in which order the chunks are done.

Sizes are computed in sixty-four bits and wrap around. A place outside a buffer, a buffer that
cannot be had, or a division of the places that does not come to an end, makes a kernel come back
with nothing.
-/

namespace EngineHost

/-- Neighbouring places, the last one not included. -/
structure Chunk where
  start : Nat
  stop : Nat
  deriving DecidableEq, Repr

namespace Kernel

/-- Below this many places the work is not divided. -/
def minParallel : Nat := Nat.pow 2 14

/-- The number of workers in use where some number is asked for. -/
def workerCount (asked : Int64) : Nat :=
  max 1 (min asked.toNatClampNeg (Nat.pow 2 16))

/-- Chunks of one size from `start` on, cut off at `n`, as long as there are places left. There is
no such division if so many chunks do not reach the end. -/
def deal (size n : Int64) : (count : Nat) → (start : Int64) → Option (List Chunk)
  | 0, start => if start < n then none else some []
  | count + 1, start =>
    if start < n then
      let chunk : Chunk := ⟨start.toNatClampNeg, (min (start + size) n).toNatClampNeg⟩
      (deal size n count (start + size)).map (chunk :: ·)
    else some []

/-- The chunks of `n` places, at most one for each worker. Close to the largest number the rounded
quotient wraps around: the size is negative then, and the chunks lead away from the end. -/
def chunks (workers : Nat) (n : Int64) : Option (List Chunk) :=
  if n ≤ 0 then some []
  else if workers ≤ 1 ∨ n < Int64.ofNat minParallel then some [⟨0, n.toNatClampNeg⟩]
  else
    let w := min (Int64.ofNat workers) n
    deal ((n + w - 1) / w) n workers 0

/-- Takes a step at each of `count` numbers from `start` on. -/
def forEach (step : Nat → α → Option α) : (count start : Nat) → α → Option α
  | 0, _, a => some a
  | n + 1, i, a =>
    match step i a with
    | none => none
    | some a => forEach step n (i + 1) a

/-- Takes a step at every place of every chunk. -/
def overChunks (step : Nat → α → Option α) : List Chunk → α → Option α
  | [], a => some a
  | c :: more, a =>
    match forEach step (c.stop - c.start) c.start a with
    | none => none
    | some a => overChunks step more a

/-- Writes at a place. -/
def put? (dst : Array Single) (i : Nat) (x : Single) : Option (Array Single) :=
  if h : i < dst.size then some (dst.set i x h) else none

/-- The largest number of elements of a buffer. -/
def maxBuffer : Nat := maxRoom / ElementKind.float32.width

/-- A buffer of zeros. -/
def buffer? (n : Int64) : Option (Array Single) :=
  if n < 0 ∨ maxBuffer < n.toNatClampNeg then none
  else some (Array.replicate n.toNatClampNeg .zero)

/-- The start of a window on a buffer, if the window lies in it. -/
def window? (size : Nat) (start stop : Int64) : Option Nat :=
  if 0 ≤ start ∧ start ≤ stop ∧ stop.toNatClampNeg ≤ size then some start.toNatClampNeg else none

/-- A product of sizes. -/
def product (dims : Shape) : Int64 :=
  dims.foldl (· * ·) 1

/-- How places are divided: the chunks of so many places, in the order they are done, if there is
such a division. -/
abbrev Split := Int64 → Option (List Chunk)

/-- Takes a step at each of `n` places, divided as it may be. -/
def overPlaces (split : Split) (n : Int64) (step : Nat → α → Option α) (a : α) : Option α :=
  (split n).bind fun cs => overChunks step cs a

/-- Applies a function everywhere. -/
def unary (split : Split) (f : Single → Single) (src : Array Single) : Option (Array Single) :=
  overPlaces split (Int64.ofNat src.size)
    (fun i dst => (src[i]?).bind fun x => put? dst i (f x))
    (Array.replicate src.size .zero)

/-- Combines two buffers place by place. -/
def binary (split : Split) (f : Single → Single → Single) (a b : Array Single) :
    Option (Array Single) :=
  overPlaces split (Int64.ofNat a.size)
    (fun i dst => (a[i]?).bind fun x => (b[i]?).bind fun y => put? dst i (f x y))
    (Array.replicate a.size .zero)

/-- Adds `count` elements of a buffer from one place on to those of another. -/
def addRun (src : Array Single) (count source target : Nat) (dst : Array Single) :
    Option (Array Single) :=
  forEach
    (fun i dst =>
      (src[source + i]?).bind fun x => (dst[target + i]?).bind fun y =>
        put? dst (target + i) (y.add x))
    count 0 dst

/-- Sums along an axis: each sum starts at zero and adds up in order. -/
def reduceSum (split : Split) (src : Array Single) (shape : Shape) (axis : Nat) :
    Option (Array Single) :=
  let outer := product (shape.take axis)
  let inner := product (shape.drop (axis + 1))
  let n := shape.getD axis 0
  (buffer? (outer * inner)).bind fun dst =>
    overPlaces split outer
      (fun o dst =>
        let o := Int64.ofNat o
        let base := o * n * inner
        forEach
          (fun k dst =>
            let k := Int64.ofNat k
            (window? src.size (base + k * inner) (base + (k + 1) * inner)).bind fun source =>
              (window? dst.size (o * inner) ((o + 1) * inner)).bind fun target =>
                addRun src inner.toNatClampNeg source target dst)
          n.toNatClampNeg 0 dst)
      dst

/-- Writes one plane with its two axes exchanged. -/
def transposePlane (src : Array Single) (rows cols plane source target : Nat)
    (dst : Array Single) : Option (Array Single) :=
  forEach
    (fun i dst =>
      forEach
        (fun j dst =>
          if i * cols + j < plane ∧ j * rows + i < plane then
            (src[source + (i * cols + j)]?).bind fun x => put? dst (target + (j * rows + i)) x
          else none)
        cols 0 dst)
    rows 0 dst

/-- Exchanges the two innermost axes. -/
def transposeLast (split : Split) (src : Array Single) (shape : Shape) : Option (Array Single) :=
  let rows := shape.getD (shape.length - 2) 0
  let cols := shape.getD (shape.length - 1) 0
  let batch := product (shape.take (shape.length - 2))
  let plane := rows * cols
  overPlaces split batch
    (fun b dst =>
      let b := Int64.ofNat b
      (window? src.size (b * plane) ((b + 1) * plane)).bind fun source =>
        (window? dst.size (b * plane) ((b + 1) * plane)).bind fun target =>
          transposePlane src rows.toNatClampNeg cols.toNatClampNeg plane.toNatClampNeg source
            target dst)
    (Array.replicate src.size .zero)

end Kernel

end EngineHost

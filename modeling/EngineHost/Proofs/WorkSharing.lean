import EngineHost.Proofs.Kernels
import Mathlib.Data.List.Nodup
import Mathlib.Tactic.Ring

/-!
# Sharing work

A kernel hands out its places in chunks of one size, cut off at the end, and waits until all chunks
are done. Nothing is said about the order in which the workers get on. This file says that the
order, and the number of workers, cannot be seen in a result.

* `Kernel.chunks_divides`: the chunks are not empty, no two of them share a place, and together they
  hold every place, as long as neither the rounded quotient nor the next start wraps around. That is
  so for a single worker, and for up to 2^62 places (`Kernel.divisible_of_le`). Where it is not so,
  the chunks lead away from the end and there is no division (`Kernel.chunks_eq_none_iff`).
* `Split.Schedules`: the workers come to the places of their chunks in any order. Doing the chunks
  one after the other, in whatever order, is a case of it (`Split.schedules_of_perm`), and so is
  taking turns inside of them.
* `Kernel.results_of_schedule`: under any schedule a kernel gives what it gives with a single
  worker.

A place stands for what a kernel does at one index of its outermost loop. Each writes into places of
the result that no other index reads or writes, which is what `Acts` keeps track of.
-/

namespace EngineHost

/-- A place in a chunk. -/
def Chunk.Holds (c : Chunk) (i : Nat) : Prop :=
  c.start ≤ i ∧ i < c.stop

namespace Kernel

/-! ### What is handed out -/

/-- **Chunks that divide `n` places**: none is empty, no two share a place, and the places in them
are those below `n`. -/
structure Divides (cs : List Chunk) (n : Nat) : Prop where
  nonempty : ∀ c ∈ cs, c.start < c.stop
  disjoint : cs.Pairwise fun c d => ∀ i, ¬(c.Holds i ∧ d.Holds i)
  covers : ∀ i, (∃ c ∈ cs, c.Holds i) ↔ i < n

/-- The places that a chunk holds, as a list. -/
theorem mem_range'_iff_holds {c : Chunk} {i : Nat} :
    i ∈ List.range' c.start (c.stop - c.start) ↔ c.Holds i := by
  rw [List.mem_range'_1, Chunk.Holds]
  omega

/-- The places of chunks are those that one of them holds. -/
theorem mem_places_iff {cs : List Chunk} {i : Nat} : i ∈ places cs ↔ ∃ c ∈ cs, c.Holds i := by
  simp only [places, List.mem_flatMap, mem_range'_iff_holds]

/-- Chunks of one size divide the places. -/
theorem evenChunks_divides {size n : Nat} (hsize : 0 < size) : Divides (evenChunks size n) n where
  nonempty c hc := by
    obtain ⟨k, hk, rfl⟩ := List.mem_map.mp hc
    have hstart := (lt_roundedUp_iff hsize).mp (List.mem_range.mp hk)
    exact lt_min (Nat.mul_lt_mul_of_pos_right (Nat.lt_succ_self k) hsize) hstart
  disjoint := by
    -- A place in two chunks would stand twice in the list of all places.
    have hnodup : (places (evenChunks size n)).Nodup := by
      rw [places_evenChunks hsize]
      exact List.nodup_range
    refine (List.nodup_flatMap.mp hnodup).2.imp fun {c d} hdisjoint i hi => ?_
    exact hdisjoint (mem_range'_iff_holds.mpr hi.1) (mem_range'_iff_holds.mpr hi.2)
  covers i := by rw [← mem_places_iff, places_evenChunks hsize, List.mem_range]

/-- **The chunks divide the places**, wherever the places can be divided. -/
theorem chunks_divides {workers : Nat} {n : Int64} (h : Divisible workers n) :
    ∃ cs, chunks workers n = some cs ∧ Divides cs n.toNatClampNeg := by
  obtain ⟨size, hsize, hchunks⟩ := chunks_eq_evenChunks h
  exact ⟨_, hchunks, evenChunks_divides hsize⟩

/-- There are no more workers than the bound. -/
theorem workerCount_le (asked : Int64) : workerCount asked ≤ 2 ^ 16 :=
  max_le (by decide) (min_le_right _ _)

/-- Up to 2^62 places can always be divided. -/
theorem divisible_of_le (asked : Int64) {n : Int64} (hn : n ≤ 4611686018427387904) :
    Divisible (workerCount asked) n := by
  have hbound : (4611686018427387904 : Int64).toInt = 2 ^ 62 := by decide
  have hint := Int64.le_iff_toInt_le.mp hn
  have hworkers := workerCount_le asked
  exact .inr (by omega)

/-! ### What cannot be handed out -/

/-- Chunks of a size below zero lead away from the end. -/
theorem deal_eq_none {size n start : Int64} {count : Nat} (hn : 0 < n) (hsize : size ≤ 0)
    (hstart : start ≤ 0) (hrange : -2 ^ 63 ≤ start.toInt + count * size.toInt) :
    deal size n count start = none := by
  have hlt : start < n := Int64.lt_of_le_of_lt hstart hn
  have hsize' : size.toInt ≤ 0 := Int64.le_iff_toInt_le.mp hsize
  -- The start never goes up from chunk to chunk, so the end is not reached.
  induction count generalizing start with
  | zero => rw [deal, if_pos hlt]
  | succ count ih =>
    have hstart' : start.toInt ≤ 0 := Int64.le_iff_toInt_le.mp hstart
    have hleft : (count : Int) * size.toInt ≤ 0 :=
      Int.mul_nonpos_of_nonneg_of_nonpos (Int.natCast_nonneg count) hsize'
    have hexpand : ((count + 1 : Nat) : Int) * size.toInt = count * size.toInt + size.toInt := by
      push_cast
      ring
    -- The chunks that are still to come leave room below this one.
    have hnext : (start + size).toInt = start.toInt + size.toInt := by
      rw [Int64.toInt_add]
      exact Int.bmod_eq_of_le (by omega) (by omega)
    have hnext' : start + size ≤ 0 := Int64.le_iff_toInt_le.mpr (by rw [hnext]; simp; omega)
    rw [deal, if_pos hlt]
    dsimp only
    rw [ih hnext' (by omega) (Int64.lt_of_le_of_lt hnext' hn), Option.map_none]

/-- **Places that cannot be divided.** The rounded quotient wraps around, and there is no division;
everywhere else there is one. -/
theorem chunks_eq_none_iff {workers : Nat} {n : Int64} (hworkers : workers ≤ 2 ^ 16) :
    chunks workers n = none ↔ ¬Divisible workers n := by
  constructor
  · intro hnone hdivisible
    obtain ⟨size, -, hsome⟩ := chunks_eq_evenChunks hdivisible
    rw [hsome] at hnone
    cases hnone
  intro h
  obtain ⟨hseveral, hsum⟩ := not_or.mp h
  have hlt := n.toInt_lt
  have hw : (Int64.ofNat workers).toInt = workers := Int64.toInt_ofNat_of_lt (by omega)
  have hone : (1 : Int64).toInt = 1 := rfl
  have hzero : (0 : Int64).toInt = 0 := rfl
  have hmin : (Int64.ofNat minParallel).toInt = 16384 := rfl
  have hpos : 0 < n := Int64.lt_iff_toInt_lt.mpr (by omega)
  have hlarge : ¬n < Int64.ofNat minParallel := by
    rw [Int64.lt_iff_toInt_lt, hmin]
    omega
  have hleft : min (Int64.ofNat workers) n = Int64.ofNat workers :=
    if_pos (Int64.le_iff_toInt_le.mpr (by omega))
  -- The sum is beyond the largest number by less than there are workers.
  have hwrapped : (n + Int64.ofNat workers - 1).toInt = n.toInt + workers - 1 - 2 ^ 64 := by
    rw [Int64.toInt_sub, Int64.toInt_add, hw, hone, Int.bmod_sub_bmod]
    rw [Int.bmod_eq_iff (by decide)]
    omega
  obtain ⟨b, hb⟩ : ∃ b : Nat, n.toInt + workers - 1 - 2 ^ 64 = -(b : Int) :=
    ⟨(2 ^ 64 + 1 - n.toInt - workers).toNat, by omega⟩
  have hother : Int64.ofNat workers ≠ -1 := by
    intro heq
    rw [heq] at hw
    exact absurd hw (by change ¬(-1 : Int) = workers; omega)
  -- The division rounds towards zero, so that the workers together get no further than the sum.
  have hsize : ((n + Int64.ofNat workers - 1) / Int64.ofNat workers).toInt =
      -((b / workers : Nat) : Int) := by
    rw [Int64.toInt_div_of_ne_right _ _ hother, hwrapped, hw, hb, Int.neg_tdiv, Int.natCast_ediv,
      Int.tdiv_eq_ediv_of_nonneg (Int.natCast_nonneg b)]
  have hreach : workers * (b / workers) ≤ b := Nat.mul_div_le b workers
  unfold chunks
  rw [if_neg (Int64.not_le.mpr hpos), if_neg (not_or.mpr ⟨hseveral, hlarge⟩)]
  dsimp only
  rw [hleft]
  refine deal_eq_none hpos (Int64.le_iff_toInt_le.mpr ?_) (by decide) ?_
  · rw [hsize, hzero]
    exact Int.neg_nonpos_of_nonneg (Int.natCast_nonneg _)
  · rw [hsize, hzero, Int.mul_neg, ← Int.natCast_mul]
    omega

/-! ### Schedules -/

/-- **A schedule** for a number of workers that is asked for: wherever there are chunks, the workers
come to their places in some order. -/
def Split.Schedules (split : Split) (asked : Int64) : Prop :=
  ∀ n cs, chunks (workerCount asked) n = some cs →
    ∃ done, split n = some done ∧ (places done).Perm (places cs)

/-- The chunks may be done one after the other in any order. -/
theorem Split.schedules_of_perm {split : Split} {asked : Int64}
    (h : ∀ n cs, chunks (workerCount asked) n = some cs →
      ∃ done, split n = some done ∧ done.Perm cs) : split.Schedules asked := by
  intro n cs hcs
  obtain ⟨done, hdone, hperm⟩ := h n cs hcs
  exact ⟨done, hdone, hperm.flatMap_right _⟩

/-- A schedule covers the places that can be divided. -/
theorem Split.Schedules.covers {split : Split} {asked n : Int64} (h : split.Schedules asked)
    (hn : Divisible (workerCount asked) n) : split.Covers n := by
  obtain ⟨cs, hcs, hplaces⟩ := chunks_covers hn
  obtain ⟨done, hdone, hperm⟩ := h n cs hcs
  exact ⟨done, hdone, hperm.trans hplaces⟩

/-- A single worker covers all places. -/
theorem serial_covers (n : Int64) : Split.Covers (chunks 1) n :=
  chunks_covers (.inl le_rfl)

/-! ### Results -/

/-- **A shape measures a buffer**: its dimensions are known, and their product is the size of the
buffer, which is a number of sixty-four bits. -/
structure Measures (shape : Shape) (src : Array Single) : Prop where
  static : shape.isStatic = true
  size : src.size = shape.volume
  range : src.size < 2 ^ 63

/-- A place among rows of one length is in one of the rows. -/
theorem exists_row {rows cols p : Nat} (hp : p < rows * cols) :
    ∃ i < rows, ∃ j < cols, p = i * cols + j := by
  have hcols : 0 < cols := Nat.pos_of_ne_zero fun h => by simp [h] at hp
  refine ⟨p / cols, Nat.div_lt_of_lt_mul (by rwa [Nat.mul_comm]), p % cols, Nat.mod_lt _ hcols, ?_⟩
  rw [Nat.mul_comm, Nat.div_add_mod]

/-- Buffers are equal if they agree in every column of every row. -/
theorem eq_of_rows {a b : Array Single} {rows cols : Nat} (ha : a.size = rows * cols)
    (hb : b.size = rows * cols)
    (h : ∀ i < rows, ∀ j < cols, a.getD (i * cols + j) .zero = b.getD (i * cols + j) .zero) :
    a = b := by
  refine Array.ext (ha.trans hb.symm) fun p hpa hpb => ?_
  obtain ⟨i, hi, j, hj, rfl⟩ := exists_row (ha ▸ hpa)
  have hplace := h i hi j hj
  rwa [Array.getD_eq_getD_getElem?, Array.getD_eq_getD_getElem?, Array.getElem?_eq_getElem hpa,
    Array.getElem?_eq_getElem hpb] at hplace

/-- A buffer beyond the limit cannot be had. -/
theorem buffer_eq_none {n : Nat} (hbig : maxBuffer < n) (hrange : n < 2 ^ 63) :
    buffer? (Int64.ofNat n) = none := by
  rw [buffer?, Int64.toNatClampNeg_ofNat_of_lt hrange, if_pos (.inr hbig)]

/-- Steps that do nothing change nothing. -/
theorem overPlaces_some {split : Split} {n : Int64} (hsplit : split.Covers n)
    (dst : Array Single) : overPlaces split n (fun _ => some) dst = some dst := by
  -- Each step keeps every place, in whatever order they are taken.
  obtain ⟨order, -, hfold⟩ := Acts.overPlaces hsplit fun _ _ => @Acts.keep dst.size
  have hkeep := hfold.congr fun p _ x => foldl_untouched (fun _ _ _ => rfl) x
  exact (hkeep dst rfl).trans (Acts.keep dst rfl).symm

section ReduceSum

variable {split : Split} {src : Array Single} {shape : Shape} {axis : Nat}

/-- An axis without entries leaves the buffer as it was made. -/
theorem reduceSum_of_empty_axis (hsplit : split.Covers (product (shape.take axis)))
    (hempty : (shape.getD axis 0).toNatClampNeg = 0) :
    reduceSum split src shape axis =
      buffer? (product (shape.take axis) * product (shape.drop (axis + 1))) := by
  unfold reduceSum
  dsimp only
  -- The loop over the axis is not entered, so the windows are never looked at, and sizes may wrap
  -- around.
  rw [hempty]
  cases buffer? (product (shape.take axis) * product (shape.drop (axis + 1))) with
  | none => rfl
  | some dst => exact overPlaces_some hsplit dst

/-- The product around an axis, in sixty-four bits. -/
theorem product_around (hstatic : shape.isStatic = true) (axis : Nat) :
    product (shape.take axis) * product (shape.drop (axis + 1)) =
      Int64.ofNat (Shape.volume (shape.eraseIdx axis)) := by
  have hall := (Shape.isStatic_iff shape).mp hstatic
  rw [product_eq ((Shape.isStatic_iff _).mpr fun d hd => hall d (List.mem_of_mem_take hd)),
    product_eq ((Shape.isStatic_iff _).mpr fun d hd => hall d (List.mem_of_mem_drop hd)),
    ← Int64.ofNat_mul, Shape.volume_eraseIdx]

/-- No sum is made where the buffer for it is too large. -/
theorem reduceSum_eq_none (hstatic : shape.isStatic = true)
    (hbig : maxBuffer < Shape.volume (shape.eraseIdx axis))
    (hrange : Shape.volume (shape.eraseIdx axis) < 2 ^ 63) :
    reduceSum split src shape axis = none := by
  unfold reduceSum
  dsimp only
  rw [product_around hstatic, buffer_eq_none hbig hrange]
  rfl

/-- A sum along an axis of a buffer that its shape measures, in terms of the places around the
axis. -/
theorem Measures.reduceSum_spec (hsplit : split.Covers (product (shape.take axis)))
    (h : Measures shape src) (haxis : axis < shape.length)
    (hbuffer : Shape.volume (shape.eraseIdx axis) ≤ maxBuffer) :
    ∃ dst, reduceSum split src shape axis = some dst ∧
      dst.size = Shape.volume (shape.take axis) * Shape.volume (shape.drop (axis + 1)) ∧
      ∀ o < Shape.volume (shape.take axis), ∀ i < Shape.volume (shape.drop (axis + 1)),
        dst.getD (o * Shape.volume (shape.drop (axis + 1)) + i) .zero =
          (List.range (shape.getD axis 0).toNatClampNeg).foldl
            (fun x k => x.add (src.getD ((o * (shape.getD axis 0).toNatClampNeg + k) *
              Shape.volume (shape.drop (axis + 1)) + i) .zero)) .zero := by
  have hsize := h.size.trans (Shape.volume_eq_around haxis)
  refine Kernel.reduceSum_spec hsplit h.static haxis rfl rfl rfl hsize (hsize ▸ h.range) ?_
  rwa [← Shape.volume_eraseIdx]

/-- **Sums do not depend on the schedule**, also where none is made. -/
theorem Measures.reduceSum_eq {split' : Split}
    (hsplit : split.Covers (product (shape.take axis)))
    (hsplit' : split'.Covers (product (shape.take axis))) (h : Measures shape src)
    (haxis : axis < shape.length) :
    reduceSum split src shape axis = reduceSum split' src shape axis := by
  -- An axis without entries is a case of its own: the size of the result is then not bounded by
  -- that of the buffer, and can wrap around.
  by_cases hempty : (shape.getD axis 0).toNatClampNeg = 0
  · rw [reduceSum_of_empty_axis hsplit hempty, reduceSum_of_empty_axis hsplit' hempty]
  rcases Nat.lt_or_ge maxBuffer (Shape.volume (shape.eraseIdx axis)) with hbig | hbuffer
  · -- There are entries along the axis, so the buffer is no larger than the one that is summed.
    have hle : Shape.volume (shape.eraseIdx axis) ≤ src.size := by
      rw [h.size, Shape.volume_eq_around haxis, Shape.volume_eraseIdx]
      exact Nat.mul_le_mul_right _ (Nat.le_mul_of_pos_right _ (Nat.pos_of_ne_zero hempty))
    have hrange := Nat.lt_of_le_of_lt hle h.range
    rw [reduceSum_eq_none h.static hbig hrange, reduceSum_eq_none h.static hbig hrange]
  · obtain ⟨dst, hdst, hsize, hplaces⟩ := h.reduceSum_spec hsplit haxis hbuffer
    obtain ⟨dst', hdst', hsize', hplaces'⟩ := h.reduceSum_spec hsplit' haxis hbuffer
    rw [hdst, hdst', eq_of_rows hsize hsize' fun o ho i hi =>
      (hplaces o ho i hi).trans (hplaces' o ho i hi).symm]

end ReduceSum

/-- **Exchanged planes**: in each plane, row `j` and column `i` of one buffer is row `i` and column
`j` of the other. -/
def Exchanges (planes rows cols : Nat) (src turned : Array Single) : Prop :=
  ∀ b < planes, ∀ i < rows, ∀ j < cols,
    turned.getD (b * (rows * cols) + (j * rows + i)) .zero =
      src.getD (b * (rows * cols) + (i * cols + j)) .zero

section TransposeLast

variable {split : Split} {src : Array Single} {front : Shape} {rows cols : Int64}

/-- The size of a buffer, plane by plane. -/
theorem Measures.size_planes (h : Measures (front ++ [rows, cols]) src) :
    src.size = Shape.volume front * (rows.toNatClampNeg * cols.toNatClampNeg) := by
  rw [h.size]
  simp

/-- Exchanging the last two axes of a buffer that its shape measures. -/
theorem Measures.transposeLast_spec (hsplit : split.Covers (product front))
    (h : Measures (front ++ [rows, cols]) src) :
    ∃ turned, transposeLast split src (front ++ [rows, cols]) = some turned ∧
      turned.size = src.size ∧
      Exchanges (Shape.volume front) rows.toNatClampNeg cols.toNatClampNeg src turned :=
  Kernel.transposeLast_spec hsplit h.static rfl rfl rfl h.size_planes (h.size_planes ▸ h.range)

/-- A place in an exchanged plane is found by its column first, then by its row. -/
theorem Exchanges.unique {planes R C : Nat} {turned turned' : Array Single}
    (h : Exchanges planes R C src turned) (h' : Exchanges planes R C src turned')
    (hsize : turned.size = planes * (R * C)) (hsize' : turned'.size = planes * (R * C)) :
    turned = turned' := by
  refine eq_of_rows hsize hsize' fun b hb q hq => ?_
  rw [Nat.mul_comm] at hq
  obtain ⟨j, hj, i, hi, rfl⟩ := exists_row hq
  exact (h b hb i hi j hj).trans (h' b hb i hi j hj).symm

end TransposeLast

/-- **Exchanged axes do not depend on the schedule.** -/
theorem Measures.transposeLast_eq {split split' : Split} {src : Array Single} {shape : Shape}
    (hsplit : split.Covers (product (shape.take (shape.length - 2))))
    (hsplit' : split'.Covers (product (shape.take (shape.length - 2)))) (h : Measures shape src)
    (hrank : 2 ≤ shape.length) :
    ∃ dst, transposeLast split src shape = some dst ∧
      transposeLast split' src shape = some dst := by
  -- The shape ends in the two axes, and what stands in front of them counts the planes.
  obtain ⟨front, rows, cols, rfl⟩ := exists_append_pair hrank
  have hfront : (front ++ [rows, cols]).take ((front ++ [rows, cols]).length - 2) = front := by simp
  rw [hfront] at hsplit hsplit'
  obtain ⟨dst, hdst, hsize, hplaces⟩ := h.transposeLast_spec hsplit
  obtain ⟨dst', hdst', hsize', hplaces'⟩ := h.transposeLast_spec hsplit'
  refine ⟨dst, hdst, ?_⟩
  rw [hdst', hplaces'.unique hplaces (hsize'.trans h.size_planes) (hsize.trans h.size_planes)]

/-- **Results do not depend on how the work is shared.** Whatever number of workers is asked for, up
to 2^62 places can be divided among them, and places that can be divided are handed out, in
arithmetic of sixty-four bits, in chunks that are not empty, share no place and hold every place. So
each kernel gives under any schedule, element by element, what it gives with a single worker: for
any function and any buffer, for two buffers of one size, and for a buffer that its shape measures,
wherever the places of its outermost loop can be divided. All of them give a result, except for a
sum that is too large to make a buffer for. -/
theorem results_of_schedule (asked : Int64) {split : Split} (h : split.Schedules asked) :
    (∀ n : Int64, n ≤ 4611686018427387904 → Divisible (workerCount asked) n) ∧
    (∀ n : Int64, Divisible (workerCount asked) n →
      ∃ cs, chunks (workerCount asked) n = some cs ∧ Divides cs n.toNatClampNeg) ∧
    (∀ (f : Single → Single) (src : Array Single), src.size < 2 ^ 63 →
      Divisible (workerCount asked) (Int64.ofNat src.size) → ∃ dst,
        unary split f src = some dst ∧ unary (chunks 1) f src = some dst) ∧
    (∀ (f : Single → Single → Single) (a b : Array Single), b.size = a.size → a.size < 2 ^ 63 →
      Divisible (workerCount asked) (Int64.ofNat a.size) → ∃ dst,
        binary split f a b = some dst ∧ binary (chunks 1) f a b = some dst) ∧
    (∀ (src : Array Single) (shape : Shape) (axis : Nat), Measures shape src →
      axis < shape.length → Divisible (workerCount asked) (product (shape.take axis)) →
        reduceSum split src shape axis = reduceSum (chunks 1) src shape axis ∧
        (Shape.volume (shape.eraseIdx axis) ≤ maxBuffer →
          ∃ dst, reduceSum split src shape axis = some dst)) ∧
    ∀ (src : Array Single) (shape : Shape), Measures shape src → 2 ≤ shape.length →
      Divisible (workerCount asked) (product (shape.take (shape.length - 2))) → ∃ dst,
        transposeLast split src shape = some dst ∧
          transposeLast (chunks 1) src shape = some dst := by
  refine ⟨fun n hn => divisible_of_le asked hn, fun n hn => chunks_divides hn,
    fun f src hrange hdiv => ?_, fun f a b hsize hrange hdiv => ?_,
    fun src shape axis hmeasures haxis hdiv => ⟨?_, fun hbuffer => ?_⟩,
    fun src shape hmeasures hrank hdiv => ?_⟩
  · exact ⟨_, unary_eq hrange (h.covers hdiv) f, unary_eq hrange (serial_covers _) f⟩
  · exact ⟨_, binary_eq hrange (h.covers hdiv) f hsize, binary_eq hrange (serial_covers _) f hsize⟩
  · exact hmeasures.reduceSum_eq (h.covers hdiv) (serial_covers _) haxis
  · obtain ⟨dst, hdst, -⟩ := hmeasures.reduceSum_spec (h.covers hdiv) haxis hbuffer
    exact ⟨dst, hdst⟩
  · exact hmeasures.transposeLast_eq (h.covers hdiv) (serial_covers _) hrank

/-- Twelve elements. -/
def dozen : Array Single :=
  Array.ofFn fun i : Fin 12 => ⟨UInt32.ofNat i⟩

/-- Three workers, the last chunk first. -/
def lastFirst : Split := fun n =>
  (chunks 3 n).map List.reverse

/-- Chunks that are done from the last one on. -/
theorem results_of_schedule_reversed :
    lastFirst.Schedules 3 ∧
      (∃ cs, chunks (workerCount 3) 4611686018427387904 = some cs ∧ Divides cs (2 ^ 62)) ∧
      (∃ dst, unary lastFirst Single.relu (Array.replicate 20000 .one) = some dst ∧
        unary (chunks 1) Single.relu (Array.replicate 20000 .one) = some dst) ∧
      (∃ dst, binary lastFirst Single.add dozen dozen = some dst ∧
        binary (chunks 1) Single.add dozen dozen = some dst) ∧
      (∃ dst, reduceSum lastFirst dozen [2, 3, 2] 1 = some dst ∧
        reduceSum (chunks 1) dozen [2, 3, 2] 1 = some dst) ∧
      ∃ dst, transposeLast lastFirst dozen [2, 3, 2] = some dst ∧
        transposeLast (chunks 1) dozen [2, 3, 2] = some dst := by
  have hschedules : lastFirst.Schedules 3 := Split.schedules_of_perm fun n cs hcs =>
    ⟨cs.reverse, congrArg (Option.map List.reverse) hcs, List.reverse_perm _⟩
  have hmeasures : Measures [2, 3, 2] dozen := ⟨by decide, by decide, by decide⟩
  obtain ⟨hfew, hdivides, hunary, hbinary, hsum, hturn⟩ := results_of_schedule 3 hschedules
  have hmany : (Array.replicate 20000 Single.one).size = 20000 := Array.size_replicate
  obtain ⟨hsame, hmade⟩ := hsum dozen [2, 3, 2] 1 hmeasures (by decide) (hfew _ (by decide))
  obtain ⟨dst, hdst⟩ := hmade (by decide)
  refine ⟨hschedules, hdivides _ (hfew _ (by decide)), hunary _ _ (by rw [hmany]; decide) ?_,
    hbinary _ dozen dozen rfl (by decide) (hfew _ (by decide)), ⟨dst, hdst, hsame ▸ hdst⟩,
    hturn dozen [2, 3, 2] hmeasures (by decide) (hfew _ (by decide))⟩
  rw [hmany]
  exact hfew _ (by decide)

end Kernel

end EngineHost

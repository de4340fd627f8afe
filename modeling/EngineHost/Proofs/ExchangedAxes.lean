import EngineHost.Proofs.WorkSharing

/-!
# Exchanged axes

Exchanging the last two axes of a buffer moves its elements about and changes none of them, doing it
once more in the exchanged shape undoes it, and a sum along the last axis is the sum along the last
but one of the exchanged buffer (`Kernel.transposeLast_laws`). The sums are sums of single
precision, which depend on the order of their terms; both take the terms in the order of the axis.

All of it comes down to where an element goes: row `i` and column `j` of a plane become row `j` and
column `i` (`Kernel.exchanged`), and no two elements go to one place. The shapes are those whose
dimensions other than zero have a product in range, so that no size on the way wraps around: an
empty buffer can still have a large plane, or many rows to be summed
(`Shape.volume_lt_of_spanFits`).

What is left is the division of the planes among several workers. It wraps around for a number of
planes close to the largest number, which only planes without elements leave room for, and then the
workers are never done (`Kernel.exchange_never_done`).
-/

namespace EngineHost

namespace Shape

/-! ### Dimensions in range -/

/-- The volume is at most the product of the dimensions other than zero. -/
theorem volume_le_span (shape : Shape) : shape.volume ≤ shape.span := by
  induction shape with
  | nil => exact le_rfl
  | cons d more ih =>
    -- A zero makes the volume zero, and does not count for the span.
    by_cases hd : d.toNatClampNeg = 0
    · rw [volume_cons, hd, Nat.zero_mul]
      exact Nat.zero_le _
    · have hspan : span (d :: more) = d.toNatClampNeg * span more := by simp [span, hd]
      rw [volume_cons, hspan]
      exact Nat.mul_le_mul_left _ ih

/-- Where the dimensions other than zero stay in range, so does the volume of the first of them. -/
theorem volume_lt_of_spanFits {front back : Shape} (h : SpanFits (front ++ back)) :
    volume front < 2 ^ 63 := by
  have hsplit : span (front ++ back) = span front * span back := by
    simp [span]
  calc volume front ≤ span front := volume_le_span front
    _ ≤ span (front ++ back) := hsplit ▸ Nat.le_mul_of_pos_right _ (span_pos back)
    _ ≤ maxCount := h
    _ < 2 ^ 63 := by decide

end Shape

namespace Kernel

/-! ### Where the elements go -/

/-- The place to which an exchange of rows and columns moves place `p`, plane by plane. -/
def exchanged (rows cols p : Nat) : Nat :=
  p / (rows * cols) * (rows * cols) +
    (p % (rows * cols) % cols * rows + p % (rows * cols) / cols)

/-- A place is taken apart again into what it was put together from. -/
theorem row_of_place {m b q : Nat} (hq : q < m) : (b * m + q) / m = b ∧ (b * m + q) % m = q := by
  refine (Nat.div_mod_unique (by omega)).mpr ⟨?_, hq⟩
  rw [Nat.mul_comm, Nat.add_comm]

/-- Row `i` and column `j` of a plane become row `j` and column `i` of it. -/
theorem exchanged_place {rows cols b i j : Nat} (hi : i < rows) (hj : j < cols) :
    exchanged rows cols (b * (rows * cols) + (i * cols + j)) =
      b * (rows * cols) + (j * rows + i) := by
  obtain ⟨hplane, hinside⟩ := row_of_place (b := b) (mul_add_lt hi hj)
  obtain ⟨hrow, hcol⟩ := row_of_place (b := i) hj
  rw [exchanged, hplane, hinside, hrow, hcol]

/-- A place among planes has a plane, a row and a column. -/
theorem exists_place {planes rows cols p : Nat} (hp : p < planes * (rows * cols)) :
    ∃ b < planes, ∃ i < rows, ∃ j < cols, p = b * (rows * cols) + (i * cols + j) := by
  obtain ⟨b, hb, q, hq, rfl⟩ := exists_row hp
  obtain ⟨i, hi, j, hj, rfl⟩ := exists_row hq
  exact ⟨b, hb, i, hi, j, hj, rfl⟩

/-- A place in exchanged planes lies among the places of all planes. -/
theorem exchanged_lt {planes rows cols p : Nat} (hp : p < planes * (rows * cols)) :
    exchanged rows cols p < planes * (rows * cols) := by
  obtain ⟨b, hb, i, hi, j, hj, rfl⟩ := exists_place hp
  rw [exchanged_place hi hj]
  refine mul_add_lt hb ?_
  rw [Nat.mul_comm rows cols]
  exact mul_add_lt hj hi

/-- **No two elements go to one place.** -/
theorem exchanged_inj {planes rows cols p q : Nat} (hp : p < planes * (rows * cols))
    (hq : q < planes * (rows * cols)) (h : exchanged rows cols p = exchanged rows cols q) :
    p = q := by
  obtain ⟨b, -, i, hi, j, hj, rfl⟩ := exists_place hp
  obtain ⟨b', -, i', hi', j', hj', rfl⟩ := exists_place hq
  -- First the planes are the same, and then, inside of one, the columns and the rows.
  rw [exchanged_place hi hj, exchanged_place hi' hj', Nat.mul_comm rows cols] at h
  obtain ⟨rfl, hinside⟩ := row_unique (mul_add_lt hj hi) (mul_add_lt hj' hi') h
  obtain ⟨rfl, rfl⟩ := row_unique hi hi' hinside
  rfl

/-- The elements of a buffer, read place by place. -/
theorem toList_eq_map_getD (a : Array Single) :
    a.toList = (List.range a.size).map fun p => a.getD p .zero := by
  refine List.ext_getElem (by simp) fun p hp _ => ?_
  have hsize : p < a.size := by simpa using hp
  simp [Array.getD_eq_getD_getElem?, hsize]

/-- A buffer whose elements are those of another, each at a place of its own, has the same
elements. -/
theorem perm_of_places {a b : Array Single} {move : Nat → Nat} (hsize : a.size = b.size)
    (hmove : ∀ p < b.size, move p < b.size)
    (hinj : ∀ p < b.size, ∀ q < b.size, move p = move q → p = q)
    (h : ∀ p < b.size, a.getD (move p) .zero = b.getD p .zero) : a.toList.Perm b.toList := by
  -- Different places below the size, as many as there are: these are all of them.
  have hplaces : ((List.range b.size).map move).Perm (List.range b.size) := by
    have hnodup : ((List.range b.size).map move).Nodup :=
      List.nodup_range.map_on fun p hp q hq =>
        hinj p (List.mem_range.mp hp) q (List.mem_range.mp hq)
    have hsubset : (List.range b.size).map move ⊆ List.range b.size := by
      intro m hm
      obtain ⟨p, hp, rfl⟩ := List.mem_map.mp hm
      exact List.mem_range.mpr (hmove p (List.mem_range.mp hp))
    exact (List.subperm_of_subset hnodup hsubset).perm_of_length_le (by simp)
  -- Read in the order in which its places are moved, the one buffer lists the elements of the
  -- other.
  have hmoved : b.toList = ((List.range b.size).map move).map fun p => a.getD p .zero := by
    rw [toList_eq_map_getD b, List.map_map]
    exact List.map_congr_left fun p hp => (h p (List.mem_range.mp hp)).symm
  rw [hmoved, toList_eq_map_getD a, hsize]
  exact (hplaces.map _).symm

/-! ### Sums along exchanged axes -/

section Laws

variable {split : Split} {src turned : Array Single} {front : Shape} {rows cols : Int64}

/-- The exchanged shape measures every buffer of the same size. -/
theorem Measures.exchange (h : Measures (front ++ [rows, cols]) src)
    (hsize : turned.size = src.size) : Measures (front ++ [cols, rows]) turned where
  static := by
    have hall := (Shape.isStatic_iff _).mp h.static
    refine (Shape.isStatic_iff _).mpr fun d hd => hall d ?_
    simp only [List.mem_append, List.mem_cons] at hd ⊢
    tauto
  size := by
    rw [hsize, h.size, ← Shape.volume_swapLast, swapLast_append_pair]
  range := hsize ▸ h.range

theorem Measures.static_rows (h : Measures (front ++ [rows, cols]) src) :
    Shape.isStatic (front ++ [rows]) = true := by
  have hall := (Shape.isStatic_iff _).mp h.static
  refine (Shape.isStatic_iff _).mpr fun d hd => hall d ?_
  simp only [List.mem_append, List.mem_cons] at hd ⊢
  tauto

theorem eraseIdx_last (front : Shape) (rows cols : Int64) :
    (front ++ [rows, cols]).eraseIdx (front.length + 1) = front ++ [rows] := by
  simp [List.eraseIdx_append]

theorem eraseIdx_beforeLast (front : Shape) (rows cols : Int64) :
    (front ++ [rows, cols]).eraseIdx front.length = front ++ [cols] := by
  simp [List.eraseIdx_append]

/-- A sum along the last axis sums the rows, whose entries stand side by side. -/
theorem Measures.sumRows_spec (hsplit : split.Covers (product (front ++ [rows])))
    (h : Measures (front ++ [rows, cols]) src)
    (hbuffer : Shape.volume (front ++ [rows]) ≤ maxBuffer) :
    ∃ sums, reduceSum split src (front ++ [rows, cols]) (front.length + 1) = some sums ∧
      sums.size = front.volume * rows.toNatClampNeg ∧
      ∀ b < front.volume, ∀ i < rows.toNatClampNeg,
        sums.getD (b * rows.toNatClampNeg + i) .zero =
          (List.range cols.toNatClampNeg).foldl (fun x j => x.add (src.getD
            (b * (rows.toNatClampNeg * cols.toNatClampNeg) + (i * cols.toNatClampNeg + j)) .zero))
            .zero := by
  -- What stands before the last axis, behind it and at it.
  have haxis : front.length + 1 < (front ++ [rows, cols]).length := by simp
  have htake : (front ++ [rows, cols]).take (front.length + 1) = front ++ [rows] := by
    simp [List.take_append]
  have hdrop : (front ++ [rows, cols]).drop (front.length + 1 + 1) = [] := by simp
  have hentry : (front ++ [rows, cols]).getD (front.length + 1) 0 = cols := by simp
  have hvolume : Shape.volume (front ++ [rows]) = front.volume * rows.toNatClampNeg := by simp
  obtain ⟨sums, hsums, hsize, hplaces⟩ :=
    h.reduceSum_spec (htake ▸ hsplit) haxis (eraseIdx_last front rows cols ▸ hbuffer)
  rw [htake, hdrop, hvolume, Shape.volume_nil, Nat.mul_one] at hsize
  rw [htake, hdrop, hentry, hvolume, Shape.volume_nil] at hplaces
  refine ⟨sums, hsums, hsize, fun b hb i hi => ?_⟩
  -- Nothing stands behind the last axis, so every row is an outer place of its own.
  have hrow := hplaces (b * rows.toNatClampNeg + i) (mul_add_lt hb hi) 0 Nat.one_pos
  rw [Nat.mul_one, Nat.add_zero] at hrow
  rw [hrow]
  refine List.foldl_ext _ _ _ fun x j _ => ?_
  have hplace : ((b * rows.toNatClampNeg + i) * cols.toNatClampNeg + j) * 1 + 0 =
      b * (rows.toNatClampNeg * cols.toNatClampNeg) + (i * cols.toNatClampNeg + j) := by ring
  rw [hplace]

/-- A sum along the last axis but one sums the columns, whose entries stand a row apart. -/
theorem Measures.sumColumns_spec (hsplit : split.Covers (product front))
    (h : Measures (front ++ [rows, cols]) src)
    (hbuffer : Shape.volume (front ++ [cols]) ≤ maxBuffer) :
    ∃ sums, reduceSum split src (front ++ [rows, cols]) front.length = some sums ∧
      sums.size = front.volume * cols.toNatClampNeg ∧
      ∀ b < front.volume, ∀ j < cols.toNatClampNeg,
        sums.getD (b * cols.toNatClampNeg + j) .zero =
          (List.range rows.toNatClampNeg).foldl (fun x i => x.add (src.getD
            (b * (rows.toNatClampNeg * cols.toNatClampNeg) + (i * cols.toNatClampNeg + j)) .zero))
            .zero := by
  -- What stands behind the last axis but one, at it and before it.
  have haxis : front.length < (front ++ [rows, cols]).length := by simp
  have hdrop : (front ++ [rows, cols]).drop (front.length + 1) = [cols] := by
    simp [List.drop_append]
  have hentry : (front ++ [rows, cols]).getD front.length 0 = rows := by simp
  have hvolume : Shape.volume [cols] = cols.toNatClampNeg := by simp
  have htake : (front ++ [rows, cols]).take front.length = front := List.take_left
  obtain ⟨sums, hsums, hsize, hplaces⟩ :=
    h.reduceSum_spec (htake.symm ▸ hsplit) haxis (eraseIdx_beforeLast front rows cols ▸ hbuffer)
  rw [htake, hdrop, hvolume] at hsize
  rw [htake, hdrop, hentry, hvolume] at hplaces
  refine ⟨sums, hsums, hsize, fun b hb j hj => ?_⟩
  rw [hplaces b hb j hj]
  refine List.foldl_ext _ _ _ fun x i _ => ?_
  have hplace : (b * rows.toNatClampNeg + i) * cols.toNatClampNeg + j =
      b * (rows.toNatClampNeg * cols.toNatClampNeg) + (i * cols.toNatClampNeg + j) := by ring
  rw [hplace]

/-- Rows that can all be summed can be divided among any workers. -/
theorem Split.Schedules.covers_of_volume {asked : Int64} (hsplit : split.Schedules asked)
    {shape : Shape} (hstatic : shape.isStatic = true) (hbuffer : shape.volume ≤ maxBuffer) :
    split.Covers (product shape) := by
  -- A buffer has room for far fewer places than would wrap around.
  have hmax : maxBuffer = 2 ^ 46 := rfl
  have hworkers := workerCount_le asked
  rw [product_eq hstatic]
  exact hsplit.covers (.of_ofNat (by omega))

/-- **Sums follow their axis.** The rows become columns, and their entries are added in the same
order. -/
theorem reduceSum_exchange {asked : Int64} (hsplit : split.Schedules asked)
    (hfront : Divisible (workerCount asked) (product front))
    (h : Measures (front ++ [rows, cols]) src)
    (hfits : Shape.SpanFits (front ++ [rows, cols])) (hsize : turned.size = src.size)
    (hturned : Exchanges front.volume rows.toNatClampNeg cols.toNatClampNeg src turned) :
    reduceSum split src (front ++ [rows, cols]) (front.length + 1) =
      reduceSum split turned (front ++ [cols, rows]) front.length := by
  -- With a buffer for them, both sums exist and are compared place by place; what makes them equal
  -- is that each place adds the same entries in the same order.
  have h' := h.exchange hsize
  rcases Nat.lt_or_ge maxBuffer (Shape.volume (front ++ [rows])) with hbig | hbuffer
  · -- Too many rows to be summed, with no columns: neither way makes the buffer.
    have hspan : Shape.SpanFits ((front ++ [rows]) ++ [cols]) := by simpa using hfits
    have hrange := Shape.volume_lt_of_spanFits hspan
    have hrows := eraseIdx_last front rows cols
    have hcols := eraseIdx_beforeLast front cols rows
    rw [reduceSum_eq_none h.static (hrows ▸ hbig) (hrows ▸ hrange),
      reduceSum_eq_none h'.static (hcols ▸ hbig) (hcols ▸ hrange)]
  · obtain ⟨sums, hsums, hcount, hplaces⟩ :=
      h.sumRows_spec (hsplit.covers_of_volume h.static_rows hbuffer) hbuffer
    obtain ⟨sums', hsums', hcount', hplaces'⟩ := h'.sumColumns_spec (hsplit.covers hfront) hbuffer
    rw [hsums, hsums', eq_of_rows hcount hcount' fun b hb i hi => ?_]
    rw [hplaces b hb i hi, hplaces' b hb i hi]
    refine List.foldl_ext _ _ _ fun x j hj => ?_
    rw [Nat.mul_comm cols.toNatClampNeg, hturned b hb i hi j (List.mem_range.mp hj)]

/-- Exchanging the axes once more brings every element back. -/
theorem transposeLast_exchange (hsplit : split.Covers (product front))
    (h : Measures (front ++ [rows, cols]) src) (hsize : turned.size = src.size)
    (hturned : Exchanges front.volume rows.toNatClampNeg cols.toNatClampNeg src turned) :
    transposeLast split turned (front ++ [cols, rows]) = some src := by
  obtain ⟨back, hback, hcount, hplaces⟩ := (h.exchange hsize).transposeLast_spec hsplit
  have hcount := hcount.trans (hsize.trans h.size_planes)
  rw [hback, eq_of_rows hcount h.size_planes fun b hb q hq => ?_]
  obtain ⟨i, hi, j, hj, rfl⟩ := exists_row hq
  -- The second exchange has the rows of the first as its columns.
  have hplace := hplaces b hb j hj i hi
  rw [Nat.mul_comm cols.toNatClampNeg] at hplace
  rw [hplace, hturned b hb i hi j hj]

end Laws

/-- **Exchanging the last two axes**, for a shape whose dimensions other than zero have a product in
range, a buffer of that many elements, and planes that can be divided among the workers, which is so
for a single worker and for up to 2^62 planes. Under any schedule the exchange gives a buffer with
the same elements, an exchange in the exchanged shape gives the buffer back, and a sum along the
last axis comes to what the sum along the last but one of the exchanged buffer comes to, element by
element; there is such a sum unless it is too large to make a buffer for. -/
theorem transposeLast_laws {asked : Int64} {split : Split} (hsplit : split.Schedules asked)
    {shape : Shape} (hrank : 2 ≤ shape.length) (hstatic : shape.isStatic = true)
    (hfits : shape.SpanFits)
    (hplanes : Divisible (workerCount asked) (product (shape.take (shape.length - 2))))
    {src : Array Single} (hsize : src.size = shape.volume) :
    ∃ turned, transposeLast split src shape = some turned ∧
      transposeLast split turned (swapLast shape) = some src ∧
      turned.toList.Perm src.toList ∧
      reduceSum split src shape (shape.length - 1) =
        reduceSum split turned (swapLast shape) (shape.length - 2) ∧
      (Shape.volume shape.dropLast ≤ maxBuffer →
        ∃ sums, reduceSum split src shape (shape.length - 1) = some sums) := by
  have hspan : Shape.SpanFits (shape ++ []) := by simpa using hfits
  have h : Measures shape src := ⟨hstatic, hsize, hsize ▸ Shape.volume_lt_of_spanFits hspan⟩
  -- From here on the shape is written with its last two axes apart.
  obtain ⟨front, rows, cols, rfl⟩ := exists_append_pair hrank
  have hlast : (front ++ [rows, cols]).length - 1 = front.length + 1 := by simp
  have hbefore : (front ++ [rows, cols]).length - 2 = front.length := by simp
  rw [hbefore, List.take_left] at hplanes
  have hcovers := hsplit.covers hplanes
  obtain ⟨turned, hturn, hcount, hplaces⟩ := h.transposeLast_spec hcovers
  rw [swapLast_append_pair, hlast, hbefore]
  refine ⟨turned, hturn, transposeLast_exchange hcovers h hcount hplaces, ?_,
    reduceSum_exchange hsplit hplanes h hfits hcount hplaces, fun hbuffer => ?_⟩
  · -- The elements are moved, each to a place of its own.
    have hplanes := h.size_planes
    refine perm_of_places hcount (fun p hp => hplanes ▸ exchanged_lt (hplanes ▸ hp))
      (fun p hp q hq => exchanged_inj (hplanes ▸ hp) (hplanes ▸ hq)) fun p hp => ?_
    obtain ⟨b, hb, i, hi, j, hj, rfl⟩ := exists_place (hplanes ▸ hp)
    rw [exchanged_place hi hj, hplaces b hb i hi j hj]
  · have hlast : (front ++ [rows, cols]).dropLast = front ++ [rows] := by simp
    rw [hlast] at hbuffer
    obtain ⟨sums, hsums, -⟩ :=
      h.sumRows_spec (hsplit.covers_of_volume h.static_rows hbuffer) hbuffer
    exact ⟨sums, hsums⟩

/-- Two planes of three rows and two columns. -/
theorem transposeLast_laws_dozen :
    Shape.SpanFits [2, 3, 2] ∧
      ∃ turned, transposeLast (chunks (workerCount 3)) dozen [2, 3, 2] = some turned ∧
        transposeLast (chunks (workerCount 3)) turned [2, 2, 3] = some dozen ∧
        turned.toList.Perm dozen.toList ∧
        ∃ sums, reduceSum (chunks (workerCount 3)) dozen [2, 3, 2] 2 = some sums ∧
          reduceSum (chunks (workerCount 3)) turned [2, 2, 3] 1 = some sums := by
  have hschedules : Split.Schedules (chunks (workerCount 3)) 3 :=
    Split.schedules_of_perm fun _ cs hcs => ⟨cs, hcs, .refl _⟩
  obtain ⟨turned, hturn, hback, hperm, hsame, hmade⟩ :=
    @transposeLast_laws 3 _ hschedules [2, 3, 2] (by decide) (by decide) (by decide)
      (divisible_of_le 3 (by decide)) dozen (by decide)
  obtain ⟨sums, hsums⟩ := hmade (by decide)
  exact ⟨by decide, turned, hturn, hback, hperm, sums, hsums, hsame ▸ hsums⟩

/-- Nothing is exchanged where the planes cannot be divided. -/
theorem transposeLast_eq_none {split : Split} {src : Array Single} {shape : Shape}
    (h : split (product (shape.take (shape.length - 2))) = none) :
    transposeLast split src shape = none := by
  unfold transposeLast
  dsimp only
  rw [overPlaces, h, Option.bind_none]

/-- Two workers that are to share all but one of 2^63 planes go round in circles: from the start
over the least number to the middle of the range, and back to the start. -/
theorem deal_in_circles (count : Nat) {start : Int64}
    (h : start = 0 ∨ start = -4611686018427387904 ∨ start = -9223372036854775808 ∨
      start = 4611686018427387904) :
    deal (-4611686018427387904) 9223372036854775807 count start = none := by
  -- Every stop on the way lies before the end, so there is always another chunk.
  have hlt : start < 9223372036854775807 := by
    rcases h with rfl | rfl | rfl | rfl <;> decide
  induction count generalizing start with
  | zero => rw [deal, if_pos hlt]
  | succ count ih =>
    have hnext : start + -4611686018427387904 = 0 ∨
        start + -4611686018427387904 = -4611686018427387904 ∨
        start + -4611686018427387904 = -9223372036854775808 ∨
        start + -4611686018427387904 = 4611686018427387904 := by
      rcases h with rfl | rfl | rfl | rfl <;> decide
    rw [deal, if_pos hlt]
    dsimp only
    rw [ih hnext (by rcases hnext with h | h | h | h <;> rw [h] <;> decide), Option.map_none]

/-- **Planes that are never exchanged.** An empty buffer can have 2^63 - 1 planes without rows and
columns. A single worker exchanges them, for there is nothing to do, while the chunks for two
workers never come to an end, however many of them are handed out. And rows without columns can be
too many for a buffer of their sums. -/
theorem exchange_never_done :
    Shape.SpanFits [9223372036854775807, 0, 0] ∧
      transposeLast (chunks (workerCount 1)) #[] [9223372036854775807, 0, 0] = some #[] ∧
      transposeLast (chunks (workerCount 2)) #[] [9223372036854775807, 0, 0] = none ∧
      (∀ count, deal ((9223372036854775807 + 2 - 1) / 2) 9223372036854775807 count 0 = none) ∧
      Shape.SpanFits [1125899906842624, 0] ∧
      reduceSum (chunks (workerCount 1)) #[] [1125899906842624, 0] 1 = none := by
  have hsize : ((9223372036854775807 + 2 - 1) / 2 : Int64) = -4611686018427387904 := by decide
  have hmeasures : Measures ([9223372036854775807] ++ [0, 0]) #[] :=
    ⟨by decide, by decide, by decide⟩
  have hserial : Split.Covers (chunks (workerCount 1)) (product [9223372036854775807]) :=
    serial_covers _
  obtain ⟨turned, hturned, hcount, -⟩ := hmeasures.transposeLast_spec hserial
  rw [Array.eq_empty_of_size_eq_zero hcount] at hturned
  refine ⟨by decide, hturned, ?_, fun count => ?_, by decide, ?_⟩
  · exact transposeLast_eq_none ((chunks_eq_none_iff (workerCount_le 2)).mpr (by decide))
  · rw [hsize]
    exact deal_in_circles count (.inl rfl)
  · exact reduceSum_eq_none (by decide) (by decide) (by decide)

end Kernel

end EngineHost

import EngineHost.Proofs.Volume

/-!
# What the kernels compute

A kernel fills a buffer by a loop over chunks, loops inside it, and a write at the bottom that may
go out of range. Seen from one place of the buffer, all of that is one function: the place starts
with some value, and each step of each loop either leaves it alone or changes it. `Acts n step f`
says so of a step on buffers of size `n`: it succeeds, and place `p` goes from `x` to `f p x`. The
predicate composes along loops (`Acts.forEach`, `Acts.overPlaces`), so that a kernel acts by folds,
and a fold in which a single step touches the place at hand is that step (`foldl_owner`).

The chunks enter through their places only. Any list of chunks whose places are those below `n`,
each once, in whatever order, will do (`Split.Covers`). The places can be handed out like that as
long as the arithmetic of the division does not wrap around (`Divisible`): then the chunks are those
of the rounded quotient (`chunks_eq_evenChunks`), and they hold every place (`chunks_covers`).

The results are one equation or one formula a kernel: `unary_eq`, `binary_eq`, `reduceSum_spec`,
`transposeLast_spec`. The number of outer places may wrap around where an inner dimension is zero.
It only gets smaller by that, so what the loop still does stays in range, and there is no place
whose value could be missed.
-/

namespace EngineHost

namespace Kernel

/-! ### Steps that work place by place -/

/-- On buffers of size `n` the step succeeds, and takes place `p` from `x` to `f p x`. -/
def Acts (n : Nat) (step : Array Single → Option (Array Single)) (f : Nat → Single → Single) :
    Prop :=
  ∀ dst : Array Single, dst.size = n → step dst = some (dst.mapIdx f)

/-- The places of chunks, in the order they are done. -/
def places (cs : List Chunk) : List Nat :=
  cs.flatMap fun c => List.range' c.start (c.stop - c.start)

section Acts

variable {n : Nat} {step : Nat → Array Single → Option (Array Single)}
  {f : Nat → Nat → Single → Single}

/-- Doing nothing leaves every place alone. -/
theorem Acts.keep : Acts n some (fun _ x => x) := by
  intro dst _
  congr 1
  ext i h₁ h₂ <;> simp

/-- What a step does matters at the places below the size only. -/
theorem Acts.congr {s : Array Single → Option (Array Single)} {f g : Nat → Single → Single}
    (h : Acts n s f) (hfg : ∀ p < n, ∀ x, f p x = g p x) : Acts n s g := by
  intro dst hdst
  rw [h dst hdst]
  congr 1
  ext i h₁ h₂
  · simp
  · rw [Array.getElem_mapIdx, Array.getElem_mapIdx]
    exact hfg i (by simp only [Array.size_mapIdx] at h₁; omega) _

/-- A loop acts by the fold of what its steps do. -/
theorem Acts.forEach {count start : Nat}
    (h : ∀ i, start ≤ i → i < start + count → Acts n (step i) (f i)) :
    Acts n (forEach step count start)
      (fun p x => (List.range' start count).foldl (fun x i => f i p x) x) := by
  -- The first step changes the buffer, so the rest of the loop is for any buffer of the size.
  induction count generalizing start with
  | zero => exact Acts.keep
  | succ count ih =>
    intro dst hdst
    rw [Kernel.forEach, h start (le_refl _) (by omega) dst hdst]
    dsimp only
    rw [ih (fun i hlow hhigh => h i (by omega) (by omega)) _ (by simpa using hdst)]
    simp [List.range'_succ, Array.mapIdx_mapIdx, Function.comp_def]

/-- The loop over chunks acts by the fold over their places. -/
theorem Acts.overChunks {cs : List Chunk} (h : ∀ i ∈ places cs, Acts n (step i) (f i)) :
    Acts n (overChunks step cs) (fun p x => (places cs).foldl (fun x i => f i p x) x) := by
  induction cs with
  | nil => exact Acts.keep
  | cons c more ih =>
    intro dst hdst
    -- The places of the first chunk come before those of the others.
    have hmem : ∀ i, i ∈ places (c :: more) ↔
        i ∈ List.range' c.start (c.stop - c.start) ∨ i ∈ places more := by
      simp [places]
    have hfirst : Acts n (Kernel.forEach step (c.stop - c.start) c.start) _ :=
      Acts.forEach fun i hlow hhigh =>
        h i ((hmem i).mpr (.inl (by simp only [List.mem_range'_1]; omega)))
    rw [Kernel.overChunks, hfirst dst hdst]
    dsimp only
    rw [ih (fun i hi => h i ((hmem i).mpr (.inr hi))) _ (by simpa using hdst)]
    simp [places, Array.mapIdx_mapIdx, Function.comp_def]

/-- Writing at a place. -/
theorem Acts.put {t : Nat} (ht : t < n) (y : Single) :
    Acts n (fun dst => put? dst t y) (fun p x => if p = t then y else x) := by
  intro dst hdst
  dsimp only
  rw [put?, dif_pos (by omega)]
  congr 1
  ext i h₁ h₂
  · simp
  · simp [Array.getElem_set, eq_comm]

/-- Adding at a place. -/
theorem Acts.addAt {t : Nat} (ht : t < n) (y : Single) :
    Acts n (fun dst => (dst[t]?).bind fun x => put? dst t (x.add y))
      (fun p x => if p = t then x.add y else x) := by
  intro dst hdst
  have htd : t < dst.size := by omega
  dsimp only
  rw [Array.getElem?_eq_getElem htd, Option.bind_some, put?, dif_pos htd]
  congr 1
  ext i h₁ h₂
  · simp
  · rw [Array.getElem_set, Array.getElem_mapIdx]
    by_cases hi : t = i
    · subst hi
      simp
    · rw [if_neg hi, if_neg (Ne.symm hi)]

end Acts

/-! ### One step for each place -/

section Owner

variable {l : List Nat} {f : Nat → Single → Single}

/-- A fold of steps that leave a value alone leaves it alone. -/
theorem foldl_untouched (h : ∀ i ∈ l, ∀ x, f i x = x) (x : Single) :
    l.foldl (fun x i => f i x) x = x := by
  induction l with
  | nil => rfl
  | cons i more ih =>
    rw [List.foldl_cons, h i (by simp), ih fun j hj => h j (by simp [hj])]

/-- A fold in which one step alone touches a value is that step. -/
theorem foldl_owner (hnodup : l.Nodup) {o : Nat} (ho : o ∈ l)
    (hother : ∀ i ∈ l, i ≠ o → ∀ x, f i x = x) (x : Single) :
    l.foldl (fun x i => f i x) x = f o x := by
  induction l generalizing x with
  | nil => exact absurd ho (by simp)
  | cons i more ih =>
    obtain ⟨hnot, hmore⟩ := List.nodup_cons.mp hnodup
    rw [List.foldl_cons]
    rcases List.mem_cons.mp ho with rfl | ho
    · -- The owner comes first; nothing behind it is the owner again.
      refine foldl_untouched (fun j hj => hother j (by simp [hj]) ?_) _
      rintro rfl
      exact hnot hj
    · have hne : i ≠ o := by
        rintro rfl
        exact hnot ho
      rw [hother i (by simp) hne, ih hmore ho fun j hj => hother j (by simp [hj])]

end Owner

/-! ### How the places are divided -/

/-- A natural number that is wrapped to sixty-four bits does not grow. -/
theorem toNatClampNeg_ofNat_le (a : Nat) : (Int64.ofNat a).toNatClampNeg ≤ a := by
  rcases Nat.lt_or_ge a (2 ^ 63) with h | h
  · rw [Int64.toNatClampNeg_ofNat_of_lt h]
  · exact le_trans (Nat.le_of_lt (Int64.toNatClampNeg_lt _)) h

theorem ofNat_nonneg {a : Nat} (h : a < 2 ^ 63) : (0 : Int64) ≤ Int64.ofNat a :=
  (Int64.ofNat_le_iff_le (by decide) h).mpr (Nat.zero_le a)

theorem min_ofNat {a b : Nat} (ha : a < 2 ^ 63) (hb : b < 2 ^ 63) :
    min (Int64.ofNat a) (Int64.ofNat b) = Int64.ofNat (min a b) := by
  have hmin (x y : Int64) : min x y = if x ≤ y then x else y := rfl
  rw [hmin]
  split
  next h => rw [Nat.min_eq_left ((Int64.ofNat_le_iff_le ha hb).mp h)]
  next h =>
    rw [Nat.min_eq_right (Nat.le_of_not_le fun hle => h ((Int64.ofNat_le_iff_le ha hb).mpr hle))]

/-- The chunks of one size that hold the places below `n`, the last one cut off. -/
def evenChunks (size n : Nat) : List Chunk :=
  (List.range ((n + size - 1) / size)).map fun k => ⟨k * size, min ((k + 1) * size) n⟩

/-- A multiple of the size is below `n` exactly if its number is below the rounded quotient. -/
theorem lt_roundedUp_iff {n size k : Nat} (hsize : 0 < size) :
    k < (n + size - 1) / size ↔ k * size < n := by
  rw [← Nat.succ_le_iff, Nat.le_div_iff_mul_le hsize, Nat.succ_mul]
  omega

/-- Rounding a quotient up reaches the whole. -/
theorem le_roundedUp_mul {n size : Nat} (hsize : 0 < size) :
    n ≤ (n + size - 1) / size * size := by
  have hlast := Nat.div_add_mod (n + size - 1) size
  have hmod := Nat.mod_lt (n + size - 1) hsize
  rw [Nat.mul_comm] at hlast
  omega

/-- Chunks of one size follow one another without a gap. -/
theorem places_equal_chunks (size n k : Nat) :
    places ((List.range k).map fun k => ⟨k * size, min ((k + 1) * size) n⟩) =
      List.range (min (k * size) n) := by
  induction k with
  | zero => simp [places]
  | succ k ih =>
    have hsplit : min ((k + 1) * size) n =
        min (k * size) n + (min ((k + 1) * size) n - k * size) := by
      rw [Nat.succ_mul]
      omega
    -- A chunk that would start behind the end is empty, wherever it starts.
    have hlast : List.range' (k * size) (min ((k + 1) * size) n - k * size) =
        List.range' (min (k * size) n) (min ((k + 1) * size) n - k * size) := by
      rcases Nat.le_total (k * size) n with hle | hle
      · rw [Nat.min_eq_left hle]
      · rw [Nat.sub_eq_zero_of_le (by omega)]
        rfl
    have hstep : places ((List.range (k + 1)).map fun k => ⟨k * size, min ((k + 1) * size) n⟩) =
        places ((List.range k).map fun k => ⟨k * size, min ((k + 1) * size) n⟩) ++
          List.range' (k * size) (min ((k + 1) * size) n - k * size) := by
      simp [places, List.range_succ]
    calc places ((List.range (k + 1)).map fun k => ⟨k * size, min ((k + 1) * size) n⟩)
        = List.range' 0 (min (k * size) n) ++
            List.range' (0 + min (k * size) n) (min ((k + 1) * size) n - k * size) := by
          rw [hstep, ih, hlast, List.range_eq_range', Nat.zero_add]
      _ = List.range' 0 (min (k * size) n + (min ((k + 1) * size) n - k * size)) :=
          List.range'_append_1
      _ = List.range (min ((k + 1) * size) n) := by rw [← hsplit, List.range_eq_range']

/-- The size is rounded up, and so is the number of chunks, so that together they reach `n`. -/
theorem places_evenChunks {size n : Nat} (hsize : 0 < size) :
    places (evenChunks size n) = List.range n := by
  rw [evenChunks, places_equal_chunks, Nat.min_eq_right (le_roundedUp_mul hsize)]

/-- From any multiple of the size on, the loop hands out the chunks that are left, and stops. -/
theorem deal_eq {size n count k : Nat} (hsize : 0 < size)
    (hrange : (n + size - 1) / size * size < 2 ^ 63) (hk : k ≤ (n + size - 1) / size)
    (hcount : (n + size - 1) / size - k ≤ count) :
    deal (Int64.ofNat size) (Int64.ofNat n) count (Int64.ofNat (k * size)) =
      some ((List.range' k ((n + size - 1) / size - k)).map fun k =>
        ⟨k * size, min ((k + 1) * size) n⟩) := by
  have hn : n < 2 ^ 63 := Nat.lt_of_le_of_lt (le_roundedUp_mul hsize) hrange
  have hstart : k * size < 2 ^ 63 := Nat.lt_of_le_of_lt (Nat.mul_le_mul_right size hk) hrange
  have hdone (h : (n + size - 1) / size ≤ k) : ¬Int64.ofNat (k * size) < Int64.ofNat n := by
    rw [Int64.ofNat_lt_iff_lt hstart hn, ← lt_roundedUp_iff hsize]
    omega
  -- By induction on the chunks that may still be handed out: at each turn the loop stands at a
  -- multiple of the size, and there are enough of them for the places that are left.
  induction count generalizing k with
  | zero =>
    rw [deal, if_neg (hdone (by omega)), Nat.le_zero.mp hcount]
    rfl
  | succ count ih =>
    rw [deal]
    rcases Nat.lt_or_ge k ((n + size - 1) / size) with hlt | hge
    · have hnext : Int64.ofNat (k * size) + Int64.ofNat size = Int64.ofNat ((k + 1) * size) := by
        rw [← Int64.ofNat_add, Nat.succ_mul]
      have hstop : (k + 1) * size < 2 ^ 63 :=
        Nat.lt_of_le_of_lt (Nat.mul_le_mul_right size hlt) hrange
      have hleft : (n + size - 1) / size - k = (n + size - 1) / size - (k + 1) + 1 := by omega
      rw [if_pos ((Int64.ofNat_lt_iff_lt hstart hn).mpr ((lt_roundedUp_iff hsize).mp hlt))]
      dsimp only
      rw [hnext, min_ofNat hstop hn, Int64.toNatClampNeg_ofNat_of_lt hstart,
        Int64.toNatClampNeg_ofNat_of_lt (by omega), ih hlt (by omega) hstop, hleft,
        List.range'_succ, List.map_cons, Option.map_some]
      intro h
      rw [Int64.ofNat_lt_iff_lt hstop hn, ← lt_roundedUp_iff hsize]
      omega
    · rw [if_neg (hdone hge), Nat.sub_eq_zero_of_le hge]
      rfl

/-- The rounded quotient in sixty-four bits. -/
theorem roundedUp_words {n w : Nat} (hw : 0 < w) (hrange : n + w ≤ 2 ^ 63) (hwn : w ≤ n) :
    (Int64.ofNat n + Int64.ofNat w - 1) / Int64.ofNat w = Int64.ofNat ((n + w - 1) / w) := by
  have hone : (1 : Int64) = Int64.ofNat 1 := rfl
  rw [hone, ← Int64.ofNat_add, ← Int64.ofNat_sub _ _ (by omega),
    ← Int64.ofNat_div (by omega) (by omega)]

/-- **Places that can be divided** among workers: the rounded quotient does not wrap around. -/
def Divisible (workers : Nat) (n : Int64) : Prop :=
  workers ≤ 1 ∨ n.toInt + workers ≤ 2 ^ 63

instance (workers : Nat) (n : Int64) : Decidable (Divisible workers n) :=
  inferInstanceAs (Decidable (_ ∨ _))

/-- So many places that a sum with the workers stays in range can be divided. -/
theorem Divisible.of_ofNat {workers n : Nat} (h : n + workers ≤ 2 ^ 63) :
    Divisible workers (Int64.ofNat n) := by
  rcases Nat.lt_or_ge n (2 ^ 63) with hn | hn
  · refine .inr ?_
    rw [Int64.toInt_ofNat_of_lt hn]
    omega
  · exact .inl (by omega)

/-- **What is handed out**: chunks of one size, the last one cut off. -/
theorem chunks_eq_evenChunks {workers : Nat} {n : Int64} (h : Divisible workers n) :
    ∃ size, 0 < size ∧ chunks workers n = some (evenChunks size n.toNatClampNeg) := by
  unfold chunks
  split
  next hn =>
    have hzero : n.toNatClampNeg = 0 :=
      Int.toNat_of_nonpos (Int64.toInt_zero ▸ Int64.le_iff_toInt_le.mp hn)
    exact ⟨1, Nat.one_pos, by rw [hzero]; rfl⟩
  next hpos =>
  have hnonneg : 0 ≤ n := Int64.le_of_lt (Int64.not_le.mp hpos)
  obtain ⟨m, hm, rfl⟩ : ∃ m, m < 2 ^ 63 ∧ n = Int64.ofNat m :=
    ⟨n.toNatClampNeg, n.toNatClampNeg_lt, (Int64.ofNat_toNatClampNeg n hnonneg).symm⟩
  rw [Int64.toNatClampNeg_ofNat_of_lt hm]
  have hmpos : 0 < m := Nat.pos_of_ne_zero fun hzero => hpos (by rw [hzero]; decide)
  split
  · -- One chunk is as long as all places together.
    refine ⟨m, hmpos, ?_⟩
    have hcount : (m + m - 1) / m = 1 := by
      rw [Nat.div_eq_iff hmpos]
      omega
    rw [evenChunks, hcount]
    simp
  next hmany =>
  have hworkers : 2 ≤ workers := by omega
  have hsum : m + workers ≤ 2 ^ 63 := by
    rcases h with h | h
    · omega
    · rw [Int64.toInt_ofNat_of_lt hm] at h
      omega
  have hlarge : minParallel ≤ m := by
    rw [Int64.ofNat_lt_iff_lt hm (by decide)] at hmany
    omega
  have hmin : minParallel = 16384 := rfl
  dsimp only
  rw [min_ofNat (by omega) hm, roundedUp_words (by omega) (by omega) (by omega)]
  -- As many chunks as there are workers reach the end, and reach no further than the quotient was
  -- rounded up by.
  have hsize : 0 < (m + min workers m - 1) / min workers m := Nat.div_pos (by omega) (by omega)
  have hreach : m ≤ (m + min workers m - 1) / min workers m * min workers m :=
    le_roundedUp_mul (by omega)
  have hover : (m + min workers m - 1) / min workers m * min workers m < 2 ^ 63 :=
    Nat.lt_of_le_of_lt (Nat.div_mul_le_self _ _) (by omega)
  -- From here on the size is any that reaches the end without going out of range.
  generalize (m + min workers m - 1) / min workers m = size at hsize hreach hover
  have hcount : (m + size - 1) / size ≤ min workers m := by
    rw [← Nat.not_lt, lt_roundedUp_iff hsize, Nat.mul_comm]
    omega
  have hrange : (m + size - 1) / size * size < 2 ^ 63 :=
    Nat.lt_of_le_of_lt (Nat.mul_le_mul_right size hcount) (by rwa [Nat.mul_comm])
  refine ⟨size, hsize, ?_⟩
  have hdeal := @deal_eq size m workers 0 hsize hrange (Nat.zero_le _) (by omega)
  rwa [Nat.zero_mul, Nat.sub_zero, ← List.range_eq_range'] at hdeal

/-- The chunks for so many places hold every place once. -/
def Split.Covers (split : Split) (n : Int64) : Prop :=
  ∃ cs, split n = some cs ∧ (places cs).Perm (List.range n.toNatClampNeg)

/-- **The chunks hold every place once**, wherever the places can be divided. -/
theorem chunks_covers {workers : Nat} {n : Int64} (h : Divisible workers n) :
    Split.Covers (chunks workers) n := by
  obtain ⟨size, hsize, hchunks⟩ := chunks_eq_evenChunks h
  exact ⟨_, hchunks, .of_eq (places_evenChunks hsize)⟩

/-- The loop over places that are divided acts by the fold over them, in some order. -/
theorem Acts.overPlaces {size : Nat} {step : Nat → Array Single → Option (Array Single)}
    {f : Nat → Nat → Single → Single} {split : Split} {n : Int64} (hsplit : split.Covers n)
    (h : ∀ i < n.toNatClampNeg, Acts size (step i) (f i)) :
    ∃ order : List Nat, order.Perm (List.range n.toNatClampNeg) ∧
      Acts size (overPlaces split n step)
        (fun p x => order.foldl (fun x i => f i p x) x) := by
  obtain ⟨cs, hcs, hperm⟩ := hsplit
  refine ⟨places cs, hperm, ?_⟩
  have hchunks := Acts.overChunks fun i hi => h i (List.mem_range.mp (hperm.mem_iff.mp hi))
  intro dst hdst
  rw [Kernel.overPlaces, hcs, Option.bind_some, hchunks dst hdst]

/-! ### Place by place -/

/-- Steps that each fill their own place fill the buffer. -/
theorem overPlaces_each {split : Split} {n : Nat} (hn : n < 2 ^ 63)
    (hsplit : split.Covers (Int64.ofNat n))
    {step : Nat → Array Single → Option (Array Single)} {g : Nat → Single}
    (hstep : ∀ i < n, Acts n (step i) (fun p x => if p = i then g i else x)) :
    overPlaces split (Int64.ofNat n) step (Array.replicate n .zero) =
      some (Array.ofFn fun i : Fin n => g i) := by
  have hcount : (Int64.ofNat n).toNatClampNeg = n := Int64.toNatClampNeg_ofNat_of_lt hn
  obtain ⟨order, hperm, hacts⟩ := Acts.overPlaces hsplit fun i hi => hstep i (hcount ▸ hi)
  rw [hcount] at hperm
  rw [hacts _ (by simp)]
  congr 1
  ext p h₁ h₂
  · simp
  · have hp : p < n := by simpa using h₂
    rw [Array.getElem_mapIdx, Array.getElem_ofFn,
      foldl_owner (hperm.nodup_iff.mpr List.nodup_range)
        (hperm.mem_iff.mpr (List.mem_range.mpr hp))]
    · simp
    · intro i _ hne x
      rw [if_neg (Ne.symm hne)]

/-- **A function applied everywhere** is what it is on lists. -/
theorem unary_eq {split : Split} {src : Array Single} (hrange : src.size < 2 ^ 63)
    (hsplit : split.Covers (Int64.ofNat src.size)) (f : Single → Single) :
    unary split f src = some (src.map f) := by
  unfold unary
  -- Each place is written once, from the place of the source.
  rw [overPlaces_each hrange hsplit (g := fun i => f (src.getD i .zero))]
  · congr 1
    ext p h₁ h₂
    · simp
    · simp [Array.getD_eq_getD_getElem?]
  · intro i hi
    rw [Array.getElem?_eq_getElem hi]
    simpa [Array.getD_eq_getD_getElem?, hi] using Acts.put hi (f src[i])

/-- **Two buffers of one size combined** are what they are on lists. -/
theorem binary_eq {split : Split} {a b : Array Single} (hrange : a.size < 2 ^ 63)
    (hsplit : split.Covers (Int64.ofNat a.size)) (f : Single → Single → Single)
    (hsize : b.size = a.size) :
    binary split f a b = some (Array.zipWith f a b) := by
  unfold binary
  rw [overPlaces_each hrange hsplit (g := fun i => f (a.getD i .zero) (b.getD i .zero))]
  · congr 1
    ext p h₁ h₂
    · simp [hsize]
    · simp [Array.getD_eq_getD_getElem?, hsize]
  · intro i hi
    have hib : i < b.size := by omega
    rw [Array.getElem?_eq_getElem hi, Array.getElem?_eq_getElem hib]
    simpa [Array.getD_eq_getD_getElem?, hi, hib] using Acts.put hi (f a[i] b[i])

/-! ### Sizes that wrap around -/

/-- A window between natural numbers lies in a buffer that reaches as far. -/
theorem window_ofNat {size a b : Nat} (hsize : size < 2 ^ 63) (hab : a ≤ b) (hb : b ≤ size) :
    window? size (Int64.ofNat a) (Int64.ofNat b) = some a := by
  have ha63 : a < 2 ^ 63 := by omega
  have hb63 : b < 2 ^ 63 := by omega
  rw [window?, Int64.toNatClampNeg_ofNat_of_lt ha63, Int64.toNatClampNeg_ofNat_of_lt hb63,
    if_pos ⟨ofNat_nonneg ha63, (Int64.ofNat_le_iff_le ha63 hb63).mpr hab, hb⟩]

/-- A buffer that is not too large is there, with zeros in it. -/
theorem buffer_ofNat {n : Nat} (h : n ≤ maxBuffer) :
    buffer? (Int64.ofNat n) = some (Array.replicate n .zero) := by
  have h63 : n < 2 ^ 63 := Nat.lt_of_le_of_lt h (by decide)
  rw [buffer?, Int64.toNatClampNeg_ofNat_of_lt h63, if_neg]
  rintro (hneg | hbig)
  · exact Int64.not_lt.mpr (ofNat_nonneg h63) hneg
  · exact absurd h (Nat.not_le.mpr hbig)

/-- A place in rows of one length has one row and one column. -/
theorem row_unique {m b b' q q' : Nat} (hq : q < m) (hq' : q' < m)
    (h : b * m + q = b' * m + q') : b = b' ∧ q = q' := by
  have hrow : ∀ {b q : Nat}, q < m → (b * m + q) / m = b := by
    intro b q hq
    rw [Nat.mul_comm, Nat.mul_add_div (by omega), Nat.div_eq_of_lt hq, Nat.add_zero]
  have hb : b = b' := (hrow hq).symm.trans (h ▸ hrow hq')
  subst hb
  exact ⟨rfl, by omega⟩

/-- A place in a row lies among the places of all rows. -/
theorem mul_add_lt {rows cols i j : Nat} (hi : i < rows) (hj : j < cols) :
    i * cols + j < rows * cols :=
  calc i * cols + j < (i + 1) * cols := by rw [Nat.succ_mul]; omega
    _ ≤ rows * cols := Nat.mul_le_mul_right cols hi

/-- A row lies among all rows. -/
theorem mul_add_le {rows cols i : Nat} (hi : i < rows) : i * cols + cols ≤ rows * cols := by
  rw [← Nat.succ_mul]
  exact Nat.mul_le_mul_right cols hi

/-! ### Sums along an axis -/

/-- A run adds to the places of its target, and to no others. -/
theorem addRun_acts {src : Array Single} {n count source target : Nat}
    (hsource : source + count ≤ src.size) (htarget : target + count ≤ n) :
    Acts n (addRun src count source target)
      (fun p x => if target ≤ p ∧ p < target + count then
        x.add (src.getD (source + (p - target)) .zero) else x) := by
  have hstep : ∀ i, 0 ≤ i → i < 0 + count → Acts n
      (fun dst => (src[source + i]?).bind fun x => (dst[target + i]?).bind fun y =>
        put? dst (target + i) (y.add x))
      (fun p x => if p = target + i then x.add (src.getD (source + i) .zero) else x) := by
    intro i _ hi
    have hi : source + i < src.size := by omega
    rw [Array.getElem?_eq_getElem hi]
    simpa [Array.getD_eq_getD_getElem?, hi] using
      Acts.addAt (n := n) (t := target + i) (by omega) src[source + i]
  -- One step of the run owns a place in its target.
  refine (Acts.forEach hstep).congr fun p _ x => ?_
  split
  next hp =>
    obtain ⟨i, rfl⟩ := Nat.exists_eq_add_of_le hp.1
    rw [foldl_owner (o := i) (f := fun j x =>
      if target + i = target + j then x.add (src.getD (source + j) .zero) else x)
      List.nodup_range' (by simp only [List.mem_range'_1]; omega)]
    · simp
    · intro j _ hne x
      rw [if_neg (by omega)]
  next hp =>
    refine foldl_untouched (fun i hi x => ?_) x
    simp only [List.mem_range'_1] at hi
    rw [if_neg (by omega)]

/-- One step of a sum along an axis: the slice at `k` behind `o` outer places is added to row `o`.
-/
def addSlice (src : Array Single) (N I o k : Nat) (dst : Array Single) : Option (Array Single) :=
  (window? src.size
      (Int64.ofNat o * Int64.ofNat N * Int64.ofNat I + Int64.ofNat k * Int64.ofNat I)
      (Int64.ofNat o * Int64.ofNat N * Int64.ofNat I +
        (Int64.ofNat k + 1) * Int64.ofNat I)).bind fun source =>
    (window? dst.size (Int64.ofNat o * Int64.ofNat I)
        ((Int64.ofNat o + 1) * Int64.ofNat I)).bind fun target =>
      addRun src (Int64.ofNat I).toNatClampNeg source target dst

/-- A slice is added to its row, and to no other place. -/
theorem addSlice_acts {src : Array Single} {O N I o k : Nat} (ho : o < O) (hk : k < N)
    (hsize : src.size = O * N * I) (hrange : O * N * I < 2 ^ 63) (hout : O * I < 2 ^ 63) :
    Acts (O * I) (addSlice src N I o k)
      (fun p x => if o * I ≤ p ∧ p < o * I + I then
        x.add (src.getD ((o * N + k) * I + (p - o * I)) .zero) else x) := by
  intro dst hdst
  have hI : I < 2 ^ 63 := Nat.lt_of_le_of_lt (Nat.le_mul_of_pos_left I (by omega)) hout
  have htarget : o * I + I ≤ O * I := mul_add_le ho
  have hsource : (o * N + k) * I + I ≤ O * N * I := mul_add_le (mul_add_lt ho hk)
  -- Nothing wraps around here: both windows end inside their buffers.
  have hone : (1 : Int64) = Int64.ofNat 1 := rfl
  simp only [addSlice, hone, ← Int64.ofNat_mul, ← Int64.ofNat_add, ← Nat.add_mul]
  rw [window_ofNat (by omega) (by rw [← Nat.add_assoc, Nat.succ_mul]; omega)
    (by rw [← Nat.add_assoc, Nat.succ_mul]; omega), Option.bind_some,
    window_ofNat (by omega) (by rw [Nat.succ_mul]; omega) (by rw [Nat.succ_mul]; omega),
    Option.bind_some, Int64.toNatClampNeg_ofNat_of_lt hI]
  exact addRun_acts (by omega) htarget dst hdst

/-- One outer place of a sum along an axis. -/
theorem reduceRow_acts {src : Array Single} {O N I o : Nat} (ho : o < O)
    (hsize : src.size = O * N * I) (hrange : O * N * I < 2 ^ 63) (hout : O * I < 2 ^ 63) :
    Acts (O * I) (forEach (addSlice src N I o) N 0)
      (fun p x => if o * I ≤ p ∧ p < o * I + I then
        (List.range N).foldl
          (fun x k => x.add (src.getD ((o * N + k) * I + (p - o * I)) .zero)) x else x) := by
  have hstep : ∀ k, 0 ≤ k → k < 0 + N → Acts (O * I) (addSlice src N I o k) _ := fun k _ hk =>
    addSlice_acts ho (by omega) hsize hrange hout
  refine (Acts.forEach hstep).congr fun p _ x => ?_
  rw [List.range_eq_range']
  -- The row is the same at every step, so either all steps touch the place or none does.
  split
  · rfl
  · exact foldl_untouched (fun k _ x => rfl) x

/-- A number of rows is not wrapped where the rows are not empty and their places are in range. -/
theorem toNatClampNeg_ofNat_left {O I : Nat} (hI : 0 < I) (h : O * I < 2 ^ 63) :
    (Int64.ofNat O).toNatClampNeg = O :=
  Int64.toNatClampNeg_ofNat_of_lt (Nat.lt_of_le_of_lt (Nat.le_mul_of_pos_right O hI) h)

/-- **What a sum along an axis computes**: behind `o` outer and before `i` inner places, the sum
over the axis in order, from zero. -/
theorem reduceSum_spec {split : Split} {src : Array Single} {shape : Shape} {axis O N I : Nat}
    (hsplit : split.Covers (product (shape.take axis))) (hstatic : shape.isStatic = true)
    (haxis : axis < shape.length) (hO : O = Shape.volume (shape.take axis))
    (hN : N = (shape.getD axis 0).toNatClampNeg) (hI : I = Shape.volume (shape.drop (axis + 1)))
    (hsize : src.size = O * N * I) (hrange : O * N * I < 2 ^ 63) (hbuffer : O * I ≤ maxBuffer) :
    ∃ dst, reduceSum split src shape axis = some dst ∧ dst.size = O * I ∧
      ∀ o < O, ∀ i < I, dst.getD (o * I + i) .zero =
        (List.range N).foldl (fun x k => x.add (src.getD ((o * N + k) * I + i) .zero)) .zero := by
  -- Without a negative dimension the products are those of natural numbers, wrapped.
  have hall := (Shape.isStatic_iff shape).mp hstatic
  have hfront : product (shape.take axis) = Int64.ofNat O := by
    rw [hO]
    exact product_eq ((Shape.isStatic_iff _).mpr fun d hd => hall d (List.mem_of_mem_take hd))
  have hback : product (shape.drop (axis + 1)) = Int64.ofNat I := by
    rw [hI]
    exact product_eq ((Shape.isStatic_iff _).mpr fun d hd => hall d (List.mem_of_mem_drop hd))
  have hn : shape.getD axis 0 = Int64.ofNat N := by
    rw [hN, Int64.ofNat_toNatClampNeg]
    rw [List.getD_eq_getElem _ _ haxis]
    exact hall _ (List.getElem_mem haxis)
  have hout : O * I < 2 ^ 63 := Nat.lt_of_le_of_lt hbuffer (by decide)
  unfold reduceSum
  dsimp only
  rw [← hN, hfront, hback, hn, ← Int64.ofNat_mul, buffer_ofNat hbuffer, Option.bind_some]
  -- An outer number that wrapped around is smaller than the one it stands for.
  rw [hfront] at hsplit
  obtain ⟨order, hperm, hloop⟩ := Acts.overPlaces hsplit fun o ho =>
    reduceRow_acts (Nat.lt_of_lt_of_le ho (toNatClampNeg_ofNat_le O)) hsize hrange hout
  refine ⟨_, hloop _ (by simp), by simp, fun o ho i hi => ?_⟩
  have hp : o * I + i < O * I := mul_add_lt ho hi
  -- Where there is a place to look at, the rows are not empty and their number is not wrapped.
  rw [toNatClampNeg_ofNat_left (by omega) hout] at hperm
  rw [Array.getD_eq_getD_getElem?, Array.getElem?_eq_getElem (by simpa using hp), Option.getD_some,
    Array.getElem_mapIdx, foldl_owner (hperm.nodup_iff.mpr List.nodup_range)
      (hperm.mem_iff.mpr (List.mem_range.mpr ho))]
  · simp [hi]
  · intro o' _ hne x
    refine if_neg fun hmem => hne ?_
    obtain ⟨j, hj⟩ := Nat.exists_eq_add_of_le hmem.1
    exact (row_unique (by omega) hi (hj.symm)).1

/-! ### Exchanging the last two axes -/

/-- What one plane does to a place, as the two loops do it. -/
def planeFold (src : Array Single) (rows cols source target : Nat) (p : Nat) (x : Single) :
    Single :=
  (List.range' 0 rows).foldl
    (fun x i => (List.range' 0 cols).foldl
      (fun x j =>
        if p = target + (j * rows + i) then src.getD (source + (i * cols + j)) .zero else x)
      x)
    x

/-- A plane stays inside its window on both sides. -/
theorem transposePlane_acts {src : Array Single} {n rows cols source target : Nat}
    (hsource : source + rows * cols ≤ src.size) (htarget : target + rows * cols ≤ n) :
    Acts n (transposePlane src rows cols (rows * cols) source target)
      (planeFold src rows cols source target) := by
  -- The bounds inside the plane are asked for at each entry, and hold at each.
  refine Acts.forEach fun i _ hi => Acts.forEach fun j _ hj => ?_
  have hread : i * cols + j < rows * cols := mul_add_lt (by omega) (by omega)
  have hwrite : j * rows + i < rows * cols := by
    rw [Nat.mul_comm rows cols]
    exact mul_add_lt (by omega) (by omega)
  have hsrc : source + (i * cols + j) < src.size := by omega
  intro dst hdst
  dsimp only
  rw [if_pos ⟨hread, hwrite⟩, Array.getElem?_eq_getElem hsrc, Option.bind_some]
  have hput := Acts.put (n := n) (t := target + (j * rows + i)) (by omega)
    src[source + (i * cols + j)] dst hdst
  simpa [Array.getD_eq_getD_getElem?, hsrc] using hput

/-- A plane leaves the places of other planes alone. -/
theorem planeFold_other {src : Array Single} {rows cols source target p : Nat}
    (h : ∀ q < rows * cols, p ≠ target + q) (x : Single) :
    planeFold src rows cols source target p x = x := by
  refine foldl_untouched (f := fun i x => (List.range' 0 cols).foldl _ x) (fun i hi x => ?_) x
  refine foldl_untouched (f := fun j x => if p = target + (j * rows + i) then _ else x)
    (fun j hj x => ?_) x
  simp only [List.mem_range'_1] at hi hj
  refine if_neg (h _ ?_)
  rw [Nat.mul_comm rows cols]
  exact mul_add_lt (by omega) (by omega)

/-- A plane fills its place in column `j` and row `i` from row `i` and column `j`. -/
theorem planeFold_own {src : Array Single} {rows cols source target i j : Nat} (hi : i < rows)
    (hj : j < cols) (x : Single) :
    planeFold src rows cols source target (target + (j * rows + i)) x =
      src.getD (source + (i * cols + j)) .zero := by
  have hmem : ∀ {a n : Nat}, a < n → a ∈ List.range' 0 n := by
    intro a n h
    simp only [List.mem_range'_1]
    omega
  -- Rows and columns tell the places of a plane apart.
  have hplace : ∀ {i' j' : Nat}, i' < rows →
      target + (j * rows + i) = target + (j' * rows + i') → j = j' ∧ i = i' :=
    fun hi' h => row_unique hi hi' (Nat.add_left_cancel h)
  unfold planeFold
  rw [foldl_owner (o := i) (f := fun i' x => (List.range' 0 cols).foldl (fun x j' =>
      if target + (j * rows + i) = target + (j' * rows + i') then
        src.getD (source + (i' * cols + j')) .zero else x) x) List.nodup_range' (hmem hi)]
  · rw [foldl_owner (o := j) (f := fun j' x =>
      if target + (j * rows + i) = target + (j' * rows + i) then
        src.getD (source + (i * cols + j')) .zero else x) List.nodup_range' (hmem hj)]
    · rw [if_pos rfl]
    · intro j' _ hne x
      exact if_neg fun h => hne (hplace hi h).1.symm
  · intro i' hi' hne x
    refine foldl_untouched (fun j' _ x => if_neg fun h => hne (hplace ?_ h).2.symm) x
    simp only [List.mem_range'_1] at hi'
    omega

/-- One step of an exchange: plane `b` is written with its two axes exchanged. -/
def turnPlane (src : Array Single) (R C b : Nat) (dst : Array Single) : Option (Array Single) :=
  (window? src.size (Int64.ofNat b * Int64.ofNat (R * C))
      ((Int64.ofNat b + 1) * Int64.ofNat (R * C))).bind fun source =>
    (window? dst.size (Int64.ofNat b * Int64.ofNat (R * C))
        ((Int64.ofNat b + 1) * Int64.ofNat (R * C))).bind fun target =>
      transposePlane src R C (Int64.ofNat (R * C)).toNatClampNeg source target dst

/-- One plane is written where it was read, with its axes exchanged. -/
theorem turnPlane_acts {src : Array Single} {B R C b : Nat} (hb : b < B)
    (hsize : src.size = B * (R * C)) (hrange : B * (R * C) < 2 ^ 63) :
    Acts src.size (turnPlane src R C b) (planeFold src R C (b * (R * C)) (b * (R * C))) := by
  intro dst hdst
  have hend : b * (R * C) + R * C ≤ src.size := hsize ▸ mul_add_le hb
  have hwindow : window? src.size (Int64.ofNat (b * (R * C)))
      (Int64.ofNat ((b + 1) * (R * C))) = some (b * (R * C)) :=
    window_ofNat (by omega) (by rw [Nat.succ_mul]; omega) (by rw [Nat.succ_mul]; omega)
  have hone : (1 : Int64) = Int64.ofNat 1 := rfl
  simp only [turnPlane, hone, ← Int64.ofNat_mul, ← Int64.ofNat_add, hdst, hwindow,
    Option.bind_some]
  rw [Int64.toNatClampNeg_ofNat_of_lt (by omega)]
  exact transposePlane_acts hend hend dst hdst

/-- **What exchanging the last two axes computes**: plane by plane, the entry in column `j` and row
`i` is the one that stood in row `i` and column `j`. -/
theorem transposeLast_spec {split : Split} {src : Array Single} {front : Shape}
    {rows cols : Int64} {B R C : Nat} (hsplit : split.Covers (product front))
    (hstatic : Shape.isStatic (front ++ [rows, cols]) = true) (hB : B = Shape.volume front)
    (hR : R = rows.toNatClampNeg) (hC : C = cols.toNatClampNeg)
    (hsize : src.size = B * (R * C)) (hrange : B * (R * C) < 2 ^ 63) :
    ∃ dst, transposeLast split src (front ++ [rows, cols]) = some dst ∧ dst.size = src.size ∧
      ∀ b < B, ∀ i < R, ∀ j < C, dst.getD (b * (R * C) + (j * R + i)) .zero =
        src.getD (b * (R * C) + (i * C + j)) .zero := by
  -- No dimension is negative, so each is the natural number it is clamped to.
  have hall := (Shape.isStatic_iff _).mp hstatic
  have hbatch : product front = Int64.ofNat B := by
    rw [hB]
    exact product_eq ((Shape.isStatic_append _ _).mp hstatic).1
  have hrows : rows = Int64.ofNat R := by
    rw [hR, Int64.ofNat_toNatClampNeg _ (hall _ (by simp))]
  have hcols : cols = Int64.ofNat C := by
    rw [hC, Int64.ofNat_toNatClampNeg _ (hall _ (by simp))]
  unfold transposeLast
  have hlen : (front ++ [rows, cols]).length - 2 = front.length := by simp
  have hlast : (front ++ [rows, cols]).length - 1 = front.length + 1 := by simp
  have hrow : (front ++ [rows, cols]).getD front.length 0 = rows := by simp
  have hcol : (front ++ [rows, cols]).getD (front.length + 1) 0 = cols := by simp
  dsimp only
  rw [hlen, hlast, hrow, hcol, List.take_left, hbatch, ← hR, ← hC, hrows, hcols,
    ← Int64.ofNat_mul]
  -- A number of planes that wrapped around is smaller than the one it stands for.
  rw [hbatch] at hsplit
  obtain ⟨order, hperm, hloop⟩ := Acts.overPlaces hsplit fun b hb =>
    turnPlane_acts (Nat.lt_of_lt_of_le hb (toNatClampNeg_ofNat_le B)) hsize hrange
  refine ⟨_, hloop _ (by simp), by simp, fun b hb i hi j hj => ?_⟩
  have hplace : j * R + i < R * C := by
    rw [Nat.mul_comm R C]
    exact mul_add_lt hj hi
  have hp : b * (R * C) + (j * R + i) < src.size := by
    rw [hsize]
    exact mul_add_lt hb hplace
  -- Where there is a place to look at, the planes are not empty and their number is not wrapped.
  rw [toNatClampNeg_ofNat_left (by omega) hrange] at hperm
  rw [Array.getD_eq_getD_getElem?, Array.getElem?_eq_getElem (by simpa using hp), Option.getD_some,
    Array.getElem_mapIdx, foldl_owner (hperm.nodup_iff.mpr List.nodup_range)
      (hperm.mem_iff.mpr (List.mem_range.mpr hb))]
  · exact planeFold_own hi hj _
  · intro b' _ hne x
    refine planeFold_other (fun q hq h => hne ?_) x
    exact (row_unique hplace hq h).1.symm

end Kernel

end EngineHost

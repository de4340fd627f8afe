import EngineHost.Operator.Native
import EngineHost.Proofs.Execution
import EngineHost.Proofs.IntegerRounding

/-!
# The operators of the host on integers

The rectifier and the sum compute in single precision, whatever the element type. On integers that
means a way there and a way back: each operand is rounded to a number of single precision, the sum
of two is rounded once more, and the result is cut to an integer. Where single precision holds the
operands and the result nothing is lost, and elsewhere the result is the one that rounding gives
(`Native.Rectified`, `Native.Summed`), as long as it fits the element type.

`Registry.integer_arithmetic` says this of calls on tensors of any shape, in every registry that has
the operators of the host. `Registry.integers_lost` are the least integers that do not survive.
-/

namespace EngineHost

/-! ### Elements that are integers -/

/-- The least integer of a kind. -/
def ElementKind.least : ElementKind → Int
  | .int32 => Int32.minValue.toInt
  | _ => Int64.minValue.toInt

/-- The largest integer of a kind. -/
def ElementKind.largest : ElementKind → Int
  | .int32 => Int32.maxValue.toInt
  | _ => Int64.maxValue.toInt

/-- Does an integer fit a kind? -/
def ElementKind.Fits (k : ElementKind) (n : Int) : Prop :=
  k.least ≤ n ∧ n ≤ k.largest

namespace Elements

/-- The integers that elements are, if they are integers. -/
def integers? : Elements → Option (List Int)
  | .int32 v => some (v.toList.map Int32.toInt)
  | .int64 v => some (v.toList.map Int64.toInt)
  | .float32 _ => none
  | .float16 _ => none

/-- The numbers that integers are taken for. -/
theorem toSingles_of_integers? {e : Elements} {ns : List Int} (h : e.integers? = some ns) :
    e.toSingles.toList = ns.map Single.ofInt := by
  cases e with
  | float32 v => cases h
  | float16 v => cases h
  | int32 v =>
    cases h
    simp [toSingles]
  | int64 v =>
    cases h
    simp [toSingles]

/-- Elements fit their own kind. -/
theorem fits_of_integers? {e : Elements} {ns : List Int} (h : e.integers? = some ns) :
    ∀ n ∈ ns, e.kind.Fits n := by
  cases e with
  | float32 v => cases h
  | float16 v => cases h
  | int32 v =>
    cases h
    intro n hn
    obtain ⟨x, -, rfl⟩ := List.mem_map.mp hn
    exact ⟨x.minValue_le_toInt, x.toInt_le⟩
  | int64 v =>
    cases h
    intro n hn
    obtain ⟨x, -, rfl⟩ := List.mem_map.mp hn
    exact ⟨x.minValue_le_toInt, x.toInt_le⟩

/-- Elements that are made of numbers are the numbers cut to the range of their kind. -/
theorem integers?_ofSingles {e : Elements} {ns : List Int} (h : e.integers? = some ns)
    (v : Array Single) : (Elements.ofSingles e.kind v).integers? = some (v.toList.map fun x =>
      Format.single.toRange e.kind.least e.kind.largest x.bits.toNat) := by
  cases e with
  | float32 _ => cases h
  | float16 _ => cases h
  | int32 _ =>
    change some ((v.map Single.toInt32).toList.map Int32.toInt) = _
    rw [Array.toList_map, List.map_map]
    refine congrArg some (List.map_congr_left fun x _ => ?_)
    -- What is cut to a range lies in it, so it is not wrapped around.
    have hrange : Int32.minValue.toInt ≤ Int32.maxValue.toInt := by decide
    obtain ⟨hlow, hhigh⟩ := Format.toRange_bounds (f := .single) hrange x.bits.toNat
    exact Int32.toInt_ofInt_of_le hlow (Int.lt_of_le_of_lt hhigh (by decide))
  | int64 _ =>
    change some ((v.map Single.toInt64).toList.map Int64.toInt) = _
    rw [Array.toList_map, List.map_map]
    refine congrArg some (List.map_congr_left fun x _ => ?_)
    have hrange : Int64.minValue.toInt ≤ Int64.maxValue.toInt := by decide
    obtain ⟨hlow, hhigh⟩ := Format.toRange_bounds (f := .single) hrange x.bits.toNat
    exact Int64.toInt_ofInt_of_le hlow (Int.lt_of_le_of_lt hhigh (by decide))

end Elements

namespace ElementKind

variable {k : ElementKind} {n : Int}

/-- No kind has integers of more than sixty-four bits. -/
theorem Fits.natAbs_lt (h : k.Fits n) : n.natAbs < 2 ^ 64 := by
  have hleast : -(2 ^ 63) ≤ k.least := by cases k <;> decide
  have hlargest : k.largest < 2 ^ 63 := by cases k <;> decide
  obtain ⟨hlow, hhigh⟩ := h
  omega

theorem fits_zero (k : ElementKind) : k.Fits 0 := by
  cases k <;> exact ⟨by decide, by decide⟩

/-- Rectifying does not leave the range. -/
theorem Fits.max_zero (h : k.Fits n) : k.Fits (max n 0) := by
  rcases max_choice n 0 with heq | heq <;> rw [heq]
  · exact h
  · exact k.fits_zero

/-- The least integer of a kind is a power of two. -/
theorem represents_least (k : ElementKind) : Format.single.Represents k.least := by
  cases k
  case int32 => exact ⟨1, 31, by decide, by decide⟩
  all_goals exact ⟨1, 63, by decide, by decide⟩

end ElementKind

/-! ### One element -/

namespace Single

open Format

variable {n : Int}

/-- The pattern that an integer is taken for fits into thirty-two bits. -/
theorem bits_ofInt (hn : n.natAbs < 2 ^ 64) : (ofInt n).bits.toNat = single.ofInt n :=
  UInt32.toNat_ofNat_of_lt' (isFinite_ofInt single_proper hn (by decide)).2

/-- What an integer is taken for. -/
theorem ofInt_rounds (hn : n.natAbs < 2 ^ 64) :
    (ofInt n).isFinite = true ∧ ∃ r : Int, single.RoundsInteger n r ∧ (ofInt n).number = r := by
  unfold isFinite number
  rw [bits_ofInt hn]
  exact (single.isNearest_ofInt n).integer single_proper (by decide) hn

/-- Rectifying comes to the same before and after. -/
theorem relu_ofInt (hn : n.natAbs < 2 ^ 64) : (ofInt n).relu = ofInt (max n 0) := by
  unfold relu
  rw [isNaN_of_isFinite (ofInt_rounds hn).1, if_neg Bool.false_ne_true, bits_ofInt hn,
    isNegative_ofInt]
  -- Rounding keeps the sign, so both ways ask the same question.
  by_cases hneg : n < 0
  · rw [if_pos (decide_eq_true hneg), max_eq_right hneg.le]
    rfl
  · rw [if_neg (by simpa using hneg), max_eq_left (Int.not_lt.mp hneg)]

end Single

namespace Native

/-- **An element of the rectifier**: what single precision makes of the larger of the element and
zero, if it fits. It is that number itself where single precision holds it, and only there: rounding
up to a number beyond the range does not come back to its end (see `Format.toRange`). -/
structure Rectified (k : ElementKind) (n out : Int) : Prop where
  exact_iff : out = max n 0 ↔ Format.single.Represents (max n 0)
  rounds : ∃ r, Format.single.RoundsInteger (max n 0) r ∧ (k.Fits r → out = r)

/-- **An element of the sum**: both operands and then their sum are rounded to single precision, and
the result is that number if it fits. Where single precision holds all three nothing is lost. -/
structure Summed (k : ElementKind) (a b out : Int) : Prop where
  exact : Format.single.Represents a → Format.single.Represents b →
    Format.single.Represents (a + b) → k.Fits (a + b) → out = a + b
  rounds : ∃ a' b' c, Format.single.RoundsInteger a a' ∧ Format.single.RoundsInteger b b' ∧
    Format.single.RoundsInteger (a' + b') c ∧ (k.Fits c → out = c)

variable {k : ElementKind}

/-- **One element of the rectifier.** -/
theorem rectified {n : Int} (hn : k.Fits n) : Rectified k n
    (Format.single.toRange k.least k.largest (Single.ofInt n).relu.bits.toNat) := by
  have hfits := hn.max_zero
  rw [Single.relu_ofInt hn.natAbs_lt]
  obtain ⟨hfinite, r, hr, hnumber⟩ := Single.ofInt_rounds hfits.natAbs_lt
  have hcut := Format.toRange_of_number k.least k.largest (single_bits_lt _) hfinite hnumber
  refine ⟨⟨?_, ?_⟩, r, hr, ?_⟩
  · -- What comes back was cut from a number of single precision, so it is one that is held.
    intro heq
    rw [← heq]
    exact Format.represents_toRange k.represents_least _ _
  · intro hrepresents
    rw [hcut, hr.eq hrepresents]
    exact if_pos hfits
  · intro hr'
    rw [hcut]
    exact if_pos hr'

/-- **One element of the sum.** -/
theorem summed {a b : Int} (ha : k.Fits a) (hb : k.Fits b) : Summed k a b
    (Format.single.toRange k.least k.largest
      ((Single.ofInt a).add (Single.ofInt b)).bits.toNat) := by
  obtain ⟨hfiniteA, a', hroundsA, hnumberA⟩ := Single.ofInt_rounds ha.natAbs_lt
  obtain ⟨hfiniteB, b', hroundsB, hnumberB⟩ := Single.ofInt_rounds hb.natAbs_lt
  -- Rounding can have doubled both operands, which is far from the end of the range.
  have hsmall : (a' + b').natAbs < 2 ^ 66 := by
    have hboundA := ha.natAbs_lt
    have hboundB := hb.natAbs_lt
    have hdoubleA := hroundsA.natAbs_le
    have hdoubleB := hroundsB.natAbs_le
    omega
  -- The sum is computed on the rounded operands and rounded once more.
  have hnearest := Single.isNearest_add hfiniteA hfiniteB
  rw [hnumberA, hnumberB, ← Int.cast_add] at hnearest
  obtain ⟨hfinite, c, hroundsC, hnumber⟩ :=
    hnearest.integer Format.single_proper (by decide) hsmall
  have hcut := Format.toRange_of_number k.least k.largest (single_bits_lt _) hfinite hnumber
  refine ⟨?_, a', b', c, hroundsA, hroundsB, hroundsC, ?_⟩
  · intro hheldA hheldB hheld hfits
    obtain rfl := hroundsA.eq hheldA
    obtain rfl := hroundsB.eq hheldB
    rw [hcut, hroundsC.eq hheld]
    exact if_pos hfits
  · intro hfits
    rw [hcut]
    exact if_pos hfits

end Native

/-! ### Tensors -/

/-- Every kind has an element type of its own. -/
theorem DType.kind?_dtype (k : ElementKind) : k.dtype.kind? = some k := by
  cases k <;> decide

theorem Elements.size_toSingles (e : Elements) : e.toSingles.size = e.size := by
  cases e <;> simp [Elements.toSingles, Elements.size]

theorem Elements.size_ofSingles (k : ElementKind) (v : Array Single) :
    (Elements.ofSingles k v).size = v.size := by
  cases k <;> simp [Elements.ofSingles, Elements.size]

/-- There is an integer for each element. -/
theorem Elements.length_integers? {e : Elements} {ns : List Int} (h : e.integers? = some ns) :
    ns.length = e.size := by
  rw [← Elements.size_toSingles, ← Array.length_toList, Elements.toSingles_of_integers? h,
    List.length_map]

/-- As many numbers as a tensor has elements make a tensor of its form. -/
theorem Tensor.ofSingles_like (x : Tensor) {values : Array Single}
    (hsize : values.size = x.elements.size) :
    ∃ y, Tensor.ofSingles x.dtype values x.shape x.device = .ok y ∧
      y.elements = .ofSingles x.elements.kind values ∧ y.descriptor = x.descriptor := by
  have hcount : x.shape.count = .ok (Elements.ofSingles x.elements.kind values).size := by
    rw [Elements.size_ofSingles, hsize]
    exact x.count_eq
  obtain ⟨y, hmake, helements, hshape, hdevice⟩ := Tensor.make_ok x.device x.isStatic hcount
  refine ⟨y, ?_, helements, ?_⟩
  · unfold Tensor.ofSingles Tensor.dtype
    rw [DType.kind?_dtype]
    exact hmake
  · have hkind : (Elements.ofSingles x.elements.kind values).kind = x.elements.kind := by
      cases x.elements.kind <;> rfl
    unfold Tensor.descriptor Tensor.dtype
    rw [helements, hshape, hdevice, hkind]

namespace Native

/-- The rectifier succeeds on every tensor. -/
theorem relu_ok (x : Tensor) : ∃ y, relu [x] = .ok [y] ∧ y.descriptor = x.descriptor ∧
    y.elements = .ofSingles x.elements.kind (x.elements.toSingles.map Single.relu) := by
  have hsize : (x.elements.toSingles.map Single.relu).size = x.elements.size := by
    rw [Array.size_map, Elements.size_toSingles]
  obtain ⟨y, hok, helements, hdescriptor⟩ := x.ofSingles_like hsize
  refine ⟨y, ?_, hdescriptor, helements⟩
  rw [relu, reluTensor, hok]
  rfl

/-- Tensors of one shape have as many elements. -/
theorem size_eq_of_shape {x y : Tensor} (hshape : x.shape = y.shape) :
    x.elements.size = y.elements.size := by
  have hcounts := x.count_eq
  rw [hshape, y.count_eq] at hcounts
  exact (Except.ok.inj hcounts).symm

/-- The sum succeeds on tensors that agree in element type, shape and device. -/
theorem add_ok {x y : Tensor} (hdtype : x.dtype = y.dtype) (hshape : x.shape = y.shape)
    (hdevice : x.device.same y.device = true) :
    ∃ z, add [x, y] = .ok [z] ∧ z.descriptor = x.descriptor ∧ z.elements =
      .ofSingles x.elements.kind
        (Array.zipWith Single.add x.elements.toSingles y.elements.toSingles) := by
  have hsize : (Array.zipWith Single.add x.elements.toSingles y.elements.toSingles).size =
      x.elements.size := by
    rw [Array.size_zipWith, Elements.size_toSingles, Elements.size_toSingles,
      ← size_eq_of_shape hshape, Nat.min_self]
  -- Element type, device and rank are asked in this order, and all of them agree.
  have hcheck : checkSameKind x.descriptor y.descriptor = .ok () := by
    have hsame : (!x.descriptor.device.same y.descriptor.device) = false := by
      rw [Bool.not_eq_false']
      exact hdevice
    unfold checkSameKind
    rw [if_neg (by exact not_not.mpr hdtype), hsame, if_neg Bool.false_ne_true,
      if_neg (by exact not_not.mpr (congrArg List.length hshape))]
  obtain ⟨z, hok, helements, hdescriptor⟩ := x.ofSingles_like hsize
  refine ⟨z, ?_, hdescriptor, helements⟩
  rw [add, hcheck, ok_bind, if_neg (not_not.mpr hshape), addTensors, hok]
  rfl

/-- What the rectifier makes of integers. -/
theorem rectified_elements {x y : Tensor} {ns : List Int} (hx : x.elements.integers? = some ns)
    (hy : y.elements = .ofSingles x.elements.kind (x.elements.toSingles.map Single.relu)) :
    ∃ outs, y.elements.integers? = some outs ∧
      List.Forall₂ (Rectified x.elements.kind) ns outs := by
  refine ⟨_, hy ▸ Elements.integers?_ofSingles hx _, ?_⟩
  rw [Array.toList_map, Elements.toSingles_of_integers? hx, List.map_map, List.map_map,
    List.forall₂_map_right_iff]
  exact List.forall₂_same.mpr fun n hn => rectified (Elements.fits_of_integers? hx n hn)

/-- What the sum makes of integers of one kind. -/
theorem summed_elements {x y z : Tensor} {ns ms : List Int} (hx : x.elements.integers? = some ns)
    (hy : y.elements.integers? = some ms) (hkind : y.elements.kind = x.elements.kind)
    (hz : z.elements = .ofSingles x.elements.kind
      (Array.zipWith Single.add x.elements.toSingles y.elements.toSingles)) :
    ∃ outs, z.elements.integers? = some outs ∧
      List.Forall₂ (fun p out => Summed x.elements.kind p.1 p.2 out) (ns.zip ms) outs := by
  refine ⟨_, hz ▸ Elements.integers?_ofSingles hx _, ?_⟩
  rw [Array.toList_zipWith, Elements.toSingles_of_integers? hx, Elements.toSingles_of_integers? hy,
    List.zipWith_map, ← List.map_uncurry_zip_eq_zipWith, List.map_map, List.forall₂_map_right_iff]
  refine List.forall₂_same.mpr fun p hp => ?_
  obtain ⟨hleft, hright⟩ := List.of_mem_zip hp
  exact summed (Elements.fits_of_integers? hx _ hleft)
    (hkind ▸ Elements.fits_of_integers? hy _ hright)

end Native

namespace Registry

/-- **A registry with the operators of the host**, whatever came before and after them. -/
def HasNative (r : Registry) : Prop :=
  ∃ before after, Native.register before = (.ok (), after) ∧ after.operators <+: r.operators

/-- All operators of a list are added, one after the other. -/
theorem addEach_cons_ok {add : Registry → Except Failure Registry}
    {more : List (Registry → Except Failure Registry)} {r r' : Registry}
    (h : addEach r (add :: more) = (.ok (), r')) :
    ∃ between, add r = .ok between ∧ addEach between more = (.ok (), r') := by
  rw [addEach] at h
  split at h
  next => cases h
  next between hadd => exact ⟨between, hadd, h⟩

/-- An operator is added behind those that are there, under a new name. -/
theorem addOperator_ok {r r' : Registry} {name : String} {symbolic : OperatorKernel Descriptor}
    {concrete : OperatorKernel Tensor}
    (h : r.addOperator name (some symbolic) (some concrete) = .ok r') :
    r.operators.lookup name = none ∧
      r'.operators = r.operators ++ [(name, ⟨symbolic, concrete⟩)] := by
  unfold addOperator at h
  split at h
  next => cases h
  next =>
  dsimp only at h
  split at h
  next => cases h
  next hfresh =>
  cases h
  exact ⟨Option.not_isSome_iff_eq_none.mp hfresh, rfl⟩

/-- **The operators are found** under their names, whatever was registered before or later. -/
theorem HasNative.operators {r : Registry} (h : r.HasNative) :
    r.operator? Native.addName =
        some ⟨Native.pureKernel Value.symbols Native.addSymbolic,
          Native.pureKernel Value.tensors Native.add⟩ ∧
      r.operator? Native.reluName =
        some ⟨Native.pureKernel Value.symbols (Native.same Native.reluName),
          Native.pureKernel Value.tensors Native.relu⟩ := by
  obtain ⟨before, after, hregister, later, hlater⟩ := h
  obtain ⟨first, hfirst, hrest⟩ := addEach_cons_ok hregister
  obtain ⟨second, hsecond, hrest⟩ := addEach_cons_ok hrest
  obtain ⟨third, hthird, hrest⟩ := addEach_cons_ok hrest
  obtain rfl : third = after := (Prod.mk.inj hrest).2
  obtain ⟨-, hfirst⟩ := addOperator_ok hfirst
  obtain ⟨hadd, hsecond⟩ := addOperator_ok hsecond
  obtain ⟨hrelu, hthird⟩ := addOperator_ok hthird
  -- The first operator of a name is found, so what comes behind changes nothing.
  have hkept {name : String} {op : Operator} {ops more : List (String × Operator)}
      (hop : ops.lookup name = some op) : (ops ++ more).lookup name = some op := by
    rw [List.lookup_append, hop, Option.some_or]
  unfold operator?
  rw [← hlater]
  constructor
  · apply hkept
    rw [hthird]
    apply hkept
    rw [hsecond, List.lookup_append, hadd]
    rfl
  · apply hkept
    rw [hthird, List.lookup_append, hrelu]
    rfl

/-- A call of an operator that leaves the station alone. -/
theorem invoke_pure {r : Registry} {name : String} {symbolic : OperatorKernel Descriptor}
    {f : List Tensor → Except Failure (List Tensor)} {inputs outs : List Tensor}
    (hop : r.operator? name = some ⟨symbolic, Native.pureKernel Value.tensors f⟩)
    (hok : f inputs = .ok outs) (objects : List Object) (s : Station) :
    r.invoke .concrete name (Value.tensors inputs) objects s = (.ok (Value.tensors outs), s) := by
  -- Tensors are passed as values and taken out again.
  have htensors (i : Nat) : tensors name i (Value.tensors inputs) = .ok inputs := by
    clear hok
    induction inputs generalizing i with
    | nil => rfl
    | cons t more ih =>
      change tensors name i (some (.tensor t) :: Value.tensors more) = _
      rw [tensors, ih (i + 1)]
      rfl
  unfold invoke
  rw [hop]
  dsimp only
  rw [htensors]
  dsimp only
  rw [Native.pureKernel, hok]
  rfl

/-- **The operators of the host on integers.** A call of the rectifier on a tensor of integers gives
a tensor of the same form, and so does a call of the sum on two tensors of one element type and
shape on the same device. Their elements are exact where single precision holds the numbers, and
what rounding makes of them elsewhere. -/
theorem integer_arithmetic {r : Registry} (hr : r.HasNative) (objects : List Object) (s : Station) :
    (∀ (x : Tensor) (ns : List Int), x.elements.integers? = some ns → ∃ y outs,
      r.invoke .concrete Native.reluName [some (.tensor x)] objects s =
        (.ok [some (.tensor y)], s) ∧
      y.descriptor = x.descriptor ∧ y.elements.integers? = some outs ∧
      List.Forall₂ (Native.Rectified x.elements.kind) ns outs) ∧
    (∀ (x y : Tensor) (ns ms : List Int), x.elements.integers? = some ns →
      y.elements.integers? = some ms → x.dtype = y.dtype → x.shape = y.shape →
      x.device.same y.device = true → ∃ z outs,
      r.invoke .concrete Native.addName [some (.tensor x), some (.tensor y)] objects s =
        (.ok [some (.tensor z)], s) ∧
      z.descriptor = x.descriptor ∧ z.elements.integers? = some outs ∧ ns.length = ms.length ∧
      List.Forall₂ (fun p out => Native.Summed x.elements.kind p.1 p.2 out) (ns.zip ms) outs) := by
  obtain ⟨hadd, hrelu⟩ := hr.operators
  constructor
  · intro x ns hx
    obtain ⟨y, hcall, hdescriptor, helements⟩ := Native.relu_ok x
    obtain ⟨outs, houts, hrectified⟩ := Native.rectified_elements hx helements
    exact ⟨y, outs, invoke_pure hrelu hcall objects s, hdescriptor, houts, hrectified⟩
  · intro x y ns ms hx hy hdtype hshape hdevice
    -- An element type stands for one kind, so equal types are equal kinds.
    have hkind : y.elements.kind = x.elements.kind := by
      have hkinds := congrArg DType.kind? hdtype
      unfold Tensor.dtype at hkinds
      rw [DType.kind?_dtype, DType.kind?_dtype] at hkinds
      exact (Option.some.inj hkinds).symm
    have hlength : ns.length = ms.length := by
      rw [Elements.length_integers? hx, Elements.length_integers? hy,
        Native.size_eq_of_shape hshape]
    obtain ⟨z, hcall, hdescriptor, helements⟩ := Native.add_ok hdtype hshape hdevice
    obtain ⟨outs, houts, hsummed⟩ := Native.summed_elements hx hy hkind helements
    exact ⟨z, outs, invoke_pure hadd hcall objects s, hdescriptor, houts, hlength, hsummed⟩

/-- The operators of the host and nothing else. -/
def nativeOnly : Registry :=
  (Native.register {}).2

theorem nativeOnly_hasNative : nativeOnly.HasNative :=
  ⟨{}, nativeOnly, rfl, List.prefix_rfl⟩

/-- A tensor of two integers of thirty-two bits, one of them negative. -/
def pairOfInts : Tensor :=
  ⟨.int32 #[-3, 16777218], [2], .cpu, rfl, rfl⟩

/-- Both are rectified exactly, and so is their sum with themselves. -/
theorem integer_arithmetic_pair : nativeOnly.HasNative ∧ ∃ y z,
    nativeOnly.invoke .concrete Native.reluName [some (.tensor pairOfInts)] [] {} =
      (.ok [some (.tensor y)], {}) ∧ y.elements.integers? = some [0, 16777218] ∧
    nativeOnly.invoke .concrete Native.addName
      [some (.tensor pairOfInts), some (.tensor pairOfInts)] [] {} =
      (.ok [some (.tensor z)], {}) ∧ z.elements.integers? = some [-6, 33554436] := by
  have hints : pairOfInts.elements.integers? = some [-3, 16777218] := rfl
  obtain ⟨hrelu, hadd⟩ := integer_arithmetic nativeOnly_hasNative [] {}
  obtain ⟨y, outs, hy, -, houts, hrectified⟩ := hrelu _ _ hints
  obtain ⟨z, sums, hz, -, hsums, -, hsummed⟩ := hadd _ _ _ _ hints hints rfl rfl (by decide)
  -- Two elements each; the relation is taken apart element by element.
  cases hrectified with | cons hfirst hrest =>
  cases hrest with | cons hsecond hnone =>
  cases hnone
  cases hsummed with | cons hthird hrest =>
  cases hrest with | cons hfourth hnone =>
  cases hnone
  have hminus : Format.single.Represents (-3) := ⟨3, 0, by decide, rfl⟩
  have hlarge : Format.single.Represents 16777218 := ⟨8388609, 1, by decide, rfl⟩
  refine ⟨nativeOnly_hasNative, y, z, hy, ?_, hz, ?_⟩
  · rw [houts, hfirst.exact_iff.mpr (Format.represents_zero _), hsecond.exact_iff.mpr hlarge]
    rfl
  · rw [hsums, hthird.exact hminus hminus ⟨6, 0, by decide, rfl⟩ ⟨by decide, by decide⟩,
      hfourth.exact hlarge hlarge ⟨8388609, 2, by decide, rfl⟩ ⟨by decide, by decide⟩]
    rfl

/-- The least integer that the rectifier loses. -/
def oddInt : Tensor :=
  ⟨.int32 #[16777217], [1], .cpu, rfl, rfl⟩

/-- The largest integer up to which all are held, and one. -/
def lastAndOne : Tensor × Tensor :=
  (⟨.int64 #[16777216], [1], .cpu, rfl, rfl⟩, ⟨.int64 #[1], [1], .cpu, rfl, rfl⟩)

/-- The result of neither call is exact, though it would fit. -/
theorem integers_lost : ∃ y z,
    nativeOnly.invoke .concrete Native.reluName [some (.tensor oddInt)] [] {} =
      (.ok [some (.tensor y)], {}) ∧ y.elements = .int32 #[16777216] ∧
    nativeOnly.invoke .concrete Native.addName
      [some (.tensor lastAndOne.1), some (.tensor lastAndOne.2)] [] {} =
      (.ok [some (.tensor z)], {}) ∧
      z.elements = .int64 #[16777216] := by
  obtain ⟨hadd, hrelu⟩ := nativeOnly_hasNative.operators
  obtain ⟨y, hy, -, hyElements⟩ := Native.relu_ok oddInt
  obtain ⟨z, hz, -, hzElements⟩ := Native.add_ok (x := lastAndOne.1) (y := lastAndOne.2) rfl rfl rfl
  -- One element is enough, and is computed.
  have hodd : (Single.ofInt (16777217 : Int32).toInt).relu.toInt32 = 16777216 := by
    decide +kernel
  have hlast : ((Single.ofInt (16777216 : Int64).toInt).add
      (Single.ofInt (1 : Int64).toInt)).toInt64 = 16777216 := by
    decide +kernel
  refine ⟨y, z, invoke_pure hrelu hy [] {}, ?_, invoke_pure hadd hz [] {}, ?_⟩
  · rw [hyElements]
    change Elements.int32 (((#[16777217].map fun n : Int32 => Single.ofInt n.toInt).map
      Single.relu).map Single.toInt32) = _
    simp only [List.map_toArray, List.map_cons, List.map_nil, hodd]
  · rw [hzElements]
    change Elements.int64 ((Array.zipWith Single.add
      (#[16777216].map fun n : Int64 => Single.ofInt n.toInt)
      (#[1].map fun n : Int64 => Single.ofInt n.toInt)).map Single.toInt64) = _
    simp only [List.map_toArray, List.zipWith_toArray, List.map_cons, List.map_nil,
      List.zipWith_cons_cons, List.zipWith_nil_left, hlast]

end Registry

end EngineHost

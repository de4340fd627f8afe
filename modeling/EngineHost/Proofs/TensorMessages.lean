import EngineHost.Proofs.Execution
import EngineHost.Proofs.NumberConversions
import EngineHost.Service.Message

/-!
# Tensors through messages

What is left of a tensor that is sent in a message and taken out of it again. The message can always
be read, and the tensor has its element type, its shape and its device
(`TensorMessage.toTensor_ofTensor`).

Numbers of both float kinds come back as they were, since doubles hold them all. Integers come back
as long as the precision on the way holds them (`Format.Represents`): doubles for integers of
sixty-four bits, single precision for those of thirty-two. Beyond 2 ^ 53 and 2 ^ 24 most integers
lose their low bits (`TensorMessage.integers_rounded`).
-/

namespace EngineHost

namespace Elements

/-- All elements are finite numbers. -/
def AllFinite : Elements → Prop
  | .float32 v => ∀ x ∈ v.toList, x.isFinite = true
  | .float16 v => ∀ x ∈ v.toList, Format.half.isFinite x.bits.toNat = true
  | .int32 _ => True
  | .int64 _ => True

/-- **What comes back of elements**: floats as they were, and an integer exactly if the precision
that it passes through holds it. That is single precision for integers of thirty-two bits, although
the doubles of a message would hold them all. -/
def Returns : Elements → Elements → Prop
  | .float32 v, .float32 w => w = v
  | .float16 v, .float16 w => w = v
  | .int32 v, .int32 w =>
    List.Forall₂ (fun n m => m = n ↔ Format.single.Represents n.toInt) v.toList w.toList
  | .int64 v, .int64 w =>
    List.Forall₂ (fun n m => m = n ↔ Format.double.Represents n.toInt) v.toList w.toList
  | _, _ => False

/-- What comes back is of the same kind. -/
theorem Returns.kind_eq {e e' : Elements} (h : e.Returns e') : e'.kind = e.kind := by
  cases e <;> cases e' <;> first | rfl | exact h.elim

/-- As many elements come back. -/
theorem Returns.size_eq {e e' : Elements} (h : e.Returns e') : e'.size = e.size := by
  cases e <;> cases e' <;> try exact h.elim
  case float32.float32 => exact congrArg Array.size h
  case float16.float16 => exact congrArg Array.size h
  case int32.int32 => exact h.length_eq.symm
  case int64.int64 => exact h.length_eq.symm

end Elements

namespace TensorMessage

/-- A list and its image are related element by element. -/
theorem forall₂_map_self {α : Type} {R : α → α → Prop} {back : α → α} (h : ∀ a, R a (back a))
    (as : List α) : List.Forall₂ R as (as.map back) := by
  rw [List.forall₂_map_right_iff]
  exact List.forall₂_same.mpr fun a _ => h a

/-! The numbers of elements, by kind. -/

theorem numbers_float32 (v : Array Single) : numbers (.float32 v) = v.toList.map Single.toDouble :=
  rfl

theorem numbers_float16 (v : Array Half) :
    numbers (.float16 v) = v.toList.map fun x => x.toSingle.toDouble := by
  simp [numbers, Elements.toSingles]

theorem numbers_int32 (v : Array Int32) :
    numbers (.int32 v) = v.toList.map fun n => (Single.ofInt n.toInt).toDouble := by
  simp [numbers, Elements.toSingles]

theorem numbers_int64 (v : Array Int64) :
    numbers (.int64 v) = v.toList.map fun n => Double.ofInt n.toInt :=
  rfl

/-- **The elements of a message** that holds the numbers of elements. -/
theorem returns_elements {e : Elements} (hfinite : e.AllFinite) {m : TensorMessage}
    (hdata : m.data = numbers e) : e.Returns (m.elements e.kind) := by
  cases e with
  | float32 v =>
    -- Doubles hold all numbers of single precision.
    change (m.data.map Double.toSingle).toArray = v
    have hback : m.data.map Double.toSingle = v.toList := by
      rw [hdata, numbers_float32, List.map_map]
      refine (List.map_congr_left fun x hx => ?_).trans v.toList.map_id
      exact Single.toDouble_toSingle (hfinite x hx)
    exact congrArg List.toArray hback
  | float16 v =>
    -- Sixteen bits pass through single precision and doubles, which hold them all.
    change (m.data.map Double.toSingle).toArray.map Single.toHalf = v
    have hback : (m.data.map Double.toSingle).map Single.toHalf = v.toList := by
      rw [hdata, numbers_float16, List.map_map, List.map_map]
      refine (List.map_congr_left fun x hx => ?_).trans v.toList.map_id
      have hsingle : x.toSingle.isFinite = true := (Half.isFinite_toSingle x).trans (hfinite x hx)
      change x.toSingle.toDouble.toSingle.toHalf = x
      rw [Single.toDouble_toSingle hsingle, Half.toSingle_toHalf (hfinite x hx)]
    rw [List.map_toArray]
    exact congrArg List.toArray hback
  | int32 v =>
    -- Integers of thirty-two bits are rounded to single precision first, and doubles hold the
    -- result.
    change List.Forall₂ _ v.toList ((m.data.map Double.toSingle).toArray.map Single.toInt32).toList
    have hback : ((m.data.map Double.toSingle).toArray.map Single.toInt32).toList =
        v.toList.map fun n => (Single.ofInt n.toInt).toDouble.toSingle.toInt32 := by
      rw [hdata, numbers_int32, List.map_toArray, List.map_map, List.map_map]
      rfl
    rw [hback]
    refine forall₂_map_self (fun n => ?_) v.toList
    rw [Single.toDouble_toSingle (Single.ofInt_int32 n).1]
    exact Single.toInt32_ofInt_iff n
  | int64 v =>
    -- Integers of sixty-four bits are rounded to doubles at once.
    change List.Forall₂ _ v.toList (m.data.map Double.toInt64).toArray.toList
    have hback : (m.data.map Double.toInt64).toArray.toList =
        v.toList.map fun n => (Double.ofInt n.toInt).toInt64 := by
      rw [hdata, numbers_int64, List.map_map]
      rfl
    rw [hback]
    exact forall₂_map_self Double.toInt64_ofInt_iff v.toList

/-- The name of a kind is read as the kind. -/
theorem kind_ofTensor (name : String) (t : Tensor) :
    (ofTensor name t).kind = .ok t.elements.kind := by
  have hparse (k : ElementKind) : DType.parse? k.dtype.name = some k := by
    cases k <;> decide +kernel
  unfold kind
  rw [show (ofTensor name t).dtype.name = t.elements.kind.dtype.name from rfl, hparse]

/-- **A tensor through a message.** The message of a tensor of finite elements gives a tensor with
its element type, shape and device. Floats come back as they were, and integers exactly where the
precision on the way holds them. -/
theorem toTensor_ofTensor (name : String) (t : Tensor) (hfinite : t.elements.AllFinite) :
    ∃ t', (ofTensor name t).toTensor = .ok t' ∧ t'.descriptor = t.descriptor ∧
      t.elements.Returns t'.elements := by
  -- What comes back are as many elements of the kind, so they make a tensor of the shape.
  have hreturns : t.elements.Returns ((ofTensor name t).elements t.elements.kind) :=
    returns_elements hfinite rfl
  have hcount : t.shape.count = .ok ((ofTensor name t).elements t.elements.kind).size := by
    rw [hreturns.size_eq]
    exact t.count_eq
  obtain ⟨t', hmake, helements, hshape, hdevice⟩ := Tensor.make_ok t.device t.isStatic hcount
  refine ⟨t', ?_, ?_, helements ▸ hreturns⟩
  · unfold toTensor
    rw [kind_ofTensor]
    change (Tensor.make t.device ((ofTensor name t).elements t.elements.kind)
      t.shape).mapError _ = _
    rw [hmake]
    rfl
  · rw [← helements] at hreturns
    unfold Tensor.descriptor Tensor.dtype
    rw [hreturns.kind_eq, hshape, hdevice]

/-- A tensor with the least positive number of sixteen bits and the largest one below zero. -/
def faint : Tensor :=
  ⟨.float16 #[⟨0x0001⟩, ⟨0xFBFF⟩], [1, 2], .cpu, by decide, by decide⟩

theorem toTensor_ofTensor_faint : faint.elements.AllFinite ∧
    ∃ t', (ofTensor "x" faint).toTensor = .ok t' ∧ t'.descriptor = faint.descriptor ∧
      t'.elements = faint.elements := by
  have hfinite : faint.elements.AllFinite := by
    change ∀ x ∈ [(⟨0x0001⟩ : Half), ⟨0xFBFF⟩], Format.half.isFinite x.bits.toNat = true
    decide
  obtain ⟨t', hread, hdescriptor, hreturns⟩ := toTensor_ofTensor "x" faint hfinite
  refine ⟨hfinite, t', hread, hdescriptor, ?_⟩
  cases helements : t'.elements with
  | float16 w =>
    rw [helements] at hreturns
    exact congrArg Elements.float16 hreturns
  | float32 | int32 | int64 =>
    rw [helements] at hreturns
    exact hreturns.elim

/-- The least integers that do not come back, one of each width. -/
theorem integers_rounded :
    (ofTensor "x" ⟨.int32 #[16777217], [1], .cpu, by decide, by decide⟩).toTensor.toOption.map
        Tensor.elements = some (.int32 #[16777216]) ∧
      (ofTensor "x"
        ⟨.int64 #[9007199254740993], [1], .cpu, by decide, by decide⟩).toTensor.toOption.map
        Tensor.elements = some (.int64 #[9007199254740992]) := by
  constructor <;> decide +kernel

end TensorMessage

end EngineHost

import EngineHost.Proofs.NumberText
import EngineHost.Proofs.ProgramFiles
import EngineHost.Proofs.TensorMessages

/-!
# Messages as text

A message has a JSON value exactly if all its numbers are finite; then the value is plain and is
read as the message (`TensorMessage.toJson?_of_finite`, `TensorMessage.toJson?_of_not_finite`). Of
the message of a tensor this is a matter of the tensor's own elements
(`TensorMessage.numbers_finite_iff`): conversion to doubles makes no finite number infinite and no
other one finite, and every integer is finite.
-/

namespace EngineHost

/-! ### Lists of results -/

/-- A list of results that are all there. -/
theorem mapM_eq_some {α β : Type} {f : α → Option β} {g : α → β} {xs : List α}
    (h : ∀ x ∈ xs, f x = some (g x)) : xs.mapM f = some (xs.map g) := by
  induction xs with
  | nil => rfl
  | cons x more ih =>
    rw [List.mapM_cons, h x List.mem_cons_self, ih fun y hy => h y (List.mem_cons_of_mem x hy)]
    rfl

/-- One result that is missing makes the list missing. -/
theorem mapM_eq_none {α β : Type} {f : α → Option β} {xs : List α} {x : α} (hx : x ∈ xs)
    (h : f x = none) : xs.mapM f = none := by
  induction xs with
  | nil => cases hx
  | cons y more ih =>
    rw [List.mapM_cons]
    rcases List.mem_cons.mp hx with rfl | hmore
    · rw [h]
      rfl
    · rw [ih hmore]
      -- What comes before does not matter, as the rest is missing anyway.
      cases f y <;> rfl

/-! ### Numbers -/

namespace Json

/-- The spelling of a number of sixty-four bits. -/
def double (x : Double) : Json :=
  .number (x.text .json)

theorem ofDouble?_of_finite {x : Double} (hx : x.isFinite = true) : ofDouble? x = some (double x) :=
  if_pos hx

theorem ofDouble?_of_not_finite {x : Double} (hx : ¬x.isFinite = true) : ofDouble? x = none :=
  if_neg hx

/-- The spelling of a finite number is a numeral. -/
theorem plain_double {x : Double} (hx : x.isFinite = true) {n : Nat} : Plain n (double x) := by
  obtain ⟨m, htext, -⟩ := Double.text_eq hx
  rw [double, htext]
  exact .number m

/-- A finite number is read back from its spelling. -/
theorem Reader.double_double {x : Double} (hx : x.isFinite = true) :
    Reader.double [Json.double x] = some x := by
  obtain ⟨m, htext, hread⟩ := Double.text_eq hx
  rw [← htext] at hread
  change ((Double.read (x.text .json)).toOption >>= fun y => some y) = some x
  rw [hread]
  rfl

end Json

/-! ### Messages -/

namespace TensorMessage

/-- The JSON value of a message. -/
def json (m : TensorMessage) : Json :=
  .object
    ([("name", .string m.name), ("dtype", .string m.dtype.name),
      ("shape", if m.shape.isEmpty then .null else .ints m.shape),
      ("device", Program.deviceJson m.device)] ++
      (if m.data.isEmpty then [] else [("data", .array (m.data.map Json.double))]))

/-- **A message of finite numbers has a JSON value.** -/
theorem toJson?_of_finite {m : TensorMessage} (hdata : ∀ x ∈ m.data, x.isFinite = true) :
    m.toJson? = some m.json := by
  unfold toJson?
  rw [mapM_eq_some fun x hx => Json.ofDouble?_of_finite (hdata x hx)]
  change some _ = some _
  rw [json, List.isEmpty_map]

/-- **A message with any other number has none.** -/
theorem toJson?_of_not_finite {m : TensorMessage} (hdata : ¬∀ x ∈ m.data, x.isFinite = true) :
    m.toJson? = none := by
  push Not at hdata
  obtain ⟨x, hx, hinfinite⟩ := hdata
  unfold toJson?
  rw [mapM_eq_none hx (Json.ofDouble?_of_not_finite hinfinite)]
  rfl

/-- The value of a message is plain, in two levels. -/
theorem plain_json {m : TensorMessage} (hdata : ∀ x ∈ m.data, x.isFinite = true) :
    Json.Plain 2 m.json := by
  have hnumbers : Json.Plain 1 (.array (m.data.map Json.double)) := by
    refine .array fun v hv => ?_
    obtain ⟨x, hx, rfl⟩ := List.mem_map.mp hv
    exact Json.plain_double (hdata x hx)
  refine .object ?_
  simp only [List.forall_mem_append, List.forall_mem_cons]
  exact ⟨⟨.string _, .string _, Metadata.plain_shape _, Program.plain_deviceJson _,
    List.forall_mem_nil _⟩, Metadata.plain_optional hnumbers _⟩

open Json.Reader Json.Reader.Members in
/-- **The JSON value of a message is read as the message.** -/
theorem read_json {m : TensorMessage} (hdata : ∀ x ∈ m.data, x.isFinite = true) :
    read [m.json] = some m := by
  have hnumbers : list double (if m.data.isEmpty then [] else [.array (m.data.map Json.double)]) =
      some m.data :=
    list_optional fun x hx => double_double (hdata x hx)
  rw [read, json, record_object]
  -- Name by name; only the numbers may be left out.
  simp (disch := decide) only [get_eq, given_append, given_optional, given_same, given_other,
    given_nil, ite_self, List.append_nil, List.nil_append, text_string, DType.read_string,
    list_int64_shape, Program.readDevice_deviceJson, hnumbers]
  rfl

/-- **The numbers of elements are finite** exactly if the elements are. -/
theorem numbers_finite_iff (e : Elements) :
    (∀ x ∈ numbers e, x.isFinite = true) ↔ e.AllFinite := by
  cases e with
  | float32 v =>
    simp only [numbers_float32, List.forall_mem_map, Single.isFinite_toDouble]
    exact Iff.rfl
  | float16 v =>
    simp only [numbers_float16, List.forall_mem_map, Single.isFinite_toDouble,
      Half.isFinite_toSingle]
    exact Iff.rfl
  | int32 v =>
    refine iff_of_true ?_ trivial
    simp only [numbers_int32, List.forall_mem_map, Single.isFinite_toDouble]
    exact fun n _ => (Single.ofInt_int32 n).1
  | int64 v =>
    refine iff_of_true ?_ trivial
    simp only [numbers_int64, List.forall_mem_map]
    exact fun n _ => (Double.ofInt_int64 n).1

end TensorMessage

end EngineHost

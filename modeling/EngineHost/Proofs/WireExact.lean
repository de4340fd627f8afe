import EngineHost.Plan.Wire
import EngineHost.Proofs.NetworkSound
import Mathlib.Tactic.NormNum

/-!
# The byte format is exact

A payload is accepted exactly when it is the written form of a plan, up to the seven bits of the
octet of flags that nothing reads. That is one equivalence, `Wire.decode_eq_ok_iff`, and both round
trips are read off it.

Every piece of the format gets one law of the shape `Reads take put fits`: taking gives `(a, rest)`
exactly on the octets `put a ++ rest`, for the values that `fits` admits. The direction from right
to left is "what was written is read back, whatever stands behind it", the one from left to right is
"nothing else is read as `a`". Because the law is an equivalence, pieces compose by `Reads.bind`
alone:

* numbers of a width (`takeWord_reads`) and strings behind their length (`takeString_reads`);
* lists of pieces behind their count (`takeMany_reads`), by induction on the count;
* inputs and layers (`takeInput_reads`, `takeLayer_reads`), the whole plan (`takePlan_eq_ok_iff`).

The octet of flags is the one place where two octets are read as the same value, so the plan as a
whole is written with the octet as a parameter (`Wire.fields`).
-/

namespace EngineHost

/-! ### Little-endian words -/

namespace Bytes

@[simp] theorem littleEndian_length (width n : Nat) : (littleEndian width n).length = width := by
  induction width generalizing n with
  | zero => rfl
  | succ w ih => rw [littleEndian, List.length_cons, ih]

/-- A number that fits is read back from its word. -/
theorem ofLittleEndian_littleEndian {width n : Nat} (h : n < 256 ^ width) :
    ofLittleEndian (littleEndian width n) = n := by
  induction width generalizing n with
  | zero =>
    rw [pow_zero] at h
    rw [littleEndian, ofLittleEndian]
    omega
  | succ w ih =>
    -- The lowest octet stands first, and behind it the number without it.
    have hhigh : n / 256 < 256 ^ w := by rw [pow_succ] at h; omega
    have hlow : (UInt8.ofNat n).toNat = n % 256 := UInt8.toNat_ofNat'
    rw [littleEndian, ofLittleEndian, ih hhigh, hlow]
    omega

/-- A word is below the limit of its width. -/
theorem ofLittleEndian_lt (bs : Bytes) : ofLittleEndian bs < 256 ^ bs.length := by
  induction bs with
  | nil => simp [ofLittleEndian]
  | cons b r ih =>
    have hb : b.toNat < 256 := b.toNat_lt
    rw [ofLittleEndian, List.length_cons, pow_succ]
    omega

/-- A word is written back as it was read. -/
theorem littleEndian_ofLittleEndian (bs : Bytes) :
    littleEndian bs.length (ofLittleEndian bs) = bs := by
  induction bs with
  | nil => rfl
  | cons b r ih =>
    have hb : b.toNat < 256 := b.toNat_lt
    have hhigh : (b.toNat + 256 * ofLittleEndian r) / 256 = ofLittleEndian r := by omega
    have hlow : UInt8.ofNat (b.toNat + 256 * ofLittleEndian r) = b := by
      apply UInt8.toNat_inj.mp
      rw [UInt8.toNat_ofNat']
      omega
    rw [List.length_cons, ofLittleEndian, littleEndian, hhigh, hlow, ih]

/-- A word keeps nothing of a number above its width. -/
theorem littleEndian_mod (width n : Nat) :
    littleEndian width (n % 256 ^ width) = littleEndian width n := by
  induction width generalizing n with
  | zero => rfl
  | succ w ih =>
    have hlow : UInt8.ofNat (n % 256 ^ (w + 1)) = UInt8.ofNat n := by
      apply UInt8.toNat_inj.mp
      rw [UInt8.toNat_ofNat', UInt8.toNat_ofNat']
      exact Nat.mod_mod_of_dvd n (Dvd.intro_left (256 ^ w) rfl)
    have hhigh : n % 256 ^ (w + 1) / 256 = n / 256 % 256 ^ w := by
      rw [pow_succ', Nat.mod_mul_right_div_self]
    rw [littleEndian, littleEndian, hlow, hhigh, ih]

end Bytes

/-- A network whose lists, ranks and axes fit the widths they are written in. -/
structure Network.FitsWidths (net : Network) : Prop where
  inputs : net.inputs.length ≤ 65535
  layers : net.layers.length ≤ 65535
  outputs : net.outputs.length ≤ 65535
  ranks : ∀ i ∈ net.inputs, i.min.length ≤ 255
  axes : ∀ l ∈ net.layers, -2147483648 ≤ l.axis.toInt ∧ l.axis.toInt ≤ 2147483647

namespace Wire

open Bytes

/-! ### The law of a piece -/

section Law

variable {α β : Type}

/-- **The law of a piece.** `take` gives a value and the rest exactly where the value fits and its
written form stands in front of the rest. -/
def Reads (take : Take α) (put : α → Bytes) (fits : α → Prop) : Prop :=
  ∀ bs a rest, take bs = .ok (a, rest) ↔ fits a ∧ bs = put a ++ rest

variable {take : Take α} {put : α → Bytes} {fits : α → Prop}

/-- Taking a piece and going on with the rest. -/
theorem Reads.bind (h : Reads take put fits) {bs : Bytes} {k : α × Bytes → Except ReadError β}
    {b : β} :
    (take bs >>= k) = .ok b ↔ ∃ a rest, fits a ∧ bs = put a ++ rest ∧ k (a, rest) = .ok b := by
  rw [bind_eq_ok_iff]
  constructor
  · rintro ⟨⟨a, rest⟩, htake, hk⟩
    obtain ⟨hfits, hbs⟩ := (h bs a rest).mp htake
    exact ⟨a, rest, hfits, hbs, hk⟩
  · rintro ⟨a, rest, hfits, hbs, hk⟩
    exact ⟨(a, rest), (h bs a rest).mpr ⟨hfits, hbs⟩, hk⟩

/-- Octets of a number that is known. -/
theorem takeBytes_reads (n : Nat) : Reads (takeBytes n) id (·.length = n) := by
  intro bs a rest
  unfold takeBytes
  split
  · next hshort =>
    refine ⟨fun h => absurd h (by simp), ?_⟩
    rintro ⟨rfl, rfl⟩
    rw [id_eq, List.length_append] at hshort
    omega
  · next hlong =>
    constructor
    · intro h
      obtain ⟨rfl, rfl⟩ := Prod.mk.inj (Except.ok.inj h)
      exact ⟨List.length_take_of_le (not_lt.mp hlong), (List.take_append_drop n bs).symm⟩
    · rintro ⟨rfl, rfl⟩
      rw [id_eq, List.take_left, List.drop_left]

/-- A number of a width. -/
theorem takeWord_reads (width : Nat) :
    Reads (takeWord width) (littleEndian width) (· < 256 ^ width) := by
  intro bs n rest
  unfold takeWord
  rw [(takeBytes_reads width).bind]
  constructor
  · rintro ⟨w, r, rfl, rfl, h⟩
    obtain ⟨rfl, rfl⟩ := Prod.mk.inj (Except.ok.inj h)
    exact ⟨ofLittleEndian_lt w, by rw [littleEndian_ofLittleEndian]; rfl⟩
  · rintro ⟨hn, rfl⟩
    refine ⟨littleEndian width n, rest, littleEndian_length width n, rfl, ?_⟩
    change Except.ok (ofLittleEndian (littleEndian width n), rest) = _
    rw [ofLittleEndian_littleEndian hn]

/-- A string behind its length. -/
theorem takeString_reads : Reads takeString putString (·.length ≤ maxString) := by
  intro bs s rest
  unfold takeString
  rw [(takeWord_reads 2).bind]
  constructor
  · rintro ⟨n, r, hn, rfl, h⟩
    obtain ⟨rfl, rfl⟩ := (takeBytes_reads n r s rest).mp h
    refine ⟨?_, by rw [putString, List.append_assoc]; rfl⟩
    unfold maxString
    omega
  · rintro ⟨hs, rfl⟩
    refine ⟨s.length, s ++ rest, ?_, by rw [putString, List.append_assoc], ?_⟩
    · unfold maxString at hs
      omega
    · exact (takeBytes_reads s.length (s ++ rest) s rest).mpr ⟨rfl, rfl⟩

/-- A signed number, which always fits. -/
theorem takeInt64_reads : Reads takeInt64 putInt64 (fun _ => True) := by
  intro bs n rest
  unfold takeInt64
  rw [(takeWord_reads 8).bind]
  constructor
  · rintro ⟨w, r, hw, rfl, h⟩
    obtain ⟨rfl, rfl⟩ := Prod.mk.inj (Except.ok.inj h)
    refine ⟨trivial, ?_⟩
    rw [putInt64, UInt64.toUInt64_toInt64, UInt64.toNat_ofNat_of_lt' (by simpa using hw)]
  · rintro ⟨-, rfl⟩
    refine ⟨n.toUInt64.toNat, rest, by simpa using n.toUInt64.toNat_lt, rfl, ?_⟩
    change Except.ok ((UInt64.ofNat n.toUInt64.toNat).toInt64, rest) = _
    rw [UInt64.ofNat_toNat, Int64.toInt64_toUInt64]

/-- A counted list of pieces: the law of the piece carries over by induction on the count. -/
theorem takeMany_reads (h : Reads take put fits) (n : Nat) :
    Reads (takeMany take n) (·.flatMap put) (fun as => as.length = n ∧ ∀ a ∈ as, fits a) := by
  induction n with
  | zero =>
    intro bs as rest
    rw [takeMany]
    constructor
    · intro heq
      obtain ⟨rfl, rfl⟩ := Prod.mk.inj (Except.ok.inj heq)
      exact ⟨⟨rfl, by simp⟩, rfl⟩
    · rintro ⟨⟨hlen, -⟩, rfl⟩
      obtain rfl := List.length_eq_zero_iff.mp hlen
      rfl
  | succ n ih =>
    intro bs as rest
    rw [takeMany, h.bind]
    constructor
    · rintro ⟨a, r, hfits, rfl, hmore⟩
      -- The rest of the list is one piece more, by the law for one less.
      obtain ⟨more, r, ⟨hlen, hall⟩, rfl, heq⟩ := (ih.bind).mp hmore
      obtain ⟨rfl, rfl⟩ := Prod.mk.inj (Except.ok.inj heq)
      refine ⟨⟨by rw [List.length_cons, hlen], ?_⟩, ?_⟩
      · intro b hb
        rcases List.mem_cons.mp hb with rfl | hb
        · exact hfits
        · exact hall b hb
      · exact (List.append_assoc _ _ _).symm
    · rintro ⟨⟨hlen, hall⟩, rfl⟩
      obtain ⟨a, more, rfl⟩ := List.exists_cons_of_length_eq_add_one hlen
      refine ⟨a, more.flatMap put ++ rest, hall a List.mem_cons_self, ?_, ?_⟩
      · exact List.append_assoc _ _ _
      · refine (ih.bind).mpr ⟨more, rest, ⟨by simpa using hlen, ?_⟩, rfl, rfl⟩
        exact fun b hb => hall b (List.mem_cons_of_mem _ hb)

end Law

/-! ### Inputs and layers -/

/-- What an input needs to have a form: a name that fits and two ends of one rank below 256. -/
structure InputFits (i : NetworkInput) : Prop where
  name : i.name.length ≤ maxString
  rank : i.min.length ≤ 255
  ends : i.max.length = i.min.length

/-- What a layer needs to have a form: strings that fit, fewer than 256 operands, an axis of
thirty-two bits. -/
structure LayerFits (l : Layer) : Prop where
  label : l.label.length ≤ maxString
  count : l.operands.length ≤ 255
  operands : ∀ a ∈ l.operands, a.length ≤ maxString
  output : l.output.length ≤ maxString
  axis : -2147483648 ≤ l.axis.toInt ∧ l.axis.toInt ≤ 2147483647

/-- An input. -/
theorem takeInput_reads : Reads takeInput putInput InputFits := by
  intro bs i rest
  unfold takeInput
  rw [takeString_reads.bind]
  constructor
  · -- The rank is read once and counts both ends.
    rintro ⟨name, r, hname, rfl, h⟩
    replace h := (takeWord_reads 1).bind.mp h
    obtain ⟨rank, r, hrank, rfl, h⟩ := h
    replace h := (takeMany_reads takeInt64_reads rank).bind.mp h
    obtain ⟨min, r, ⟨hmin, -⟩, rfl, h⟩ := h
    replace h := (takeMany_reads takeInt64_reads rank).bind.mp h
    obtain ⟨max, r, ⟨hmax, -⟩, rfl, h⟩ := h
    obtain ⟨rfl, rfl⟩ := Prod.mk.inj (Except.ok.inj h)
    refine ⟨⟨hname, by dsimp only; omega, by rw [hmax, hmin]⟩, ?_⟩
    simp only [putInput, hmin, List.append_assoc]
  · rintro ⟨⟨hname, hrank, hends⟩, rfl⟩
    obtain ⟨name, min, max⟩ := i
    simp only [putInput, List.append_assoc]
    refine ⟨name, _, hname, rfl, ?_⟩
    refine (takeWord_reads 1).bind.mpr ⟨min.length, _, ?_, rfl, ?_⟩
    · exact Nat.lt_succ_of_le hrank
    refine (takeMany_reads takeInt64_reads _).bind.mpr ⟨min, _, ⟨rfl, by simp⟩, rfl, ?_⟩
    exact (takeMany_reads takeInt64_reads _).bind.mpr ⟨max, rest, ⟨hends, by simp⟩, rfl, rfl⟩

/-- A signed number of sixty-four bits as its octets see it. -/
theorem toUInt64_toNat_eq (a : Int64) : (a.toUInt64.toNat : Int) = a.toInt % 2 ^ 64 := by
  have h := BitVec.toInt_eq_toNat_cond a.toBitVec
  have hlt := a.toBitVec.isLt
  change a.toInt = _ at h
  change (a.toBitVec.toNat : Int) = _
  split at h <;> omega

/-- The axis of a word is the axis in range whose low thirty-two bits are the word. -/
theorem axisOfWord_eq_iff {n : Nat} (hn : n < 256 ^ 4) (a : Int64) :
    (UInt32.ofNat n).toInt32.toInt64 = a ↔
      (-2147483648 ≤ a.toInt ∧ a.toInt ≤ 2147483647) ∧ n = a.toUInt64.toNat % 256 ^ 4 := by
  have hword : (UInt32.ofNat n).toInt32.toInt64.toInt = Int.bmod n (2 ^ 32) := by
    rw [Int32.toInt_toInt64]
    simp
  rw [← Int64.toInt_inj, hword]
  have hbits := toUInt64_toNat_eq a
  have hmod := Int.bmod_eq_emod (n : Int) (2 ^ 32)
  have hlow : -2 ^ 63 ≤ a.toInt := a.le_toInt
  have hhigh : a.toInt < 2 ^ 63 := a.toInt_lt
  -- What is left is arithmetic: word and axis differ by a multiple of 2 ^ 32.
  norm_num at *
  split at hmod <;> omega

/-- A layer. -/
theorem takeLayer_reads : Reads takeLayer putLayer LayerFits := by
  intro bs l rest
  unfold takeLayer
  rw [takeString_reads.bind]
  constructor
  · rintro ⟨label, r, hlabel, rfl, h⟩
    replace h := (takeWord_reads 1).bind.mp h
    obtain ⟨count, r, hcount, rfl, h⟩ := h
    replace h := (takeMany_reads takeString_reads count).bind.mp h
    obtain ⟨operands, r, ⟨hlen, hoperands⟩, rfl, h⟩ := h
    replace h := takeString_reads.bind.mp h
    obtain ⟨output, r, houtput, rfl, h⟩ := h
    replace h := (takeWord_reads 4).bind.mp h
    obtain ⟨axis, r, haxis, rfl, h⟩ := h
    replace h := (takeWord_reads 4).bind.mp h
    obtain ⟨scalar, r, hscalar, rfl, h⟩ := h
    obtain ⟨rfl, rfl⟩ := Prod.mk.inj (Except.ok.inj h)
    -- The axis is widened when it is read, so any word gives an axis in range, and writing that
    -- axis gives the word again.
    obtain ⟨hrange, hword⟩ := (axisOfWord_eq_iff haxis _).mp rfl
    refine ⟨⟨hlabel, by dsimp only; omega, hoperands, houtput, hrange⟩, ?_⟩
    have hbits : (UInt32.ofNat scalar).toNat = scalar := UInt32.toNat_ofNat_of_lt' hscalar
    simp only [putLayer, hlen, hbits, List.append_assoc]
    rw [← littleEndian_mod 4 (Int64.toUInt64 _).toNat, ← hword]
  · rintro ⟨⟨hlabel, hcount, hoperands, houtput, haxis⟩, rfl⟩
    obtain ⟨label, operands, output, axis, scalar⟩ := l
    -- Writing cuts the axis down to its word, which is all that is read.
    have hword : axis.toUInt64.toNat % 256 ^ 4 < 256 ^ 4 := Nat.mod_lt _ (by norm_num)
    simp only [putLayer, List.append_assoc]
    refine ⟨label, _, hlabel, rfl, ?_⟩
    refine (takeWord_reads 1).bind.mpr ⟨operands.length, _, Nat.lt_succ_of_le hcount, rfl, ?_⟩
    refine (takeMany_reads takeString_reads _).bind.mpr ⟨operands, _, ⟨rfl, hoperands⟩, rfl, ?_⟩
    refine takeString_reads.bind.mpr ⟨output, _, houtput, rfl, ?_⟩
    refine (takeWord_reads 4).bind.mpr ⟨_, _, hword, by rw [littleEndian_mod], ?_⟩
    refine (takeWord_reads 4).bind.mpr ⟨scalar.bits.toNat, rest, scalar.bits.toNat_lt, rfl, ?_⟩
    change Except.ok (_, rest) = _
    rw [(axisOfWord_eq_iff hword axis).mpr ⟨haxis, rfl⟩, UInt32.ofNat_toNat]

/-! ### Plans -/

/-- What a plan needs to have a form: every list and every string within the width of its length. -/
structure PlanFits (p : CompiledPlan) : Prop where
  platform : p.platform.length ≤ maxString
  signature : p.signature.length ≤ maxString
  inputCount : p.network.inputs.length ≤ 65535
  inputs : ∀ i ∈ p.network.inputs, InputFits i
  layerCount : p.network.layers.length ≤ 65535
  layers : ∀ l ∈ p.network.layers, LayerFits l
  outputCount : p.network.outputs.length ≤ 65535
  outputs : ∀ o ∈ p.network.outputs, o.length ≤ maxString

/-- What stands between the magic and the check value, for any octet of flags. -/
def fields (flags : UInt8) (p : CompiledPlan) : Bytes :=
  Bytes.littleEndian 2 p.version.toNat ++ ([flags] ++ (putString p.platform ++
    (putString p.signature ++
      (Bytes.littleEndian 2 p.network.inputs.length ++ (p.network.inputs.flatMap putInput ++
        (Bytes.littleEndian 2 p.network.layers.length ++ (p.network.layers.flatMap putLayer ++
          (Bytes.littleEndian 2 p.network.outputs.length ++
            p.network.outputs.flatMap putString))))))))

/-- The octet of flags a plan is written with. -/
def flagsOf (p : CompiledPlan) : UInt8 :=
  if p.hardwareCompatible then 1 else 0

/-- The written form of a plan has its own octet of flags. -/
theorem body_eq (p : CompiledPlan) : body p = magic ++ fields (flagsOf p) p := by
  simp only [body, fields, flagsOf, List.append_assoc]

/-- The octet of flags as the reader takes it. -/
theorem littleEndian_one (flags : UInt8) : littleEndian 1 flags.toNat = [flags] := by
  simp [littleEndian]

/-- **What the fields of a plan are read from**: the fields of that plan, with any octet of flags of
the right lowest bit. -/
theorem takePlan_eq_ok_iff (bs : Bytes) (p : CompiledPlan) (rest : Bytes) :
    takePlan bs = .ok (p, rest) ↔
      PlanFits p ∧ p.version = formatVersion ∧ ∃ flags : UInt8,
        p.hardwareCompatible = decide (flags.toNat % 2 = 1) ∧ bs = fields flags p ++ rest := by
  unfold takePlan
  rw [(takeWord_reads 2).bind]
  -- Both directions take the fields in the order in which they stand.
  constructor
  · -- The version is compared before anything else is read.
    rintro ⟨version, r, hversion, rfl, h⟩
    have hword : (UInt16.ofNat version).toNat = version := UInt16.toNat_ofNat_of_lt' hversion
    dsimp only at h
    split at h
    · exact absurd h (by simp [bind, Except.bind])
    next heq =>
    replace h := (takeWord_reads 1).bind.mp h
    obtain ⟨flags, r, hflags, rfl, h⟩ := h
    replace h := takeString_reads.bind.mp h
    obtain ⟨platform, r, hplatform, rfl, h⟩ := h
    replace h := takeString_reads.bind.mp h
    obtain ⟨signature, r, hsignature, rfl, h⟩ := h
    replace h := (takeWord_reads 2).bind.mp h
    obtain ⟨n, r, hn, rfl, h⟩ := h
    replace h := (takeMany_reads takeInput_reads n).bind.mp h
    obtain ⟨inputs, r, ⟨rfl, hinputs⟩, rfl, h⟩ := h
    replace h := (takeWord_reads 2).bind.mp h
    obtain ⟨n, r, hm, rfl, h⟩ := h
    replace h := (takeMany_reads takeLayer_reads n).bind.mp h
    obtain ⟨layers, r, ⟨rfl, hlayers⟩, rfl, h⟩ := h
    replace h := (takeWord_reads 2).bind.mp h
    obtain ⟨n, r, hk, rfl, h⟩ := h
    replace h := (takeMany_reads takeString_reads n).bind.mp h
    obtain ⟨outputs, r, ⟨rfl, houtputs⟩, rfl, h⟩ := h
    obtain ⟨rfl, rfl⟩ := Prod.mk.inj (Except.ok.inj h)
    have hbits : (UInt8.ofNat flags).toNat = flags := UInt8.toNat_ofNat_of_lt' hflags
    refine ⟨⟨hplatform, hsignature, Nat.le_of_lt_succ hn, hinputs, Nat.le_of_lt_succ hm, hlayers,
      Nat.le_of_lt_succ hk, houtputs⟩, not_not.mp heq, UInt8.ofNat flags, by simp only [hbits], ?_⟩
    simp only [fields, hword, ← littleEndian_one, hbits, List.append_assoc]
  · rintro ⟨⟨hplatform, hsignature, hn, hinputs, hm, hlayers, hk, houtputs⟩, hversion, flags,
      hflags, rfl⟩
    obtain ⟨version, hardwareCompatible, platform, signature, inputs, layers, outputs⟩ := p
    dsimp only at hversion hflags hplatform hsignature hn hinputs hm hlayers hk houtputs
    subst hversion hflags
    simp only [fields, ← littleEndian_one, List.append_assoc]
    refine ⟨1, _, by norm_num, rfl, ?_⟩
    refine (takeWord_reads 1).bind.mpr ⟨flags.toNat, _, flags.toNat_lt, rfl, ?_⟩
    refine takeString_reads.bind.mpr ⟨platform, _, hplatform, rfl, ?_⟩
    refine takeString_reads.bind.mpr ⟨signature, _, hsignature, rfl, ?_⟩
    refine (takeWord_reads 2).bind.mpr ⟨inputs.length, _, Nat.lt_succ_of_le hn, rfl, ?_⟩
    refine (takeMany_reads takeInput_reads _).bind.mpr ⟨inputs, _, ⟨rfl, hinputs⟩, rfl, ?_⟩
    refine (takeWord_reads 2).bind.mpr ⟨layers.length, _, Nat.lt_succ_of_le hm, rfl, ?_⟩
    refine (takeMany_reads takeLayer_reads _).bind.mpr ⟨layers, _, ⟨rfl, hlayers⟩, rfl, ?_⟩
    refine (takeWord_reads 2).bind.mpr ⟨outputs.length, _, Nat.lt_succ_of_le hk, rfl, ?_⟩
    exact (takeMany_reads takeString_reads _).bind.mpr ⟨outputs, rest, ⟨rfl, houtputs⟩, rfl, rfl⟩

/-! ### Octets with their check value -/

/-- The magic has four octets. -/
theorem magic_length : magic.length = 4 := rfl

@[simp] theorem sealed_length (b : Bytes) : (sealed b).length = b.length + 4 := by
  simp [sealed]

/-- Without its check value it is what was sealed. -/
theorem sealed_take (b : Bytes) : (sealed b).take ((sealed b).length - 4) = b := by
  rw [sealed_length, Nat.add_sub_cancel, sealed, List.take_left]

/-- Octets end in the check value of what stands before it exactly if they are that, sealed. -/
theorem eq_sealed_iff {data : Bytes} (hlen : 4 ≤ data.length) (b : Bytes) :
    data = sealed b ↔
      data.take (data.length - 4) = b ∧
        Crc32.checksum b = UInt32.ofNat (ofLittleEndian (data.drop (data.length - 4))) := by
  constructor
  · rintro rfl
    refine ⟨sealed_take b, ?_⟩
    rw [sealed_length, Nat.add_sub_cancel, sealed, List.drop_left,
      ofLittleEndian_littleEndian (UInt32.toNat_lt _), UInt32.ofNat_toNat]
  · rintro ⟨hb, hcrc⟩
    -- The last four octets are a word of this width, so nothing of them is lost.
    have htail : (data.drop (data.length - 4)).length = 4 := by
      rw [List.length_drop]
      omega
    have hlt := ofLittleEndian_lt (data.drop (data.length - 4))
    rw [htail] at hlt
    have hoctets := littleEndian_ofLittleEndian (data.drop (data.length - 4))
    rw [htail] at hoctets
    rw [sealed, hcrc, UInt32.toNat_ofNat_of_lt' hlt, hoctets, ← hb, List.take_append_drop]

/-- **What a plan is read from**: its fields behind the magic, with any octet of flags of the right
lowest bit, sealed. -/
theorem decode_eq_ok_iff (data : Bytes) (p : CompiledPlan) :
    decode data = .ok p ↔
      PlanFits p ∧ p.version = formatVersion ∧ p.network.validate = .ok () ∧ ∃ flags : UInt8,
        p.hardwareCompatible = decide (flags.toNat % 2 = 1) ∧
          data = sealed (magic ++ fields flags p) := by
  unfold decode
  constructor
  · intro h
    split at h
    · cases h
    next hmagic =>
    rw [not_or, not_not, Nat.not_lt] at hmagic
    obtain ⟨hlen, hmagic⟩ := hmagic
    dsimp only at h
    split at h
    · cases h
    next hcrc =>
    obtain ⟨⟨q, r⟩, hplan, h⟩ := bind_eq_ok_iff.mp h
    dsimp only at h
    split at h
    · exact absurd h (by simp [bind, Except.bind])
    next hr =>
    have hr : r = [] := by simpa using hr
    split at h
    · cases h
    next hvalid =>
    cases h
    obtain ⟨hfits, hversion, flags, hflags, hfields⟩ := (takePlan_eq_ok_iff _ _ _).mp hplan
    refine ⟨hfits, hversion, hvalid, flags, hflags, ?_⟩
    rw [magic_length] at hlen hmagic hfields
    -- All octets before the check value are accounted for: magic, fields, nothing behind.
    have hbody : data.take (data.length - 4) = magic ++ fields flags p := by
      have hfront : (data.take (data.length - 4)).take 4 = magic := by
        rw [List.take_take, Nat.min_eq_left (by omega), hmagic]
      rw [← List.take_append_drop 4 (data.take (data.length - 4)), hfront, hfields, hr,
        List.append_nil]
    rw [eq_sealed_iff (by omega)]
    exact ⟨hbody, hbody ▸ not_not.mp hcrc⟩
  · rintro ⟨hfits, hversion, hvalid, flags, hflags, rfl⟩
    have hlen : 4 ≤ (sealed (magic ++ fields flags p)).length := by
      rw [sealed_length]
      omega
    -- What is sealed has the right check value, so each test in turn passes.
    have hseal := (eq_sealed_iff hlen (magic ++ fields flags p)).mp rfl
    rw [if_neg]
    · dsimp only
      rw [sealed_take, if_neg (not_not.mpr hseal.2), List.drop_left]
      have hplan := (takePlan_eq_ok_iff (fields flags p) p []).mpr
        ⟨hfits, hversion, flags, hflags, (List.append_nil _).symm⟩
      refine bind_eq_ok_iff.mpr ⟨(p, []), hplan, ?_⟩
      dsimp only
      rw [if_neg (by simp), hvalid]
      rfl
    · rw [not_or, not_not, Nat.not_lt, sealed_length, List.length_append, sealed, List.append_assoc,
        List.take_left]
      exact ⟨by omega, rfl⟩

/-! ### The two directions -/

/-- A plan is written exactly if its strings fit. -/
theorem encode_eq_ok_iff (p : CompiledPlan) (data : Bytes) :
    encode p = .ok data ↔ (∀ s ∈ strings p, s.length ≤ maxString) ∧ data = sealed (body p) := by
  -- The writer looks for a string that is too long.
  have hfind : (strings p).find? (maxString < ·.length) = none ↔
      ∀ s ∈ strings p, s.length ≤ maxString := by
    simp [List.find?_eq_none]
  unfold encode
  split
  next s hs =>
    constructor
    · intro h
      cases h
    · rintro ⟨hfits, -⟩
      exact absurd (hfind.mpr hfits) (by rw [hs]; simp)
  next hnone =>
    rw [Except.ok.injEq, eq_comm]
    exact ⟨fun h => ⟨hfind.mp hnone, h⟩, And.right⟩

/-- The strings of a plan that has a form fit. -/
theorem PlanFits.strings_le {p : CompiledPlan} (h : PlanFits p) :
    ∀ s ∈ strings p, s.length ≤ maxString := by
  intro s hs
  simp only [strings, List.mem_append, List.mem_cons, List.not_mem_nil, or_false, List.mem_map,
    List.mem_flatMap] at hs
  rcases hs with (((rfl | rfl) | ⟨i, hi, rfl⟩) | ⟨l, hl, (rfl | hs) | rfl⟩) | hs
  · exact h.platform
  · exact h.signature
  · exact (h.inputs i hi).name
  · exact (h.layers l hl).label
  · exact (h.layers l hl).operands s hs
  · exact (h.layers l hl).output
  · exact h.outputs s hs

/-- A sound network within the widths of the format makes a plan that has a form. The two ends of an
input have one rank, and no operation takes more than two operands, because the network is sound. -/
theorem planFits_of_validate {p : CompiledPlan} (hvalid : p.network.validate = .ok ())
    (hwidths : p.network.FitsWidths) (hstrings : ∀ s ∈ strings p, s.length ≤ maxString) :
    PlanFits p := by
  obtain ⟨ranks, hsound⟩ := Network.sound_of_validate hvalid
  simp only [strings, List.mem_append, List.mem_cons, List.not_mem_nil, or_false, List.mem_map,
    List.mem_flatMap] at hstrings
  refine ⟨hstrings _ (.inl (.inl (.inl (.inl rfl)))), hstrings _ (.inl (.inl (.inl (.inr rfl)))),
    hwidths.inputs, fun i hi => ?_, hwidths.layers, fun l hl => ?_, hwidths.outputs,
    fun o ho => hstrings o (.inr ho)⟩
  · exact ⟨hstrings _ (.inl (.inl (.inr ⟨i, hi, rfl⟩))), hwidths.ranks i hi,
      (hsound.inputs i hi).rank_eq.symm⟩
  · have hmem : ∀ s, (s = l.label ∨ s ∈ l.operands) ∨ s = l.output → s.length ≤ maxString :=
      fun s hs => hstrings s (.inl (.inr ⟨l, hl, hs⟩))
    obtain ⟨earlier, r, hrank⟩ := hsound.layers.rank_of_mem hl
    obtain ⟨op, -, harity⟩ := hrank.arity
    -- There are as many operands as the operation takes, which fits an octet.
    have hop : op.arity ≤ 2 := by cases op <;> decide
    exact ⟨hmem _ (.inl (.inl rfl)), by omega, fun a ha => hmem a (.inl (.inr ha)),
      hmem _ (.inr rfl), hwidths.axes l hl⟩

/-- The octet of flags stands behind the magic and the version. -/
theorem modify_flags (f : UInt8 → UInt8) (flags : UInt8) (p : CompiledPlan) :
    (magic ++ fields flags p).modify 6 f = magic ++ fields (f flags) p := by
  rfl

/-- The octet of flags is the seventh. -/
theorem getElem?_flags (flags : UInt8) (p : CompiledPlan) :
    (sealed (magic ++ fields flags p))[6]? = some flags := by
  rfl

/-- Clearing the bits nobody reads leaves the octet of flags the writer writes. -/
theorem clear_flags {flags : UInt8} {p : CompiledPlan}
    (h : p.hardwareCompatible = decide (flags.toNat % 2 = 1)) : flags &&& 1 = flagsOf p := by
  apply UInt8.toNat_inj.mp
  rw [UInt8.toNat_and, flagsOf, h]
  split <;> simp_all

/-- The octet of flags that is written says what the plan says. -/
theorem flagsOf_lowest_bit (p : CompiledPlan) :
    p.hardwareCompatible = decide ((flagsOf p).toNat % 2 = 1) := by
  unfold flagsOf
  cases p.hardwareCompatible <;> rfl

/-- A plan within the widths is read back from what it is written as. -/
theorem decode_of_encode {p : CompiledPlan} (hversion : p.version = formatVersion)
    (hvalid : p.network.validate = .ok ()) (hwidths : p.network.FitsWidths) {data : Bytes}
    (h : encode p = .ok data) : decode data = .ok p := by
  obtain ⟨hstrings, rfl⟩ := (encode_eq_ok_iff p data).mp h
  rw [body_eq]
  exact (decode_eq_ok_iff _ p).mpr ⟨planFits_of_validate hvalid hwidths hstrings, hversion, hvalid,
    flagsOf p, flagsOf_lowest_bit p, rfl⟩

/-- **The format is exact in both directions.** A plan of the current version with a sound network
within the widths is written, and read back as itself. Octets that are read as a plan are what the
plan is written as, once the seven flag bits that mean nothing are cleared and the check value is
taken again; so two readings of one plan differ in those bits at most. -/
theorem decode_exact :
    (∀ p : CompiledPlan, p.version = formatVersion → p.network.validate = .ok () →
      p.network.FitsWidths → (∀ s ∈ strings p, s.length ≤ maxString) →
      ∃ data, encode p = .ok data ∧ decode data = .ok p) ∧
    (∀ (data : Bytes) (p : CompiledPlan), decode data = .ok p →
      encode p = .ok (sealed ((data.take (data.length - 4)).modify 6 (· &&& 1))) ∧
      ∀ data', decode data' = .ok p → data'[6]? = data[6]? → data' = data) := by
  constructor
  · intro p hversion hvalid hwidths hstrings
    have hencode : encode p = .ok (sealed (body p)) := (encode_eq_ok_iff p _).mpr ⟨hstrings, rfl⟩
    exact ⟨_, hencode, decode_of_encode hversion hvalid hwidths hencode⟩
  · intro data p h
    obtain ⟨hfits, -, -, flags, hflags, rfl⟩ := (decode_eq_ok_iff data p).mp h
    constructor
    · rw [sealed_take, modify_flags, clear_flags hflags, ← body_eq]
      exact (encode_eq_ok_iff p _).mpr ⟨hfits.strings_le, rfl⟩
    · intro data' h' hsame
      -- Both are the fields of one plan behind the magic, so only the flags can differ.
      obtain ⟨-, -, -, flags', -, rfl⟩ := (decode_eq_ok_iff data' p).mp h'
      rw [getElem?_flags, getElem?_flags, Option.some.injEq] at hsame
      rw [hsame]

/-- A plan of one layer that halves a vector. -/
def halving : CompiledPlan where
  version := 1
  hardwareCompatible := true
  platform := [99]
  signature := []
  network :=
    { inputs := [{ name := [120], min := [0], max := [-1] }]
      layers := [{ label := Bytes.ofText "scale", operands := [[120]], output := [121], axis := -1,
                   scalar := ⟨0x3F000000⟩ }]
      outputs := [[121]] }

/-- The plan is written and read back; and it is also read from its form with all flags set, which
is not its form. -/
theorem halving_exact :
    (∃ data, encode halving = .ok data ∧ decode data = .ok halving) ∧
    decode (sealed (magic ++ fields 0xFF halving)) = .ok halving ∧
    encode halving = .ok (sealed ((magic ++ fields 0xFF halving).modify 6 (· &&& 1))) ∧
    encode halving ≠ .ok (sealed (magic ++ fields 0xFF halving)) := by
  have hvalid : halving.network.validate = .ok () := by decide
  have hwidths : halving.network.FitsWidths :=
    ⟨by decide, by decide, by decide, by decide, by decide⟩
  have hstrings : ∀ s ∈ strings halving, s.length ≤ maxString := by decide
  have hdecode : decode (sealed (magic ++ fields 0xFF halving)) = .ok halving :=
    (decode_eq_ok_iff _ _).mpr ⟨planFits_of_validate hvalid hwidths hstrings, rfl, hvalid, 0xFF,
      rfl, rfl⟩
  -- The second half at octets whose flags are not what the writer writes.
  have hencode := (decode_exact.2 _ halving hdecode).1
  rw [sealed_take] at hencode
  refine ⟨decode_exact.1 halving rfl hvalid hwidths hstrings, hdecode, hencode, ?_⟩
  rw [hencode]
  intro h
  have hflags := congrArg (·[6]?) (Except.ok.inj h)
  exact absurd hflags (by decide)

end Wire

end EngineHost

import EngineHost.Proofs.WireExact

/-!
# A corrupted octet is always noticed

A plan in which one octet has changed is never read, wherever the octet stands
(`Wire.decode_corrupted`): the magic is compared as such, and everything behind it is guarded by
the check value.

The check value is a fold of `Crc32.step`, and a step loses nothing. One shift can be undone,
because the bit that fell out is the highest bit of the result: the polynomial has that bit and a
halved remainder has not (`Crc32.shift_injective`). So a step is injective in the remainder
(`Crc32.step_injective`) and in the octet (`Crc32.step_injective_right`). Two strings that differ in
one octet lead to one remainder up to it, to two behind it, and to two at the end.
-/

namespace EngineHost

/-! ### The remainder -/

namespace Crc32

/-- The bit that falls out is the parity of the remainder. -/
theorem low_bit_iff (r : UInt32) : r &&& 1 = 1 ↔ r.toNat % 2 = 1 := by
  rw [← UInt32.toNat_inj, UInt32.toNat_and]
  exact (congrArg (· = 1) (Nat.and_one_is_mod r.toNat)).to_iff

/-- Shifting by one halves. -/
theorem toNat_halved (r : UInt32) : (r >>> 1).toNat = r.toNat / 2 := by
  rw [UInt32.toNat_shiftRight]
  exact Nat.shiftRight_eq_div_pow r.toNat 1

/-- A halved remainder has no highest bit, so it is none to which the polynomial was added. -/
theorem halved_xor_polynomial_ne (a b : UInt32) : (a >>> 1) ^^^ polynomial ≠ b >>> 1 := by
  intro heq
  have hbits := congrArg (fun r : UInt32 => r.toNat.testBit 31) heq
  have hhigh (r : UInt32) : (r >>> 1).toNat.testBit 31 = false := by
    have hlt : r.toNat < 2 ^ 32 := r.toNat_lt
    exact Nat.testBit_lt_two_pow (by rw [toNat_halved]; omega)
  simp only [UInt32.toNat_xor, Nat.testBit_xor, hhigh] at hbits
  exact absurd hbits (by decide)

/-- **One shift can be undone.** -/
theorem shift_injective : Function.Injective shift := by
  intro a b hshift
  -- Equal halves and equal parities are equal numbers.
  have hhalves (hhalf : a >>> 1 = b >>> 1) (hparity : a.toNat % 2 = b.toNat % 2) : a = b := by
    have hnat := congrArg UInt32.toNat hhalf
    rw [toNat_halved, toNat_halved] at hnat
    apply UInt32.toNat_inj.mp
    omega
  unfold shift at hshift
  -- Two that both lost a bit, two of which one did, and two of which none did.
  by_cases ha : a &&& 1 = 1 <;> by_cases hb : b &&& 1 = 1
  · rw [if_pos ha, if_pos hb] at hshift
    rw [low_bit_iff] at ha hb
    exact hhalves ((UInt32.xor_left_inj polynomial).mp hshift) (ha.trans hb.symm)
  · rw [if_pos ha, if_neg hb] at hshift
    exact absurd hshift (halved_xor_polynomial_ne a b)
  · rw [if_neg ha, if_pos hb] at hshift
    exact absurd hshift.symm (halved_xor_polynomial_ne b a)
  · rw [if_neg ha, if_neg hb] at hshift
    rw [low_bit_iff] at ha hb
    exact hhalves hshift (by omega)

/-- Any number of shifts can be undone. -/
theorem shifts_injective (n : Nat) : Function.Injective (shifts n) := by
  induction n with
  | zero => exact fun a b h => h
  | succ n ih => exact ih.comp shift_injective

/-- Different remainders stay different over an octet. -/
theorem step_injective (b : UInt8) : Function.Injective (step · b) := by
  intro r s hstep
  exact (UInt32.xor_left_inj b.toUInt32).mp (shifts_injective 8 hstep)

/-- Different octets lead to different remainders. -/
theorem step_injective_right (r : UInt32) : Function.Injective (step r) := by
  intro a b hstep
  have hwords := (UInt32.xor_right_inj r).mp (shifts_injective 8 hstep)
  have hnat := congrArg UInt32.toNat hwords
  rw [UInt8.toNat_toUInt32, UInt8.toNat_toUInt32] at hnat
  exact UInt8.toNat_inj.mp hnat

/-- Different remainders stay different over octets. -/
theorem foldl_step_injective (bs : Bytes) : Function.Injective (bs.foldl step) := by
  induction bs with
  | nil => exact fun r s h => h
  | cons b more ih => exact ih.comp (step_injective b)

/-- **The check value notices one changed octet**, in strings of any length. -/
theorem checksum_set_ne {bs : Bytes} {i : Nat} (hi : i < bs.length) {b : UInt8} (hb : b ≠ bs[i]) :
    checksum (bs.set i b) ≠ checksum bs := by
  intro hsame
  have hends : (bs.set i b).foldl step 0xFFFFFFFF = bs.foldl step 0xFFFFFFFF :=
    UInt32.not_inj.mp hsame
  -- Both strings, cut at the octet.
  have hleft : bs.set i b = bs.take i ++ b :: bs.drop (i + 1) := by
    rw [List.set_eq_take_append_cons_drop, if_pos hi]
  have hright : bs = bs.take i ++ bs[i] :: bs.drop (i + 1) := by
    rw [List.getElem_cons_drop, List.take_append_drop]
  rw [hleft] at hends
  nth_rewrite 3 [hright] at hends
  rw [List.foldl_append, List.foldl_append, List.foldl_cons, List.foldl_cons] at hends
  -- Up to the octet the remainders agree, so behind it they would agree, too.
  exact hb (step_injective_right _ (foldl_step_injective _ hends))

end Crc32

/-! ### Plans -/

namespace Wire

open Bytes

/-- A payload that is read starts with the magic and ends in its check value. -/
theorem sealed_of_decode {data : Bytes} {p : CompiledPlan} (hread : decode data = .ok p) :
    ∃ tail, data = sealed (magic ++ tail) := by
  obtain ⟨-, -, -, flags, -, hdata⟩ := (decode_eq_ok_iff data p).mp hread
  exact ⟨fields flags p, hdata⟩

/-- What does not start with the magic is no plan. -/
theorem decode_of_bad_magic {data : Bytes} (hmagic : data.take magic.length ≠ magic) :
    decode data = .error .badMagic := by
  unfold decode
  exact if_pos (.inr hmagic)

/-- What is not sealed is refused for its check value. -/
theorem decode_of_not_sealed {data : Bytes} (hlen : magic.length + 4 ≤ data.length)
    (hmagic : data.take magic.length = magic)
    (hsealed : data ≠ sealed (data.take (data.length - 4))) :
    ∃ got want, got ≠ want ∧ decode data = .error (.checksum got want) := by
  have hcrc : Crc32.checksum (data.take (data.length - 4)) ≠
      UInt32.ofNat (ofLittleEndian (data.drop (data.length - 4))) := by
    intro heq
    exact hsealed ((eq_sealed_iff (by omega) _).mpr ⟨rfl, heq⟩)
  refine ⟨_, _, hcrc, ?_⟩
  unfold decode
  -- The first check passes, so that the second decides.
  have hstarts : ¬(data.length < magic.length + 4 ∨ data.take magic.length ≠ magic) := by
    rintro (hshort | hother)
    · omega
    · exact hother hmagic
  rw [if_neg hstarts]
  exact if_pos hcrc

/-- **Two sealed strings never differ in one octet alone**, be it in the body or in the check
value. -/
theorem set_sealed_ne {body other : Bytes} {i : Nat} (hi : i < (sealed body).length) {b : UInt8}
    (hb : b ≠ (sealed body)[i]) : (sealed body).set i b ≠ sealed other := by
  intro heq
  by_cases hbody : i < body.length
  · -- The other body has the changed octet, and the same check value.
    have hset : (sealed body).set i b =
        body.set i b ++ littleEndian 4 (Crc32.checksum body).toNat := by
      rw [sealed, List.set_append_left _ _ hbody]
    rw [hset, sealed] at heq
    obtain ⟨rfl, hvalue⟩ := List.append_inj' heq (by simp)
    have hword := congrArg ofLittleEndian hvalue
    rw [ofLittleEndian_littleEndian (UInt32.toNat_lt _),
      ofLittleEndian_littleEndian (UInt32.toNat_lt _)] at hword
    have hoctet : (sealed body)[i] = body[i] := List.getElem_append_left hbody
    rw [hoctet] at hb
    exact Crc32.checksum_set_ne hbody hb (UInt32.toNat_inj.mp hword).symm
  · -- The bodies are the same, hence so are the check values.
    have hset : (sealed body).set i b =
        body ++ (littleEndian 4 (Crc32.checksum body).toNat).set (i - body.length) b := by
      rw [sealed, List.set_append_right _ _ (by omega)]
    rw [hset, sealed] at heq
    obtain ⟨rfl, -⟩ := List.append_inj' heq (by simp)
    rw [← sealed, ← hset] at heq
    have hoctet : (sealed body)[i]? = some b := by
      rw [← heq, List.getElem?_set_self hi]
    rw [List.getElem?_eq_getElem hi, Option.some.injEq] at hoctet
    exact hb hoctet.symm

/-- **A corrupted plan is never read.** If one octet of a payload that is read is replaced by
another one, the payload is refused: for its magic if the octet stands there, and for its check
value if it stands anywhere behind, in the fields or in the check value itself. -/
theorem decode_corrupted {data : Bytes} {p : CompiledPlan} (hread : decode data = .ok p) {i : Nat}
    (hi : i < data.length) {b : UInt8} (hb : b ≠ data[i]) :
    (i < magic.length ∧ decode (data.set i b) = .error .badMagic) ∨
      (magic.length ≤ i ∧
        ∃ got want, got ≠ want ∧ decode (data.set i b) = .error (.checksum got want)) := by
  obtain ⟨tail, rfl⟩ := sealed_of_decode hread
  have hstart : (sealed (magic ++ tail)).take magic.length = magic := by
    rw [sealed, List.append_assoc, List.take_left]
  by_cases hmagic : i < magic.length
  · refine .inl ⟨hmagic, decode_of_bad_magic ?_⟩
    rw [List.take_set, hstart]
    intro heq
    -- The magic would have to have the new octet.
    have hsame : b = magic[i] := by
      rw [← List.getElem_set_self (i := i) (l := magic) (a := b) (by simpa using hmagic)]
      exact List.getElem_of_eq heq _
    exact hb (hsame.trans (by simp [sealed, List.getElem_append_left, hmagic]))
  · refine .inr ⟨by omega, decode_of_not_sealed ?_ ?_ (set_sealed_ne hi hb)⟩
    · simp only [List.length_set, sealed_length, List.length_append]
      omega
    · rw [List.take_set_of_le (by omega), hstart]

/-- The form of a plan is read, but not with other flags: nothing reads seven of their bits, and
they are guarded all the same. -/
theorem decode_corrupted_halving :
    decode (sealed (body halving)) = .ok halving ∧ ∃ got want, got ≠ want ∧
      decode ((sealed (body halving)).set 6 0xFF) = .error (.checksum got want) := by
  have hencode : encode halving = .ok (sealed (body halving)) := by
    refine (encode_eq_ok_iff halving _).mpr ⟨?_, rfl⟩
    decide
  have hread : decode (sealed (body halving)) = .ok halving :=
    decode_of_encode rfl (by decide) ⟨by decide, by decide, by decide, by decide, by decide⟩ hencode
  have hi : 6 < (sealed (body halving)).length := by
    rw [sealed_length]
    decide
  have hflags : (sealed (body halving))[6] = 1 := by
    rw [← Option.some.injEq, ← List.getElem?_eq_getElem hi, body_eq, getElem?_flags]
    rfl
  have hb : (0xFF : UInt8) ≠ (sealed (body halving))[6] := by
    rw [hflags]
    decide
  obtain ⟨hmagic, -⟩ | ⟨-, hrefused⟩ := decode_corrupted hread hi hb
  · exact absurd hmagic (by decide)
  · exact ⟨hread, hrefused⟩

end Wire

end EngineHost

import EngineHost.Proofs.ArchiveBounds
import EngineHost.Proofs.TextForms
import Mathlib.Data.String.Basic

/-!
# Names in order

Tables are written in the order of their names, which compares texts character by character, and a
reader of the octets sees the order of the octets. Both are one order: UTF-8 gives longer forms
higher leads and puts the high bits first (`Bytes.ofText_lt_ofText`).

A table without repeated names has one order (`InOrder.eq_of_perm`), so sorting again, or sorting
and then taking a part, changes nothing; and it is read back from an object with its members
(`Json.Reader.table_written`).
-/

namespace EngineHost

/-! ### The order of texts -/

namespace Bytes

/-- The first octet decides, and then the rest. -/
theorem cons_lt_cons {a b : UInt8} {r s : Bytes} :
    a :: r < b :: s ↔ a.toNat < b.toNat ∨ a.toNat = b.toNat ∧ r < s := by
  rw [List.cons_lt_cons_iff, UInt8.lt_iff_toNat_lt, UInt8.toNat_inj]

/-- Octets of numbers that are in the order of the numbers, whatever follows. -/
def Ordered (v w : Nat) (before before' : Bytes) : Prop :=
  (v < w → ∀ r s, before ++ r < before' ++ s) ∧ (v = w → before = before')

/-- One octet more: where the numbers without their last six bits are equal, the last six bits
decide. -/
theorem Ordered.tail {before before' : Bytes} {v w : Nat}
    (h : Ordered (v / 64) (w / 64) before before') :
    Ordered v w (before ++ [UInt8.ofNat (v % 64 + 128)])
      (before' ++ [UInt8.ofNat (w % 64 + 128)]) := by
  refine ⟨fun hlt r s => ?_, fun heq => by rw [h.2 (by rw [heq]), heq]⟩
  rw [List.append_assoc, List.append_assoc]
  by_cases hfirst : v / 64 < w / 64
  · exact h.1 hfirst _ _
  · rw [h.2 (by omega)]
    refine List.append_left_lt (cons_lt_cons.mpr ?_)
    simp only [UInt8.toNat_ofNat']
    omega

/-- A lead octet: a mark and the bits that have room beside it. -/
theorem ordered_lead {v w room mark : Nat} (hv : v < room) (hw : w < room)
    (hmark : room + mark ≤ 256) :
    Ordered v w [UInt8.ofNat (v % room + mark)] [UInt8.ofNat (w % room + mark)] := by
  refine ⟨fun hlt r s => cons_lt_cons.mpr (.inl ?_), fun heq => by rw [heq]⟩
  rw [Nat.mod_eq_of_lt hv, Nat.mod_eq_of_lt hw, UInt8.toNat_ofNat', UInt8.toNat_ofNat']
  omega

/-- A higher lead decides, whatever follows. -/
theorem lead_lt {a b : Nat} {r s r' s' : Bytes} (hlt : a % 256 < b % 256) :
    UInt8.ofNat a :: r ++ s < UInt8.ofNat b :: r' ++ s' :=
  cons_lt_cons.mpr (.inl (by simpa only [UInt8.toNat_ofNat'] using hlt))

/-- The octets of two characters are in the order of the characters, whatever follows them. -/
theorem utf8_append_lt {c d : Char} (hlt : c < d) (r s : Bytes) :
    String.utf8EncodeChar c ++ r < String.utf8EncodeChar d ++ s := by
  have hval : c.val.toNat < d.val.toNat := hlt
  have hvalid := d.valid
  simp only [UInt32.isValidChar, Nat.isValidChar] at hvalid
  unfold String.utf8EncodeChar
  -- From here on only the two numbers matter.
  generalize c.val.toNat = v at hval
  generalize d.val.toNat = w at hval hvalid
  have hdiv (n : Nat) : n / 4096 = n / 64 / 64 ∧ n / 262144 = n / 64 / 64 / 64 := by omega
  dsimp only
  -- Longer forms have higher leads; of two forms of one length, the leads or the tails decide.
  split
  next hone =>
    split_ifs <;> exact lead_lt (by omega)
  next hone =>
  rw [if_neg (show ¬w ≤ 127 by omega)]
  split
  next htwo =>
    split
    next htwo' => exact (ordered_lead (by omega) (by omega) (by decide)).tail.1 hval r s
    next htwo' => split_ifs <;> exact lead_lt (by omega)
  next htwo =>
  rw [if_neg (show ¬w ≤ 2047 by omega), (hdiv v).1, (hdiv v).2, (hdiv w).1, (hdiv w).2]
  split
  next hthree =>
    split
    next hthree' => exact (ordered_lead (by omega) (by omega) (by decide)).tail.tail.1 hval r s
    next hthree' => exact lead_lt (by omega)
  next hthree =>
  rw [if_neg (show ¬w ≤ 65535 by omega)]
  exact (ordered_lead (by omega) (by omega) (by decide)).tail.tail.tail.1 hval r s

/-- Texts that are in order have octets in order. -/
theorem flatMap_utf8_lt {cs ds : List Char} (hlt : cs < ds) :
    cs.flatMap String.utf8EncodeChar < ds.flatMap String.utf8EncodeChar := by
  induction cs generalizing ds with
  | nil =>
    cases ds with
    | nil => exact absurd hlt (List.lt_irrefl _)
    | cons d ds =>
      -- Every character has at least one octet, so the text that goes on comes later.
      obtain ⟨a, tail, henc, -⟩ := charAt?_utf8 d []
      rw [List.flatMap_cons, henc]
      exact List.nil_lt_cons _ _
  | cons c cs ih =>
    cases ds with
    | nil => exact absurd hlt (List.not_lt_nil _)
    | cons d ds =>
      rw [List.flatMap_cons, List.flatMap_cons]
      rcases List.cons_lt_cons_iff.mp hlt with hfirst | ⟨rfl, hmore⟩
      · exact utf8_append_lt hfirst _ _
      · exact List.append_left_lt (ih hmore)

/-- **Texts are in the order of their octets.** -/
theorem ofText_lt_ofText {s t : String} (hlt : s < t) : ofText s < ofText t :=
  flatMap_utf8_lt (String.lt_iff_toList_lt.mp hlt)

end Bytes

/-! ### Sorting by names -/

section Sorting

variable {α : Type} {xs ys : List (String × α)}

/-- A table in the order of its names, each of which stands once. -/
def InOrder (xs : List (String × α)) : Prop :=
  xs.Pairwise fun x y => x.1 < y.1

theorem InOrder.nodup (h : InOrder xs) : (xs.map (·.1)).Nodup := by
  refine List.pairwise_map.mpr (h.imp ?_)
  intro x y hlt
  exact String.ne_of_lt hlt

/-- Two orders of one table are the same order. -/
theorem InOrder.eq_of_perm (hx : InOrder xs) (hy : InOrder ys) (hperm : xs.Perm ys) : xs = ys := by
  refine hperm.eq_of_pairwise (fun x y _ _ hxy hyx => ?_) hx hy
  exact absurd (String.lt_trans hxy hyx) (String.lt_irrefl _)

/-- Sorting puts a table without repeated names in order. -/
theorem inOrder_mergeSort (hnodup : (xs.map (·.1)).Nodup) :
    InOrder (xs.mergeSort fun x y => decide (x.1 ≤ y.1)) := by
  -- Sorting gives `≤`, and distinct names make it `<`.
  have hsorted : (xs.mergeSort fun x y => decide (x.1 ≤ y.1)).Pairwise fun x y => x.1 ≤ y.1 := by
    refine (List.pairwise_mergeSort ?_ ?_ xs).imp of_decide_eq_true
    · intro x y z hxy hyz
      exact decide_eq_true (String.le_trans (of_decide_eq_true hxy) (of_decide_eq_true hyz))
    · intro x y
      simpa using String.le_total x.1 y.1
  have hdistinct : (xs.mergeSort fun x y => decide (x.1 ≤ y.1)).Pairwise fun x y => x.1 ≠ y.1 := by
    refine List.pairwise_map.mp (?_ : (List.map _ _).Nodup)
    exact ((List.mergeSort_perm xs _).map (·.1)).nodup_iff.mpr hnodup
  refine (hsorted.and hdistinct).imp ?_
  rintro x y ⟨hle, hne⟩
  exact lt_of_le_of_ne hle hne

theorem InOrder.mergeSort_eq (h : InOrder xs) : (xs.mergeSort fun x y => decide (x.1 ≤ y.1)) = xs :=
  (inOrder_mergeSort h.nodup).eq_of_perm h (List.mergeSort_perm _ _)

theorem InOrder.filter (h : InOrder xs) (p : String × α → Bool) : InOrder (xs.filter p) :=
  List.Pairwise.filter p h

/-- Values may be changed before sorting or after it. -/
theorem mergeSort_map_values {β : Type} (f : α → β) (xs : List (String × α)) :
    ((xs.map fun x => (x.1, f x.2)).mergeSort fun x y => decide (x.1 ≤ y.1)) =
      (xs.mergeSort fun x y => decide (x.1 ≤ y.1)).map fun x => (x.1, f x.2) := by
  symm
  exact List.map_mergeSort fun _ _ _ _ => rfl

end Sorting

namespace Json.Reader

variable {α : Type} {item : Reader α}

/-- The members of a table are read back one after the other. -/
theorem putMembers_written {write : α → Json} {table xs : List (String × α)}
    (hread : ∀ x ∈ xs, item [write x.2] = some x.2) (hnodup : ((table ++ xs).map (·.1)).Nodup) :
    (xs.map fun x => (x.1, write x.2)).foldlM (putMember item) table = some (table ++ xs) := by
  induction xs generalizing table with
  | nil => rw [List.append_nil]; rfl
  | cons x more ih =>
    have hsplit : table ++ x :: more = (table ++ [x]) ++ more := by simp
    -- The name is new, so nothing that was read before it is replaced.
    have hfresh : table.filter (·.1 ≠ x.1) = table := by
      refine List.filter_eq_self.mpr fun y hy => decide_eq_true fun heq => ?_
      rw [List.map_append, List.nodup_append] at hnodup
      exact hnodup.2.2 y.1 (List.mem_map_of_mem hy) x.1 (by simp) heq
    have hput : putMember item table (x.1, write x.2) = some (table ++ [x]) := by
      rw [putMember, hread x List.mem_cons_self, Option.map_some, hfresh]
    rw [List.map_cons, List.foldlM_cons, hput, hsplit]
    rw [hsplit] at hnodup
    exact ih (fun y hy => hread y (List.mem_cons_of_mem _ hy)) hnodup

/-- **A written table is read back**, if no name stands twice in it. -/
theorem table_written {write : α → Json} {xs : List (String × α)}
    (hread : ∀ x ∈ xs, item [write x.2] = some x.2) (hnodup : (xs.map (·.1)).Nodup) :
    table item [.object (xs.map fun x => (x.1, write x.2))] = some xs := by
  rw [table_object]
  exact putMembers_written hread hnodup

end Json.Reader

end EngineHost

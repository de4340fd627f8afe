import EngineHost.Proofs.ProbeTransparency
import Mathlib.Data.List.DropRight

/-!
# What a tracer retains

A tracer keeps the results of its probes in two places: a table from keys to results, and the keys
in the order in which they came. They are changed one after the other, and the table is cut down key
by key when there is no room. This file says that the two never disagree, and which keys they hold.

Against the cache stands the **log** of the keys that were ever added, in order and with
repetitions, since a key that was forgotten can be added again. `ProbeCache.Keeps limit log` says
that the cache holds what the log ends with: its last `limit` keys, each once, with one result a
key. Storing a result extends the log by its key, unless a result is kept under that key, and keeps
the invariant (`ProbeCache.Keeps.store`).

A call adds a key exactly if it succeeds although its handle says nothing of its outputs and no
result is kept for it (`Tracer.added`). What a call can do to the tracer is said once, in
`Tracer.trace_outcome`. The invariant then goes through any sequence of calls, for any prober
(`Tracer.retains_latest`).
-/

namespace EngineHost

namespace ProbeCache

variable {c : ProbeCache} {limit : Nat} {log : List String} {key : String}

/-- **The cache holds what the log ends with**: its last keys up to the limit, each once, and a
result for each of them. -/
structure Keeps (limit : Nat) (log : List String) (c : ProbeCache) : Prop where
  keys : c.entries.map (·.1) = c.order
  nodup : c.order.Nodup
  latest : c.order = log.rtake limit

/-- At the start nothing was added and nothing is kept. -/
theorem keeps_empty (limit : Nat) : Keeps limit [] {} where
  keys := rfl
  nodup := List.nodup_nil
  latest := (List.rtake_nil limit).symm

/-- What is found is what stands in the order. -/
theorem Keeps.isSome_find?_iff (h : c.Keeps limit log) :
    (c.find? key).isSome = true ↔ key ∈ c.order := by
  rw [find?, List.lookup_isSome_iff, ← h.keys, List.mem_map]
  constructor
  · rintro ⟨kept, hmem, hkey⟩
    exact ⟨kept, hmem, (eq_of_beq hkey).symm⟩
  · rintro ⟨kept, hmem, rfl⟩
    exact ⟨kept, hmem, beq_self_eq_true _⟩

/-- The table is as long as the order. -/
theorem Keeps.size_eq (h : c.Keeps limit log) : c.size = c.order.length := by
  rw [size, ← h.keys, List.length_map]

/-- The limit is never exceeded. -/
theorem Keeps.length_le (h : c.Keeps limit log) : c.order.length ≤ limit := by
  rw [h.latest, List.rtake, List.length_drop]
  omega

/-! ### Making room -/

/-- Making room for one more leaves the latest keys. -/
theorem order_makeRoom (limit : Nat) (entries : List (String × List Descriptor))
    (order : List String) : (makeRoom limit entries order).order = order.rtake (limit - 1) := by
  induction order generalizing entries with
  | nil => exact (List.rtake_nil _).symm
  | cons oldest more ih =>
    rw [makeRoom]
    split
    next hfull =>
      -- The oldest goes, and is not among the last of the keys either.
      have hdrop : (oldest :: more).length - (limit - 1) = more.length - (limit - 1) + 1 := by
        rw [List.length_cons]
        omega
      rw [ih, List.rtake, List.rtake, hdrop, List.drop_succ_cons]
    next hroom =>
      -- There is room, so nothing is dropped on either side.
      have hdrop : (oldest :: more).length - (limit - 1) = 0 := by
        rw [List.length_cons]
        omega
      rw [List.rtake, hdrop, List.drop_zero]

/-- Making room takes the same keys from both places. -/
theorem keys_makeRoom {entries : List (String × List Descriptor)} {order : List String}
    (hkeys : entries.map (·.1) = order) (hnodup : order.Nodup) :
    (makeRoom limit entries order).entries.map (·.1) = (makeRoom limit entries order).order := by
  induction order generalizing entries with
  | nil => exact hkeys
  | cons oldest more ih =>
    rw [makeRoom]
    split
    next =>
      obtain ⟨hnot, hmore⟩ := List.nodup_cons.mp hnodup
      refine ih ?_ hmore
      -- The table loses every entry of the oldest key, which is one, as no other key is the oldest.
      calc (entries.filter (·.1 ≠ oldest)).map (·.1)
          = (entries.map (·.1)).filter (· ≠ oldest) := by
            rw [List.filter_map]
            rfl
        _ = more.filter (· ≠ oldest) := by
            rw [hkeys, List.filter_cons_of_neg (by simp)]
        _ = more := by
            refine List.filter_eq_self.mpr fun other hother => decide_eq_true ?_
            rintro rfl
            exact hnot hother
    next => exact hkeys

/-! ### Storing -/

/-- What is kept is not replaced. -/
theorem store_of_kept (hkept : (c.find? key).isSome = true) (limit : Nat)
    (found : List Descriptor) : c.store limit key found = c := by
  rw [store, if_pos hkept]

/-- A new result is added last, once there is room for it. -/
theorem store_of_absent (habsent : c.find? key = none) (limit : Nat) (found : List Descriptor) :
    c.store limit key found =
      ⟨(makeRoom limit c.entries c.order).entries ++ [(key, found)],
        (makeRoom limit c.entries c.order).order ++ [key]⟩ := by
  rw [store, habsent]
  rfl

/-- Of the last keys, all but the oldest, and one more: these are the last keys of the longer
log. -/
theorem rtake_concat (hlimit : 0 < limit) (log : List String) (key : String) :
    (log.rtake limit).rtake (limit - 1) ++ [key] = (log ++ [key]).rtake limit := by
  obtain ⟨room, rfl⟩ := Nat.exists_eq_succ_of_ne_zero (Nat.pos_iff_ne_zero.mp hlimit)
  have hinner : (log.rtake (room + 1)).rtake room = log.rtake room := by
    rw [List.rtake, List.rtake, List.rtake, List.drop_drop, List.length_drop]
    congr 1
    omega
  rw [Nat.succ_sub_one, hinner, List.rtake_concat_succ]

/-- **Storing extends the log**, unless there is a result under the key. -/
theorem Keeps.store (h : c.Keeps limit log) (hlimit : 0 < limit) (key : String)
    (found : List Descriptor) :
    (c.store limit key found).Keeps limit
      (if (c.find? key).isSome = true then log else log ++ [key]) := by
  split
  next hkept =>
    rw [store_of_kept hkept]
    exact h
  next hnot =>
    have habsent : key ∉ c.order := fun hmem => hnot (h.isSome_find?_iff.mpr hmem)
    rw [store_of_absent (by simpa using hnot)]
    refine ⟨?_, ?_, ?_⟩
    · rw [List.map_append, keys_makeRoom h.keys h.nodup]
      rfl
    · -- What is left is a part of the order before, where the key was not.
      have hsub : (makeRoom limit c.entries c.order).order.Sublist c.order := by
        rw [order_makeRoom]
        exact List.drop_sublist _ _
      refine List.nodup_append.mpr ⟨hsub.nodup h.nodup, List.nodup_singleton key, ?_⟩
      rintro other hother _ hkey rfl
      exact habsent (List.mem_singleton.mp hkey ▸ hsub.subset hother)
    · dsimp only
      rw [order_makeRoom, h.latest, rtake_concat hlimit]

end ProbeCache

namespace Tracer

variable {σ : Type}

/-! ### One call -/

/-- **What a call does to the tracer.** Either its handle says nothing of its outputs, no result is
kept for it, it succeeds, and its result is stored; or the tracer stays as it was, and one of these
is not so. -/
theorem trace_outcome (t : Tracer) (prober : Option (Prober σ)) (c : Call) (s : σ) :
    (∃ h ∈ c.handle, ∃ found, h.metadata.outputs.isEmpty = true ∧
      t.probes.find? (probeKey h c.inputs) = none ∧
      (t.trace prober c.inputs c.handle s).1 = .ok found ∧
      (t.trace prober c.inputs c.handle s).2.1 =
        { t with probes := t.probes.store t.limit (probeKey h c.inputs) found }) ∨
    (t.trace prober c.inputs c.handle s).2.1 = t ∧
      ∀ h ∈ c.handle, h.metadata.outputs.isEmpty = true →
        t.probes.find? (probeKey h c.inputs) = none →
          (t.trace prober c.inputs c.handle s).1.isOk = false := by
  -- A call can end in nine places; one of them stores a result.
  unfold trace
  cases hhandle : c.handle with
  | none => exact .inr ⟨rfl, fun h hh => absurd hh (by simp)⟩
  | some h =>
    dsimp only
    simp only [Option.mem_some_iff, exists_eq_left', forall_eq']
    split
    next => exact .inr ⟨rfl, fun _ _ => rfl⟩
    next =>
    split
    next hsilent =>
      unfold probe
      split
      next =>
        split
        next => exact .inr ⟨rfl, fun _ _ => rfl⟩
        next =>
        split
        next found hfind =>
          -- A hit succeeds, but something was kept.
          refine .inr ⟨rfl, fun _ habsent => ?_⟩
          rw [hfind] at habsent
          cases habsent
        next hfind =>
        split
        next => exact .inr ⟨rfl, fun _ _ => rfl⟩
        next =>
        split
        next => exact .inr ⟨rfl, fun _ _ => rfl⟩
        next outs _ _ => exact .inl ⟨outs.map (·.descriptor), hsilent, hfind, rfl, rfl⟩
      next => exact .inr ⟨rfl, fun _ _ => rfl⟩
    next hsaid => exact .inr ⟨rfl, fun hsilent => absurd hsilent hsaid⟩

/-- The key that a call adds, if it adds one. -/
def added (t : Tracer) (prober : Option (Prober σ)) (c : Call) (s : σ) : List String :=
  match c.handle with
  | none => []
  | some h =>
    if h.metadata.outputs.isEmpty = true ∧ t.probes.find? (probeKey h c.inputs) = none ∧
        (t.trace prober c.inputs c.handle s).1.isOk = true then
      [probeKey h c.inputs]
    else []

/-- A call that fails, and one whose handle says what its outputs are, leave the tracer as it
was. -/
theorem trace_unchanged {t : Tracer} {prober : Option (Prober σ)} {c : Call} {s : σ}
    (h : (t.trace prober c.inputs c.handle s).1.isOk = false ∨
      ∃ h ∈ c.handle, h.metadata.outputs.isEmpty = false) :
    (t.trace prober c.inputs c.handle s).2.1 = t := by
  obtain ⟨g, hg, found, hsilent, -, hok, -⟩ | ⟨hsame, -⟩ := trace_outcome t prober c s
  · rcases h with hfails | ⟨h, hh, hsaid⟩
    · rw [hok] at hfails
      cases hfails
    · rw [Option.mem_unique hh hg, hsilent] at hsaid
      cases hsaid
  · exact hsame

/-- A tracer whose cache holds what a log ends with. -/
structure Retains (limit : Nat) (log : List String) (t : Tracer) : Prop where
  limit_eq : t.limit = limit
  keeps : t.probes.Keeps limit log

/-- **One call** extends the log by the key that it adds. -/
theorem Retains.trace {limit : Nat} {log : List String} {t : Tracer} (h : t.Retains limit log)
    (hlimit : 0 < limit) (prober : Option (Prober σ)) (c : Call) (s : σ) :
    (t.trace prober c.inputs c.handle s).2.1.Retains limit (log ++ t.added prober c s) := by
  obtain ⟨g, hg, found, hsilent, habsent, hok, hstore⟩ | ⟨hsame, hnot⟩ :=
    trace_outcome t prober c s
  · -- The call is the one kind that adds a key, and its result is stored.
    have hadded : t.added prober c s = [probeKey g c.inputs] := by
      rw [added, Option.mem_def.mp hg]
      dsimp only
      rw [if_pos ⟨hsilent, habsent, by rw [← Option.mem_def.mp hg, hok]; rfl⟩]
    have hkeeps := h.keeps.store hlimit (probeKey g c.inputs) found
    rw [habsent] at hkeeps
    rw [hstore, hadded]
    exact ⟨h.limit_eq, h.limit_eq ▸ hkeeps⟩
  · -- Every other call adds nothing.
    have hadded : t.added prober c s = [] := by
      unfold added
      split
      next => rfl
      next g hg =>
        refine if_neg fun hadds => ?_
        rw [hnot g hg hadds.1 hadds.2.1] at hadds
        exact absurd hadds.2.2 Bool.false_ne_true
    rw [hsame, hadded, List.append_nil]
    exact h

/-! ### All calls -/

/-- The tracer, and the state of its prober, after calls made one after the other. -/
def afterCalls (prober : Option (Prober σ)) : List Call → Tracer → σ → Tracer × σ
  | [], t, s => (t, s)
  | c :: more, t, s =>
    afterCalls prober more (t.trace prober c.inputs c.handle s).2.1
      (t.trace prober c.inputs c.handle s).2.2

/-- The log of calls made one after the other. -/
def logOf (prober : Option (Prober σ)) : List Call → Tracer → σ → List String
  | [], _, _ => []
  | c :: more, t, s =>
    t.added prober c s ++
      logOf prober more (t.trace prober c.inputs c.handle s).2.1
        (t.trace prober c.inputs c.handle s).2.2

/-- **Calls in a row** extend the log by what they add. -/
theorem Retains.afterCalls {limit : Nat} {log : List String} {t : Tracer} (h : t.Retains limit log)
    (hlimit : 0 < limit) (prober : Option (Prober σ)) (calls : List Call) (s : σ) :
    (afterCalls prober calls t s).1.Retains limit (log ++ logOf prober calls t s) := by
  -- The tracer, its log and the prober's state change from call to call.
  induction calls generalizing log t s with
  | nil =>
    rw [logOf, List.append_nil]
    exact h
  | cons c more ih =>
    rw [logOf, ← List.append_assoc]
    exact ih (h.trace hlimit prober c s) _

theorem retains_make (allowsProbes : Bool) (limit : Int64) :
    (make allowsProbes limit).Retains (make allowsProbes limit).limit [] :=
  ⟨rfl, ProbeCache.keeps_empty _⟩

/-- There is room for one result at least. -/
theorem limit_make_pos (allowsProbes : Bool) (limit : Int64) :
    0 < (make allowsProbes limit).limit := by
  have hlimit : (make allowsProbes limit).limit =
      if limit ≤ 0 then defaultLimit else limit.toNatClampNeg := rfl
  rw [hlimit]
  split
  next => decide
  next hpos =>
    have hlt := Int64.lt_iff_toInt_lt.mp (Int64.not_le.mp hpos)
    rw [Int64.toInt_zero] at hlt
    rw [Int64.toNatClampNeg]
    omega

/-- **What a tracer retains** after any calls, with any prober in any state, and whatever number of
results it is made for: the order has no key twice, its keys are those of the table, and there are
no more of them than asked for, or 256 where that is no positive number. They are the last that were
added, in the order in which they were added. And a call that fails, or whose handle says what its
outputs are, changes nothing. -/
theorem retains_latest (allowsProbes : Bool) (limit : Int64) (prober : Option (Prober σ))
    (calls : List Call) (s : σ) :
    ∃ t, (afterCalls prober calls (make allowsProbes limit) s).1 = t ∧
      t.probes.order.Nodup ∧
      (∀ key, (t.probes.find? key).isSome = true ↔ key ∈ t.probes.order) ∧
      t.probes.size = t.probes.order.length ∧
      t.probes.order.length ≤ (if limit ≤ 0 then 256 else limit.toNatClampNeg) ∧
      t.probes.order = (logOf prober calls (make allowsProbes limit) s).rtake
        (if limit ≤ 0 then 256 else limit.toNatClampNeg) ∧
      ∀ (c : Call) (s : σ), ((t.trace prober c.inputs c.handle s).1.isOk = false ∨
          ∃ h ∈ c.handle, h.metadata.outputs.isEmpty = false) →
        (t.trace prober c.inputs c.handle s).2.1 = t := by
  have hretains := (retains_make allowsProbes limit).afterCalls
    (limit_make_pos allowsProbes limit) prober calls s
  rw [List.nil_append] at hretains
  refine ⟨_, rfl, hretains.keeps.nodup, fun key => hretains.keeps.isSome_find?_iff,
    hretains.keeps.size_eq, hretains.keeps.length_le, hretains.keeps.latest, ?_⟩
  intro c s hidle
  exact trace_unchanged hidle

end Tracer

/-- A cache for one result: the third call finds that its result was forgotten for that of the
second. -/
def forgetfulCalls : List Tracer.Call :=
  [⟨some silentHandle, [⟨.float32, [2], .cpu⟩]⟩, ⟨some silentHandle, [⟨.float32, [3], .cpu⟩]⟩,
    ⟨some silentHandle, [⟨.float32, [2], .cpu⟩]⟩]

set_option maxRecDepth 20000 in
/-- The third call adds its key again. -/
theorem length_logOf_forgetfulCalls :
    (Tracer.logOf (some EngineOp.prober) forgetfulCalls (Tracer.make true 1)
      (planExecutor, .never)).length = 3 := by
  decide +kernel

/-- Three results were added, one is kept, and a call without a handle changes nothing. -/
theorem Tracer.retains_latest_of_three :
    (logOf (some EngineOp.prober) forgetfulCalls (make true 1) (planExecutor, .never)).length = 3 ∧
      ∃ t, (afterCalls (some EngineOp.prober) forgetfulCalls (make true 1)
          (planExecutor, .never)).1 = t ∧
        t.probes.order = (logOf (some EngineOp.prober) forgetfulCalls (make true 1)
          (planExecutor, .never)).rtake 1 ∧
        t.probes.order.length ≤ 1 ∧
        (t.trace (some EngineOp.prober) [] none (planExecutor, .never)).2.1 = t := by
  obtain ⟨t, hafter, -, -, -, hlength, hlatest, hidle⟩ :=
    retains_latest true 1 (some EngineOp.prober) forgetfulCalls (planExecutor, .never)
  exact ⟨length_logOf_forgetfulCalls, t, hafter, hlatest, hlength,
    hidle ⟨none, []⟩ (planExecutor, .never) (.inl rfl)⟩

end EngineHost

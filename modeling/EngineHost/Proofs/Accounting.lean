import EngineHost.Operator.Engine
import EngineHost.Program.Bound
import EngineHost.Proofs.NetworkSound

/-!
# What is opened is closed

An executor that keeps no engines gives back, at the end of every call, whatever the call took from
the device: the context first, then the engine under it, each once and with all the bytes it came to
hold. It does so however the call ends (`Executor.execute_settles`), and therefore so does every run
of a program, on tensors or on descriptors, with probes or without (`BoundProgram.run_settles`).

The books are kept twice. A `Ledger` is a sum of three counters, and sums can agree although the
wrong thing was closed. So journals are also *replayed* on the list of what is held, latest first
(`Holding.replay`). An entry that does not fit has no replay:

* a context is opened on an engine, not on nothing and not on another context;
* only the latest context grows;
* only the latest thing opened is closed, and with exactly the bytes that it holds.

Entries are `Balanced` if they can be replayed on whatever is held and leave the same held. Balance
is what a call has, balanced entries can be put one behind the other, and a ledger that sums up what
is held follows every replay (`Ledger.postAll_of_replay`), so balanced entries do not move it.
-/

namespace EngineHost

/-! ### Replaying a journal -/

/-- What is held on the device: an engine of a size, or a context with all that it has grown to. -/
inductive Holding where
  | engine (bytes : Int64)
  | context (bytes : Int64)
  deriving DecidableEq, Repr

namespace Holding

/-- What is held after one entry, latest first, if the entry fits what was held. -/
def after : List Holding → Entry → Option (List Holding)
  | held, .engineOpened n => some (.engine n :: held)
  | .engine m :: held, .contextOpened n => some (.context n :: .engine m :: held)
  | .context m :: held, .grown n => some (.context (m + n) :: held)
  | .context m :: held, .contextClosed n => if m = n then some held else none
  | .engine m :: held, .engineClosed n => if m = n then some held else none
  | _, _ => none

/-- What is held after a list of entries, if each of them fits. -/
def replay (held : List Holding) : List Entry → Option (List Holding)
  | [] => some held
  | e :: more => (after held e).bind fun held => replay held more

theorem replay_cons {held held' : List Holding} {e : Entry} (h : after held e = some held')
    (more : List Entry) : replay held (e :: more) = replay held' more := by
  rw [replay, h, Option.bind_some]

theorem after_contextClosed (n : Int64) (held : List Holding) :
    after (.context n :: held) (.contextClosed n) = some held :=
  if_pos rfl

theorem after_engineClosed (n : Int64) (held : List Holding) :
    after (.engine n :: held) (.engineClosed n) = some held :=
  if_pos rfl

/-- A journal is replayed part by part. -/
theorem replay_append (held : List Holding) (first second : List Entry) :
    replay held (first ++ second) = (replay held first).bind fun held => replay held second := by
  -- What is held changes with every entry, so the induction is over all of it.
  induction first generalizing held with
  | nil => rfl
  | cons e more ih =>
    rw [List.cons_append, replay, replay]
    cases after held e with
    | none => rfl
    | some held => exact ih held

/-- A context that grows step by step holds the sum. -/
theorem replay_grown (m : Int64) (held : List Holding) (grown : List Int64) :
    replay (.context m :: held) (grown.map .grown) =
      some (.context (grown.foldl (· + ·) m) :: held) := by
  induction grown generalizing m with
  | nil => rfl
  | cons n more ih => exact ih (m + n)

end Holding

/-- **Entries in balance**: each fits what is held when it is made, and in the end the same is held
as before. -/
def Balanced (entries : List Entry) : Prop :=
  ∀ held, Holding.replay held entries = some held

theorem balanced_nil : Balanced [] :=
  fun _ => rfl

/-- Balanced entries can be put one behind the other. -/
theorem Balanced.append {first second : List Entry} (hfirst : Balanced first)
    (hsecond : Balanced second) : Balanced (first ++ second) := by
  intro held
  rw [Holding.replay_append, hfirst held, Option.bind_some, hsecond held]

/-! ### The ledger follows -/

namespace Ledger

/-- A ledger with further things held. -/
def carrying (l : Ledger) : List Holding → Ledger
  | [] => l
  | .engine n :: held => (l.carrying held).post (.engineOpened n)
  | .context n :: held => (l.carrying held).post (.contextOpened n)

theorem post_engineClosed (l : Ledger) (n : Int64) :
    (l.post (.engineOpened n)).post (.engineClosed n) = l := by
  simp only [post, Int64.add_sub_cancel]

theorem post_contextClosed (l : Ledger) (n : Int64) :
    (l.post (.contextOpened n)).post (.contextClosed n) = l := by
  simp only [post, Int64.add_sub_cancel]

theorem post_grown (l : Ledger) (m n : Int64) :
    (l.post (.contextOpened m)).post (.grown n) = l.post (.contextOpened (m + n)) := by
  simp only [post, Int64.add_assoc]

/-- One entry that fits. -/
theorem post_of_after (l : Ledger) {held held' : List Holding} {e : Entry}
    (h : Holding.after held e = some held') : (l.carrying held).post e = l.carrying held' := by
  -- One case for each rule of the replay: the counters move by what is put on top or taken off.
  unfold Holding.after at h
  split at h
  next n =>
    obtain rfl := Option.some.inj h
    rfl
  next m held n =>
    obtain rfl := Option.some.inj h
    rfl
  next m held n =>
    obtain rfl := Option.some.inj h
    exact post_grown _ m n
  next m held n =>
    -- What is closed is closed with what it holds, or the entry would not have fitted.
    split at h
    next hsize =>
      obtain rfl := Option.some.inj h
      obtain rfl := hsize
      exact post_contextClosed _ m
    next => cases h
  next m held n =>
    split at h
    next hsize =>
      obtain rfl := Option.some.inj h
      obtain rfl := hsize
      exact post_engineClosed _ m
    next => cases h
  next => cases h

theorem postAll_append (l : Ledger) (first second : List Entry) :
    l.postAll (first ++ second) = (l.postAll first).postAll second :=
  List.foldl_append

/-- **The ledger follows the replay**: it goes from what is held before to what is held after. -/
theorem postAll_of_replay (l : Ledger) {held held' : List Holding} {entries : List Entry}
    (h : Holding.replay held entries = some held') :
    (l.carrying held).postAll entries = l.carrying held' := by
  -- Along the entries, with `between` for what is held after the first.
  induction entries generalizing held with
  | nil =>
    obtain rfl := Option.some.inj h
    rfl
  | cons e more ih =>
    obtain ⟨between, hstep, hmore⟩ := Option.bind_eq_some_iff.mp h
    have hpost := post_of_after l hstep
    have hrest := ih hmore
    calc (l.carrying held).postAll (e :: more)
        = ((l.carrying held).post e).postAll more := rfl
      _ = (l.carrying between).postAll more := by rw [hpost]
      _ = l.carrying held' := hrest

/-- Balanced entries leave the ledger as it was. -/
theorem postAll_of_balanced (l : Ledger) {entries : List Entry} (h : Balanced entries) :
    l.postAll entries = l :=
  l.postAll_of_replay (h [])

end Ledger

/-! ### One call -/

namespace Executor

theorem note_nil (x : Executor) : x.note [] = x := by
  simp only [note, List.append_nil]

/-- Notes add up. -/
theorem note_note (x : Executor) (first second : List Entry) :
    (x.note first).note second = x.note (first ++ second) := by
  simp only [note, List.append_assoc]

theorem ledger_note (x : Executor) (entries : List Entry) :
    (x.note entries).ledger = x.ledger.postAll entries :=
  x.opening.postAll_append x.journal entries

/-- What the use of a context leaves behind. -/
def contextEntries (grown : List Int64) : List Entry :=
  .contextOpened 0 :: grown.map .grown ++ [.contextClosed (grown.foldl (· + ·) 0)]

/-- A context is closed with all it has grown to, on the engine it was opened on. -/
theorem replay_contextEntries (m : Int64) (held : List Holding) (grown : List Int64) :
    Holding.replay (.engine m :: held) (contextEntries grown) = some (.engine m :: held) := by
  -- Opened on the engine, grown to the sum, closed with that sum.
  rw [contextEntries, List.cons_append, Holding.replay_cons rfl, Holding.replay_append,
    Holding.replay_grown, Option.bind_some, Holding.replay_cons (Holding.after_contextClosed _ _)]
  rfl

/-- **What a use of an engine does to device resources**: nothing, where the names differ or no
context opens, and otherwise one context, opened and closed. -/
theorem runEngine_entries (e : Engine) (h : Handle) (signal : Signal) (inputs : List Tensor) :
    ((¬∃ c, checkNames e h = .ok () ∧ e.context = .ok c) ∧
      (runEngine e h signal inputs).entries = []) ∨
    (∃ c, checkNames e h = .ok () ∧ e.context = .ok c) ∧
      ∃ grown, (runEngine e h signal inputs).entries = contextEntries grown := by
  unfold runEngine
  -- The two ways to stop before there is a context leave nothing behind.
  cases hnames : checkNames e h with
  | error f =>
    refine .inl ⟨?_, rfl⟩
    rintro ⟨c, hok, -⟩
    cases hok
  | ok u =>
    cases hcontext : e.context with
    | error f =>
      refine .inl ⟨?_, rfl⟩
      rintro ⟨c, -, hok⟩
      cases hok
    | ok c => exact .inr ⟨⟨c, rfl, rfl⟩, (runContext c h signal inputs).2.1, rfl⟩

/-- The entries of a use fit onto the engine that is used. -/
theorem replay_runEngine (e : Engine) (h : Handle) (signal : Signal) (inputs : List Tensor)
    (m : Int64) (held : List Holding) :
    Holding.replay (.engine m :: held) (runEngine e h signal inputs).entries =
      some (.engine m :: held) := by
  rcases runEngine_entries e h signal inputs with ⟨-, hentries⟩ | ⟨-, grown, hentries⟩
  · rw [hentries]
    rfl
  · rw [hentries, replay_contextEntries]

/-- A use opens a context exactly where the names agree and the engine gives one. -/
theorem contextOpened_mem_runEngine_iff (e : Engine) (h : Handle) (signal : Signal)
    (inputs : List Tensor) :
    (∃ n, Entry.contextOpened n ∈ (runEngine e h signal inputs).entries) ↔
      ∃ c, checkNames e h = .ok () ∧ e.context = .ok c := by
  rcases runEngine_entries e h signal inputs with ⟨hnone, hentries⟩ | ⟨hsome, grown, hentries⟩
  · rw [hentries]
    exact ⟨fun ⟨n, hn⟩ => absurd hn List.not_mem_nil, fun hsome => absurd hsome hnone⟩
  · rw [hentries]
    exact ⟨fun _ => hsome, fun _ => ⟨0, List.mem_append_left _ List.mem_cons_self⟩⟩

/-- **What a call has opened**, said by the outcome of its steps: an engine exactly where the inputs
pass and the payload loads, and a context exactly where moreover the names agree and the engine
gives one. -/
structure Opens (x : Executor) (h : Handle) (inputs : List (Option Tensor))
    (entries : List Entry) : Prop where
  engine : (∃ n, Entry.engineOpened n ∈ entries) ↔
    ∃ given e, checkInputs h inputs = .ok given ∧ load x.runtimes h = .ok e
  context : (∃ n, Entry.contextOpened n ∈ entries) ↔
    ∃ given e c, checkInputs h inputs = .ok given ∧ load x.runtimes h = .ok e ∧
      checkNames e h = .ok () ∧ e.context = .ok c

variable {x : Executor}

/-- Where no engines are kept, a call leaves the executor alone. -/
theorem run_eq (hcaching : x.isCaching = false) (h : Handle) (signal : Signal)
    (inputs : List (Option Tensor)) : (x.run h signal inputs).2 = x := by
  unfold run
  split
  next => rfl
  next => rw [if_neg (by rw [hcaching]; decide)]

/-- The entries of a call, by its first two steps. -/
theorem run_entries (hcaching : x.isCaching = false) (h : Handle) (signal : Signal)
    (inputs : List (Option Tensor)) :
    ((¬∃ given e, checkInputs h inputs = .ok given ∧ load x.runtimes h = .ok e) ∧
      (x.run h signal inputs).1.entries = []) ∨
    ∃ given e, checkInputs h inputs = .ok given ∧ load x.runtimes h = .ok e ∧
      (x.run h signal inputs).1.entries =
        .engineOpened e.bytes :: (runEngine e h signal given).entries ++
          [.engineClosed e.bytes] := by
  unfold run
  cases hinputs : checkInputs h inputs with
  | error f =>
    refine .inl ⟨?_, rfl⟩
    rintro ⟨given, e, hok, -⟩
    cases hok
  | ok given =>
    -- No engine is kept, so the call opens one of its own.
    dsimp only
    rw [if_neg (by rw [hcaching]; decide), runOnce]
    cases hload : load x.runtimes h with
    | error f =>
      refine .inl ⟨?_, rfl⟩
      rintro ⟨given, e, -, hok⟩
      cases hok
    | ok e => exact .inr ⟨given, e, rfl, rfl, rfl⟩

/-- A call is in balance, however it ends. -/
theorem run_balanced (hcaching : x.isCaching = false) (h : Handle) (signal : Signal)
    (inputs : List (Option Tensor)) : Balanced (x.run h signal inputs).1.entries := by
  intro held
  rcases run_entries hcaching h signal inputs with ⟨-, hentries⟩ | ⟨given, e, -, -, hentries⟩
  · rw [hentries]
    rfl
  · -- The engine lies under the context from the first entry to the last.
    rw [hentries, List.cons_append, Holding.replay_cons rfl, Holding.replay_append,
      replay_runEngine, Option.bind_some, Holding.replay_cons (Holding.after_engineClosed _ _)]
    rfl

/-- A call opens what its steps ask for, and nothing else. -/
theorem run_opens (hcaching : x.isCaching = false) (h : Handle) (signal : Signal)
    (inputs : List (Option Tensor)) : x.Opens h inputs (x.run h signal inputs).1.entries := by
  rcases run_entries hcaching h signal inputs with
    ⟨hnone, hentries⟩ | ⟨given, e, hinputs, hload, hentries⟩
  · rw [hentries]
    refine ⟨⟨fun ⟨n, hn⟩ => absurd hn List.not_mem_nil, fun hsome => absurd hsome hnone⟩,
      ⟨fun ⟨n, hn⟩ => absurd hn List.not_mem_nil, ?_⟩⟩
    rintro ⟨given, e, c, hinputs, hload, -⟩
    exact absurd ⟨given, e, hinputs, hload⟩ hnone
  · rw [hentries]
    refine ⟨⟨fun _ => ⟨given, e, hinputs, hload⟩,
      fun _ => ⟨e.bytes, List.mem_append_left _ List.mem_cons_self⟩⟩, ⟨?_, ?_⟩⟩
    · -- A context that was opened was opened by the use of the engine.
      rintro ⟨n, hn⟩
      have huse : Entry.contextOpened n ∈ (runEngine e h signal given).entries := by
        simpa using hn
      obtain ⟨c, hnames, hcontext⟩ :=
        (contextOpened_mem_runEngine_iff e h signal given).mp ⟨n, huse⟩
      exact ⟨given, e, c, hinputs, hload, hnames, hcontext⟩
    · -- The engine of the steps is the one that was loaded, as loading is a function.
      rintro ⟨given', e', c, -, hload', hnames, hcontext⟩
      obtain rfl := Except.ok.inj (hload.symm.trans hload')
      obtain ⟨n, hn⟩ :=
        (contextOpened_mem_runEngine_iff e h signal given).mpr ⟨c, hnames, hcontext⟩
      exact ⟨n, by simpa using hn⟩

/-! ### Executors over time -/

/-- **An executor settles into another**: the other is the same executor after some entries, and
these are in balance. -/
def Settles (x x' : Executor) : Prop :=
  ∃ entries, x' = x.note entries ∧ Balanced entries

theorem Settles.refl (x : Executor) : x.Settles x :=
  ⟨[], x.note_nil.symm, balanced_nil⟩

theorem Settles.trans {x y z : Executor} (hxy : x.Settles y) (hyz : y.Settles z) :
    x.Settles z := by
  obtain ⟨first, rfl, hfirst⟩ := hxy
  obtain ⟨second, rfl, hsecond⟩ := hyz
  exact ⟨first ++ second, x.note_note first second, hfirst.append hsecond⟩

theorem Settles.isCaching {x x' : Executor} (h : x.Settles x') : x'.isCaching = x.isCaching := by
  obtain ⟨entries, rfl, -⟩ := h
  rfl

/-- What settles leaves the ledger as it was. -/
theorem Settles.ledger_eq {x x' : Executor} (h : x.Settles x') : x'.ledger = x.ledger := by
  obtain ⟨entries, rfl, hbalanced⟩ := h
  rw [ledger_note, Ledger.postAll_of_balanced _ hbalanced]

/-- A call on a handle notes its entries and changes nothing else. -/
theorem execute_some (hcaching : x.isCaching = false) (signal : Signal)
    (inputs : List (Option Tensor)) (h : Handle) :
    (x.execute signal inputs (some h)).2.2 = x.note (x.run h signal inputs).1.entries := by
  have hsame := run_eq hcaching h signal inputs
  calc (x.execute signal inputs (some h)).2.2
      = (x.run h signal inputs).2.note (x.run h signal inputs).1.entries := rfl
    _ = x.note (x.run h signal inputs).1.entries := by rw [hsame]

/-- **Every call settles**, where no engines are kept. -/
theorem execute_settles (hcaching : x.isCaching = false) (signal : Signal)
    (inputs : List (Option Tensor)) (h : Option Handle) :
    x.Settles (x.execute signal inputs h).2.2 := by
  cases h with
  | none => exact .refl x
  | some h =>
    exact ⟨_, execute_some hcaching signal inputs h, run_balanced hcaching h signal inputs⟩

end Executor

/-! ### Traces, operators and programs -/

/-- A trace makes at most one probe: it leaves its state alone, or leaves it as the probe does. -/
theorem Tracer.trace_state {σ : Type} (t : Tracer) (prober : Prober σ) (inputs : List Descriptor)
    (h : Option Handle) (s : σ) :
    (t.trace (some prober) inputs h s).2.2 = s ∨
      ∃ zeros h', (t.trace (some prober) inputs h s).2.2 = (prober zeros h' s).2 := by
  cases h with
  | none => exact .inl rfl
  | some h =>
    unfold trace
    dsimp only
    -- Four checks stand before the probe, and whichever stops the trace leaves the state alone.
    split
    next => exact .inl rfl
    next =>
    split
    next =>
      unfold probe
      split
      next _ _ hprober =>
        obtain rfl := Option.some.inj hprober
        split
        next => exact .inl rfl
        next =>
        split
        next => exact .inl rfl
        next =>
        split
        next => exact .inl rfl
        next zeros _ =>
        -- The probe itself, whether it fails or not.
        refine .inr ⟨zeros, h, ?_⟩
        split
        next heq => rw [heq]
        next heq => rw [heq]
      next => exact .inl rfl
    next => exact .inl rfl

/-- **An operator settles**: whatever its kernels are called on, the executor settles, if it keeps
no engines. -/
def Operator.Settles (op : Operator) : Prop :=
  ∀ ⦃s : Station⦄, s.executor.isCaching = false → ∀ (objects : List Object),
    (∀ inputs, s.executor.Settles (op.symbolic inputs objects s).2.executor) ∧
    ∀ inputs, s.executor.Settles (op.concrete inputs objects s).2.executor

/-- An operator that does nothing to the station. -/
def Operator.LeavesStation (op : Operator) : Prop :=
  (∀ inputs objects s, (op.symbolic inputs objects s).2 = s) ∧
    ∀ inputs objects s, (op.concrete inputs objects s).2 = s

theorem Operator.LeavesStation.settles {op : Operator} (h : op.LeavesStation) : op.Settles := by
  intro s _ objects
  refine ⟨fun inputs => ?_, fun inputs => ?_⟩
  · rw [h.1]
    exact .refl _
  · rw [h.2]
    exact .refl _

/-- The engine operator, which reaches the executor in both modes. -/
def EngineOp.operator : Operator :=
  ⟨EngineOp.symbolic, EngineOp.concrete⟩

theorem EngineOp.operator_settles : EngineOp.operator.Settles := by
  intro s hcaching objects
  change (∀ inputs, s.executor.Settles (EngineOp.symbolic inputs objects s).2.executor) ∧
    ∀ inputs, s.executor.Settles (EngineOp.concrete inputs objects s).2.executor
  -- Without a handle among the objects neither kernel gets as far as the executor.
  cases hhandle : handleOf objects with
  | error f =>
    refine ⟨fun inputs => ?_, fun inputs => ?_⟩
    · rw [EngineOp.symbolic, hhandle]
      exact .refl _
    · rw [EngineOp.concrete, hhandle]
      exact .refl _
  | ok h =>
    refine ⟨fun inputs => ?_, fun inputs => ?_⟩
    · -- A trace reaches the executor through its probe, and only there.
      have hexecutor : (EngineOp.symbolic inputs objects s).2.executor =
          (s.tracer.trace (some prober) inputs (some h) (s.executor, s.signal)).2.2.1 := by
        rw [EngineOp.symbolic, hhandle]
      rw [hexecutor]
      rcases Tracer.trace_state s.tracer prober inputs (some h) (s.executor, s.signal) with
        hsame | ⟨zeros, h', hprobe⟩
      · rw [hsame]
        exact .refl _
      · rw [hprobe]
        exact Executor.execute_settles hcaching s.signal zeros (some h')
    · rw [EngineOp.concrete, hhandle]
      exact Executor.execute_settles hcaching s.signal (inputs.map some) (some h)

/-- A registry in which no operator but the engine operator reaches the station. -/
def Registry.Guarded (r : Registry) : Prop :=
  ∀ entry ∈ r.operators, entry.2 = EngineOp.operator ∨ entry.2.LeavesStation

/-- The registry of the host is guarded. -/
theorem Registry.standard_guarded {r : Registry} (h : Registry.standard = .ok r) : r.Guarded := by
  have hpure {f : List Descriptor → Except Failure (List Descriptor)}
      {g : List Tensor → Except Failure (List Tensor)} :
      Operator.LeavesStation ⟨Native.pureKernel Value.symbols f,
        Native.pureKernel Value.tensors g⟩ :=
    ⟨fun _ _ _ => rfl, fun _ _ _ => rfl⟩
  -- The operators of the host are listed; all but the last are pure kernels.
  cases h
  simp only [Guarded, List.nil_append, List.cons_append, List.forall_mem_cons]
  exact ⟨.inr hpure, .inr hpure, .inr hpure, .inl rfl, List.forall_mem_nil _⟩

namespace Registry

variable {r : Registry}

/-- A guarded registry has operators that settle only. -/
theorem Guarded.settles (h : r.Guarded) {name : String} {op : Operator}
    (hop : r.operator? name = some op) : op.Settles := by
  rcases h _ (mem_of_lookup hop) with heq | hleaves
  · change op = EngineOp.operator at heq
    rw [heq]
    exact EngineOp.operator_settles
  · exact hleaves.settles

/-- A call of an operator settles, in whatever mode. -/
theorem Guarded.invoke_settles (h : r.Guarded) {s : Station}
    (hcaching : s.executor.isCaching = false)
    (mode : Mode) (name : String) (inputs : List (Option Value)) (objects : List Object) :
    s.executor.Settles (r.invoke mode name inputs objects s).2.executor := by
  -- An unknown name, inputs of the other mode and an unknown mode stop before any kernel.
  unfold invoke
  split
  next => exact .refl _
  next op hop =>
    obtain ⟨hsymbolic, hconcrete⟩ := h.settles hop hcaching objects
    split
    next =>
      split
      next => exact .refl _
      next => exact hsymbolic _
    next =>
      split
      next => exact .refl _
      next => exact hconcrete _
    next => exact .refl _

end Registry

namespace BoundProgram

variable {b : BoundProgram}

/-- One node. -/
theorem callNode_settles (hguarded : b.registry.Guarded) {s : Station}
    (hcaching : s.executor.isCaching = false) (mode : Mode) (env : Env) (n : ProgramNode) :
    s.executor.Settles (b.callNode mode env n s).2.executor := by
  have hinvoke := hguarded.invoke_settles hcaching mode n.op
    (n.argList.map fun a => (env.lookup a).join)
    (n.objects.filterMap fun o => b.objects.lookup o)
  unfold callNode
  dsimp only
  -- What the outputs are bound to does not matter to the station.
  split
  next heq =>
    rw [heq] at hinvoke
    exact hinvoke
  next heq =>
    rw [heq] at hinvoke
    split
    next => exact hinvoke
    next => exact hinvoke

/-- All nodes, up to the first that fails. -/
theorem callNodes_settles (hguarded : b.registry.Guarded) {s : Station}
    (hcaching : s.executor.isCaching = false) (mode : Mode) (env : Env) (nodes : List ProgramNode) :
    s.executor.Settles (b.callNodes mode env nodes s).2.executor := by
  induction nodes generalizing env s with
  | nil => exact .refl _
  | cons n more ih =>
    have hnode := callNode_settles hguarded hcaching mode env n
    unfold callNodes
    -- A node that fails ends the run with the station it has left.
    split
    next heq =>
      rw [heq] at hnode
      exact hnode
    next env' s' heq =>
      rw [heq] at hnode
      -- The station between two nodes keeps no engines either.
      have hcaching' : s'.executor.isCaching = false := hnode.isCaching.trans hcaching
      exact hnode.trans (ih hcaching' env')

/-- **Every run settles**, where no engines are kept. -/
theorem run_settles (hguarded : b.registry.Guarded) {s : Station}
    (hcaching : s.executor.isCaching = false) (mode : Mode)
    (given : List (String × Option Value)) :
    s.executor.Settles (b.run mode given s).2.executor := by
  -- Inputs that do not fit stop a run before its first node.
  unfold run
  dsimp only
  split
  next => exact .refl _
  next =>
  split
  next => exact .refl _
  next env _ =>
  have hnodes := callNodes_settles hguarded hcaching mode env b.program.nodeList
  split
  next heq =>
    rw [heq] at hnodes
    exact hnodes
  next heq =>
    rw [heq] at hnodes
    exact hnodes

end BoundProgram

/-- **Nothing leaks where no engines are kept.** A call notes entries that are in balance, opens an
engine and a context exactly where its steps succeed, leaves the ledger and everything else as it
was, and the same is true of every run of a program in every mode. -/
theorem Executor.nothing_leaks {x : Executor} (hcaching : x.isCaching = false) :
    (∀ (h : Handle) (signal : Signal) (inputs : List (Option Tensor)),
      let entries := (x.run h signal inputs).1.entries
      (x.execute signal inputs (some h)).2.2 = x.note entries ∧ Balanced entries ∧
        x.Opens h inputs entries ∧ (x.execute signal inputs (some h)).2.2.ledger = x.ledger) ∧
    (∀ (b : BoundProgram) (mode : Mode) (given : List (String × Option Value)) (s : Station),
      b.registry.Guarded → s.executor = x →
        x.Settles (b.run mode given s).2.executor ∧
        (b.run mode given s).2.executor.ledger = x.ledger) := by
  refine ⟨fun h signal inputs => ?_, fun b mode given s hguarded hs => ?_⟩
  · have hsettles := execute_settles hcaching signal inputs (some h)
    exact ⟨execute_some hcaching signal inputs h, run_balanced hcaching h signal inputs,
      run_opens hcaching h signal inputs, hsettles.ledger_eq⟩
  · -- The station holds this executor; what it holds besides does not matter.
    subst hs
    have hsettles := BoundProgram.run_settles hguarded hcaching mode given
    exact ⟨hsettles, hsettles.ledger_eq⟩

/-- Copies its input and rectifies the copy. -/
def copyThenRectify : NetworkDraft where
  inputs := [{ name := [120], min := some [1], max := some [4] }]
  layers := [{ label := Bytes.ofText "identity", operands := [[120]], output := [121] },
    { label := Bytes.ofText "relu", operands := [[121]], output := [122] }]
  outputs := [[122]]

/-- The handle of the network. -/
def copyThenRectifyHandle : Handle :=
  (BuildConfig.buildTextHandle {} "two" copyThenRectify).toOption.get (by decide +kernel)

/-- Two elements. -/
def twoOnes : Tensor where
  elements := .float32 #[⟨0x3F800000⟩, ⟨0x3F800000⟩]
  shape := [2]
  device := .cpu
  isStatic := by decide
  count_eq := by decide

/-- Runs plans and keeps none. -/
def planExecutor : Executor :=
  { runtimes := [PlanRuntime.runtime {}], isCaching := false }

/-- Canceled at the third poll, that is, between the two layers. -/
def betweenLayers : Signal := ⟨some (2, .canceled)⟩

set_option maxRecDepth 20000 in
theorem entries_betweenLayers :
    (planExecutor.run copyThenRectifyHandle betweenLayers [some twoOnes]).1.entries =
      [.engineOpened 113, .contextOpened 0, .grown 8, .contextClosed 8, .engineClosed 113] := by
  decide +kernel

/-- A call that is canceled between two layers gives back what the first layer took. -/
theorem nothing_leaks_betweenLayers :
    planExecutor.isCaching = false ∧
      Balanced [.engineOpened 113, .contextOpened 0, .grown 8, .contextClosed 8,
        .engineClosed 113] ∧
      (planExecutor.execute betweenLayers [some twoOnes] (some copyThenRectifyHandle)).2.2.ledger =
        {} := by
  obtain ⟨hcall, -⟩ := Executor.nothing_leaks (x := planExecutor) rfl
  obtain ⟨-, hbalanced, -, hledger⟩ := hcall copyThenRectifyHandle betweenLayers [some twoOnes]
  exact ⟨rfl, entries_betweenLayers ▸ hbalanced, hledger⟩

end EngineHost

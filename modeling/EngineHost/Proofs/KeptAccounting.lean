import EngineHost.Proofs.ProbeRuns
import EngineHost.Proofs.SharedCache
import Mathlib.Data.List.Induction

/-!
# The books of an executor that keeps engines

An executor that keeps engines does not give everything back at the end of a call: an engine that
was loaded stays, and the context that was opened on it does not. So the counters of the ledger, the
number of engines in the cache and the sizes of their payloads have to agree, whatever calls were
made and however they ended, and all of them have to be gone once the executor was closed.

`Executor.execute_cases` says all that a call can do: it moves no counter and keeps what is kept, or
it opens one engine and keeps it under a key that was free. `Executor.Books` is what follows for the
cache of an executor that is open: its keys are those of the calls that load, each of them once, and
the ledger holds their payloads (`Ledger.ofPayloads`). Closing brings it to `Executor.Shut`, which
no call changes. `Executor.books_agree` puts the moves together.
-/

namespace EngineHost

/-! ### Ledgers of payloads -/

namespace Ledger

/-- What a ledger says where payloads are loaded and nothing else is held. -/
def ofPayloads (payloads : List Bytes) : Ledger where
  engines := Int64.ofNat payloads.length
  contexts := 0
  bytes := Int64.ofNat (payloads.map List.length).sum

/-- One more payload. -/
theorem post_engineOpened (payloads : List Bytes) (payload : Bytes) :
    (ofPayloads payloads).post (.engineOpened (Int64.ofNat payload.length)) =
      ofPayloads (payloads ++ [payload]) := by
  simp only [ofPayloads, post, List.length_append, List.map_append, List.sum_append,
    List.length_singleton, List.map_singleton, List.sum_singleton, Int64.ofNat_add]
  rfl

/-- The first payload goes. -/
theorem post_firstClosed (payload : Bytes) (payloads : List Bytes) :
    (ofPayloads (payload :: payloads)).post (.engineClosed (Int64.ofNat payload.length)) =
      ofPayloads payloads := by
  simp only [ofPayloads, post, List.length_cons, List.map_cons, List.sum_cons, Int64.ofNat_add]
  rw [Int64.add_comm (Int64.ofNat payload.length), Int64.add_sub_cancel]
  congr 1
  exact Int64.add_sub_cancel _ _

end Ledger

namespace Executor

/-! ### One call -/

/-- **A call that loads**: its inputs pass, and its handle, which has a key and a payload, loads
into an engine. -/
def Call.Loads (c : Call) (runtimes : List Runtime) (key : String) (payload : Bytes)
    (e : Engine) : Prop :=
  ∃ h given, c.handle = some h ∧ checkInputs h c.inputs = .ok given ∧ cacheKey h = key ∧
    h.engine = payload ∧ load runtimes h = .ok e

/-- An engine is as large as the payload it was loaded from. -/
theorem Call.Loads.bytes_eq {c : Call} {hosts : List HostConfig} {key : String} {payload : Bytes}
    {e : Engine} (hloads : c.Loads (hosts.map PlanRuntime.runtime) key payload e) :
    e.bytes = Int64.ofNat payload.length := by
  obtain ⟨h, given, -, -, -, rfl, hload⟩ := hloads
  obtain ⟨pe, bytes, hbytes, rfl⟩ := load_plan hload
  exact hbytes

/-- Entries that move no ledger. -/
def Quiet (entries : List Entry) : Prop :=
  ∀ l : Ledger, l.postAll entries = l

section Call

variable {x : Executor} (hcaching : x.isCaching = true) (c : Call)

include hcaching

/-- **What a call does to an executor that keeps engines and is open.** Either it moves no counter
and keeps what is kept, and if it loads, an engine is kept under its key; or it loads, no engine is
kept under its key, and it opens the engine and keeps it. -/
theorem execute_cases (hopen : x.isClosed = false) :
    (∃ entries, (x.execute c.signal c.inputs c.handle).2.2 = x.note entries ∧ Quiet entries ∧
      ∀ key payload e, c.Loads x.runtimes key payload e → key ∈ x.engines.map (·.1)) ∨
    ∃ key payload e entries, c.Loads x.runtimes key payload e ∧ key ∉ x.engines.map (·.1) ∧
      Quiet entries ∧ (x.execute c.signal c.inputs c.handle).2.2 =
        { x with engines := x.engines ++ [(key, e)] }.note (.engineOpened e.bytes :: entries) := by
  cases hhandle : c.handle with
  | none =>
    refine .inl ⟨[], x.note_nil.symm, fun l => rfl, ?_⟩
    rintro key payload e ⟨h, given, hsome, -⟩
    rw [hhandle] at hsome
    cases hsome
  | some h =>
    -- The call has one handle, so whatever it loads it loads for that.
    have honly {key payload e} (hloads : c.Loads x.runtimes key payload e) :
        (∃ given, checkInputs h c.inputs = .ok given) ∧ key = cacheKey h ∧
          load x.runtimes h = .ok e := by
      obtain ⟨h', given, hsome, hgiven, hkey, -, hload⟩ := hloads
      obtain rfl := Option.some.inj (hhandle.symm.trans hsome)
      exact ⟨⟨given, hgiven⟩, hkey.symm, hload⟩
    cases hgiven : checkInputs h c.inputs with
    | error f =>
      -- The inputs do not pass: nothing is loaded.
      refine .inl ⟨[], ?_, fun l => rfl, fun key payload e hloads => ?_⟩
      · unfold execute run
        dsimp only
        rw [hgiven]
      · obtain ⟨⟨given, hok⟩, -, -⟩ := honly hloads
        rw [hgiven] at hok
        cases hok
    | ok given =>
      cases hlookup : x.engines.lookup (cacheKey h) with
      | some e =>
        -- A hit: only a context comes and goes.
        refine .inl ⟨(runEngine e h c.signal given).entries, ?_,
          postAll_runEngine e h c.signal given, fun key payload e' hloads => ?_⟩
        · rw [execute_of_keptEngine_ok hcaching hgiven c.signal (keptEngine_hit hopen hlookup)]
          rfl
        · rw [(honly hloads).2.1]
          exact List.mem_map.mpr ⟨(cacheKey h, e), mem_of_lookup hlookup, rfl⟩
      | none =>
        have hmiss := keptEngine_miss hopen hlookup
        cases hload : load x.runtimes h with
        | error f =>
          -- A miss, and nothing is loaded.
          rw [hload] at hmiss
          refine .inl ⟨[], ?_, fun l => rfl, fun key payload e hloads => ?_⟩
          · rw [execute_of_keptEngine_error hcaching hgiven c.signal hmiss, note_nil]
          · have hok := (honly hloads).2.2
            rw [hload] at hok
            cases hok
        | ok e =>
          -- A miss: the engine is opened and kept, and a context comes and goes.
          have hfree : cacheKey h ∉ x.engines.map (·.1) := by
            intro hmem
            obtain ⟨kept, hkept, heq⟩ := List.mem_map.mp hmem
            exact Traffic.ne_of_lookup_eq_none hlookup kept hkept heq
          rw [hload] at hmiss
          refine .inr ⟨cacheKey h, h.engine, e, (runEngine e h c.signal given).entries,
            ⟨h, given, hhandle, hgiven, rfl, rfl, hload⟩, hfree,
            postAll_runEngine e h c.signal given, ?_⟩
          rw [execute_of_keptEngine_ok hcaching hgiven c.signal hmiss]
          rfl

/-- A call on an executor that was closed changes nothing. -/
theorem execute_of_isClosed (hclosed : x.isClosed = true) :
    (x.execute c.signal c.inputs c.handle).2.2 = x := by
  cases c.handle with
  | none => rfl
  | some h =>
    cases hgiven : checkInputs h c.inputs with
    | error f =>
      unfold execute run
      dsimp only
      rw [hgiven]
      dsimp only
      rw [note_nil]
    | ok given =>
      -- The cache is asked before anything is loaded, and refuses.
      have hkept : x.keptEngine h = .error (.plain "execute: adapter is closed") := by
        rw [keptEngine, if_pos hclosed]
      rw [execute_of_keptEngine_error hcaching hgiven c.signal hkept]

end Call

/-! ### Moves -/

/-- What is done to an executor. -/
inductive Move where
  | execute (c : Call)
  | close

/-- The executor after a move. -/
def perform (x : Executor) : Move → Executor
  | .execute c => (x.execute c.signal c.inputs c.handle).2.2
  | .close => x.close.2

/-- The executor after moves. -/
def performAll (x : Executor) (moves : List Move) : Executor :=
  moves.foldl perform x

theorem performAll_append (x : Executor) (first second : List Move) :
    x.performAll (first ++ second) = (x.performAll first).performAll second :=
  List.foldl_append

/-- **The books of an executor that is open**, after calls: the payloads behind the engines it keeps
were loaded by calls, no key stands twice, no call that loads has been forgotten, and the ledger
holds the payloads and nothing else. -/
structure Books (hosts : List HostConfig) (moves : List Move) (x : Executor)
    (payloads : List Bytes) : Prop where
  runtimes : x.runtimes = hosts.map PlanRuntime.runtime
  isCaching : x.isCaching = true
  isOpen : x.isClosed = false
  loaded : List.Forall₂ (fun kept payload => ∃ c, Move.execute c ∈ moves ∧
    c.Loads (hosts.map PlanRuntime.runtime) kept.1 payload kept.2) x.engines payloads
  nodup : (x.engines.map (·.1)).Nodup
  complete : ∀ c, Move.execute c ∈ moves → ∀ key payload e,
    c.Loads (hosts.map PlanRuntime.runtime) key payload e → key ∈ x.engines.map (·.1)
  ledger : x.ledger = .ofPayloads payloads

/-- An executor that was closed. -/
structure Shut (x : Executor) : Prop where
  isCaching : x.isCaching = true
  isClosed : x.isClosed = true
  engines : x.engines = []
  ledger : x.ledger = {}

section Moves

variable {hosts : List HostConfig} {moves : List Move} {x : Executor} {payloads : List Bytes}

/-- Behind each engine that is kept there is a payload. -/
theorem exists_payload {R : String × Engine → Bytes → Prop} {engines : List (String × Engine)}
    (h : List.Forall₂ R engines payloads) {kept : String × Engine} (hkept : kept ∈ engines) :
    ∃ payload, R kept payload := by
  -- By the relation: the lists have their entries in step.
  induction h with
  | nil => exact absurd hkept List.not_mem_nil
  | @cons first payload _ _ hfirst _ ih =>
    rcases List.mem_cons.mp hkept with rfl | hkept
    · exact ⟨payload, hfirst⟩
    · exact ih hkept

/-- Calls that were made before stay made. -/
theorem loaded_mono {more : List Move} {engines : List (String × Engine)}
    (h : List.Forall₂ (fun kept payload => ∃ c, Move.execute c ∈ moves ∧
      c.Loads (hosts.map PlanRuntime.runtime) kept.1 payload kept.2) engines payloads) :
    List.Forall₂ (fun kept payload => ∃ c, Move.execute c ∈ moves ++ more ∧
      c.Loads (hosts.map PlanRuntime.runtime) kept.1 payload kept.2) engines payloads := by
  refine h.imp ?_
  rintro kept payload ⟨c, hc, hloads⟩
  exact ⟨c, List.mem_append_left _ hc, hloads⟩

/-- The books after a call. -/
theorem Books.execute (hbooks : Books hosts moves x payloads) (c : Call) :
    ∃ payloads', Books hosts (moves ++ [.execute c]) (x.perform (.execute c)) payloads' := by
  have hmem {d : Call} (hd : Move.execute d ∈ moves ++ [.execute c]) :
      Move.execute d ∈ moves ∨ d = c := by
    simpa using hd
  rcases execute_cases hbooks.isCaching c hbooks.isOpen with ⟨entries, heq, hquiet, hthere⟩ |
    ⟨key, payload, e, entries, hloads, hfree, hquiet, heq⟩
  · -- Nothing is added: a key that the call would load under is there.
    refine ⟨payloads, ?_⟩
    rw [hbooks.runtimes] at hthere
    rw [perform, heq]
    exact {
      runtimes := hbooks.runtimes
      isCaching := hbooks.isCaching
      isOpen := hbooks.isOpen
      loaded := loaded_mono hbooks.loaded
      nodup := hbooks.nodup
      complete := by
        intro d hd
        rcases hmem hd with hd | rfl
        · exact hbooks.complete d hd
        · exact hthere
      ledger := by rw [ledger_note, hbooks.ledger, hquiet] }
  · -- One engine is added, under a key that was free.
    refine ⟨payloads ++ [payload], ?_⟩
    rw [hbooks.runtimes] at hloads
    rw [perform, heq]
    have hkeys : ((x.engines ++ [(key, e)]).map (·.1)) = x.engines.map (·.1) ++ [key] := by
      rw [List.map_append, List.map_singleton]
    exact {
      runtimes := hbooks.runtimes
      isCaching := hbooks.isCaching
      isOpen := hbooks.isOpen
      loaded := List.rel_append (loaded_mono hbooks.loaded)
        (.cons ⟨c, List.mem_append_right _ List.mem_cons_self, hloads⟩ .nil)
      nodup := by
        change ((x.engines ++ [(key, e)]).map (·.1)).Nodup
        rw [hkeys, ← List.concat_eq_append]
        exact hbooks.nodup.concat hfree
      complete := by
        intro d hd key' payload' e' hloads'
        change key' ∈ (x.engines ++ [(key, e)]).map (·.1)
        rw [hkeys]
        rcases hmem hd with hd | rfl
        · exact List.mem_append_left _ (hbooks.complete d hd key' payload' e' hloads')
        · -- The call has one handle, hence one key.
          obtain ⟨h, given, hhandle, -, rfl, -⟩ := hloads
          obtain ⟨h', given', hhandle', -, rfl, -⟩ := hloads'
          obtain rfl := Option.some.inj (hhandle.symm.trans hhandle')
          exact List.mem_append_right _ List.mem_cons_self
      ledger := by
        have hopened : ({ x with engines := x.engines ++ [(key, e)] }.note
            (.engineOpened e.bytes :: entries)).ledger =
              (x.ledger.post (.engineOpened e.bytes)).postAll entries := by
          rw [ledger_note]
          rfl
        rw [hopened, hquiet, hloads.bytes_eq, hbooks.ledger, Ledger.post_engineOpened] }

/-- Closing engines takes their payloads off the ledger. -/
theorem postAll_closed {engines : List (String × Engine)}
    (hsizes : List.Forall₂ (fun kept payload => kept.2.bytes = Int64.ofNat payload.length) engines
      payloads) :
    (Ledger.ofPayloads payloads).postAll
      (engines.map fun kept => Entry.engineClosed kept.2.bytes) = {} := by
  -- The first engine goes with the first payload, and the rest as before.
  induction hsizes with
  | nil => rfl
  | @cons kept payload more rest hsize _ ih =>
    calc (Ledger.ofPayloads (payload :: rest)).postAll
          ((kept :: more).map fun kept => Entry.engineClosed kept.2.bytes)
        = ((Ledger.ofPayloads (payload :: rest)).post (.engineClosed kept.2.bytes)).postAll
            (more.map fun kept => Entry.engineClosed kept.2.bytes) := rfl
      _ = {} := by rw [hsize, Ledger.post_firstClosed, ih]

/-- What closing leaves. -/
theorem close_eq (x : Executor) : x.perform .close =
    { x.note (x.engines.map fun kept => Entry.engineClosed kept.2.bytes) with
      engines := [], isClosed := true } := by
  unfold perform close
  dsimp only
  split <;> rfl

/-- **Closing** takes everything off the books. -/
theorem Books.close (hbooks : Books hosts moves x payloads) : (x.perform .close).Shut := by
  have hsizes : List.Forall₂ (fun kept payload => kept.2.bytes = Int64.ofNat payload.length)
      x.engines payloads := by
    refine hbooks.loaded.imp ?_
    rintro kept payload ⟨c, -, hloads⟩
    exact hloads.bytes_eq
  rw [close_eq]
  refine ⟨hbooks.isCaching, rfl, rfl, ?_⟩
  calc Executor.ledger { x.note (x.engines.map fun kept => Entry.engineClosed kept.2.bytes) with
        engines := [], isClosed := true }
      = x.ledger.postAll (x.engines.map fun kept => Entry.engineClosed kept.2.bytes) :=
        ledger_note x _
    _ = {} := by rw [hbooks.ledger, postAll_closed hsizes]

/-- No move changes what is shut. -/
theorem Shut.perform (hshut : x.Shut) (m : Move) : (x.perform m).Shut := by
  cases m with
  | execute c =>
    rw [Executor.perform, execute_of_isClosed hshut.isCaching c hshut.isClosed]
    exact hshut
  | close =>
    rw [close_eq, hshut.engines, List.map_nil, note_nil]
    exact ⟨hshut.isCaching, rfl, rfl, hshut.ledger⟩

/-- **What every run keeps**: the books of an open executor up to the first close, and a shut
executor from there on. -/
theorem books_or_shut (hmake : make (hosts.map PlanRuntime.runtime) true {} = .ok x)
    (moves : List Move) :
    (Move.close ∉ moves ∧ ∃ payloads, Books hosts moves (x.performAll moves) payloads) ∨
      Move.close ∈ moves ∧ (x.performAll moves).Shut := by
  -- By the last move, since the books speak of all moves before it.
  induction moves using List.reverseRecOn with
  | nil =>
    -- At the start nothing was done and nothing is kept.
    unfold make at hmake
    split at hmake
    next => cases hmake
    next =>
    cases hmake
    refine .inl ⟨List.not_mem_nil, [], rfl, rfl, rfl, .nil, List.nodup_nil, ?_, rfl⟩
    exact fun c hc => absurd hc List.not_mem_nil
  | append_singleton before m ih =>
    rw [performAll_append]
    change (_ ∧ ∃ payloads, Books hosts _ ((x.performAll before).perform m) payloads) ∨
      _ ∧ ((x.performAll before).perform m).Shut
    -- The last move is made on an executor that is open or on one that is shut.
    rcases ih with ⟨hopen, payloads, hbooks⟩ | ⟨hclosed, hshut⟩
    · cases m with
      | execute c => exact .inl ⟨by simpa using hopen, hbooks.execute c⟩
      | close => exact .inr ⟨by simp, hbooks.close⟩
    · exact .inr ⟨List.mem_append_left _ hclosed, hshut.perform m⟩

end Moves

/-- **Cache and counters agree**, after whatever calls and closes, one after the other. No context
is held, as many engines are as the cache has, and the bytes are those of the payloads that were
loaded into them. Before the first close the cache has one engine for each key that a call loaded
under; from the first close on there is nothing in it, and nothing is held. -/
theorem books_agree {hosts : List HostConfig} {x : Executor}
    (hmake : make (hosts.map PlanRuntime.runtime) true {} = .ok x) (moves : List Move) :
    (x.performAll moves).ledger.contexts = 0 ∧
    (x.performAll moves).ledger.engines = Int64.ofNat (x.performAll moves).engines.length ∧
    (∃ payloads, List.Forall₂ (fun kept payload => ∃ c, Move.execute c ∈ moves ∧
        c.Loads (hosts.map PlanRuntime.runtime) kept.1 payload kept.2)
        (x.performAll moves).engines payloads ∧
      (x.performAll moves).ledger.bytes = Int64.ofNat (payloads.map List.length).sum) ∧
    (Move.close ∉ moves → ((x.performAll moves).engines.map (·.1)).Nodup ∧
      ∀ key, key ∈ (x.performAll moves).engines.map (·.1) ↔ ∃ c payload e,
        Move.execute c ∈ moves ∧ c.Loads (hosts.map PlanRuntime.runtime) key payload e) ∧
    (Move.close ∈ moves →
      (x.performAll moves).engines = [] ∧ (x.performAll moves).ledger = {}) := by
  rcases books_or_shut hmake moves with ⟨hopen, payloads, hbooks⟩ | ⟨hclosed, hshut⟩
  · -- Open: the books say it all, key by key.
    have hlength := hbooks.loaded.length_eq
    refine ⟨?_, ?_, ⟨payloads, hbooks.loaded, ?_⟩, fun _ => ⟨hbooks.nodup, fun key => ⟨?_, ?_⟩⟩,
      fun hclosed => absurd hclosed hopen⟩
    · rw [hbooks.ledger]
      rfl
    · rw [hbooks.ledger, hlength]
      rfl
    · rw [hbooks.ledger]
      rfl
    · intro hkey
      obtain ⟨kept, hkept, rfl⟩ := List.mem_map.mp hkey
      obtain ⟨payload, c, hc, hloads⟩ := exists_payload hbooks.loaded hkept
      exact ⟨c, payload, kept.2, hc, hloads⟩
    · rintro ⟨c, payload, e, hc, hloads⟩
      exact hbooks.complete c hc key payload e hloads
  · rw [hshut.ledger, hshut.engines]
    exact ⟨rfl, rfl, ⟨[], .nil, rfl⟩, fun hopen => absurd hclosed hopen, fun _ => ⟨rfl, rfl⟩⟩

end Executor

/-- Two handles of one payload, the second also without its input. -/
def twinMoves : List Executor.Move :=
  twinCalls.map .execute

set_option maxRecDepth 20000 in
theorem length_engines_twinMoves : (planKeeper.performAll twinMoves).engines.length = 1 := by
  decide +kernel

/-- The engine stays until the executor is closed, and a call after that brings nothing back. -/
theorem Executor.books_agree_twins :
    make [PlanRuntime.runtime {}] true {} = .ok planKeeper ∧
    (planKeeper.performAll twinMoves).ledger.engines = 1 ∧
    (planKeeper.performAll (twinMoves ++ [.close] ++ twinMoves)).ledger = {} := by
  have hmake : make ([{}].map PlanRuntime.runtime) true {} = .ok planKeeper := rfl
  refine ⟨hmake, ?_, ?_⟩
  · rw [(books_agree hmake twinMoves).2.1, length_engines_twinMoves]
    rfl
  · obtain ⟨-, -, -, -, hshut⟩ := books_agree hmake (twinMoves ++ [.close] ++ twinMoves)
    have hclosed : Move.close ∈ twinMoves ++ [.close] ++ twinMoves :=
      List.mem_append_left _ (List.mem_append_right _ List.mem_cons_self)
    exact (hshut hclosed).2

end EngineHost

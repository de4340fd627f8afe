import EngineHost.Proofs.CacheTransparency

/-!
# One cache, many calls

Calls that share an executor take turns between critical sections: a look into the cache, the
decision to lead the load of a key or to wait for the call that leads it, the load itself, the
moment the loaded engine is put into the cache, the return of the load, the use of the engine.
`Traffic` is an executor with calls under way, each at its own `Phase`; a schedule is any list of
turns, and the executor may be closed between any two. A call that is left to itself is a call of
the executor (`Traffic.Sound.ends`).

The look into the cache and the decision to lead are two sections. A call can find the cache empty,
be overtaken by another that loads, keeps its engine and returns, and then lead a load of its own.
Its engine takes the place of the other's, which nothing closes any more
(`Traffic.late_leader_leaks`).

`Traffic.leaks_what_it_displaces` says that this is all that can go wrong. Two invariants carry it:

* `Traffic.Sound` — every live engine is in the cache, in the hands of the call that loaded it, or
  among those displaced so far, and the ledger adds up what is live. Every turn keeps it, with what
  the turn displaces added (`Traffic.Sound.step`).
* `Traffic.Vacant` — nobody loads for a key that has an engine. Every turn keeps it but that of a
  late leader, and under it nothing is displaced (`Traffic.Vacant.step`).

What a turn can do is said once, in `Traffic.Moves`.
-/

namespace EngineHost

/-- A loaded engine, told from others by the call that loaded it. -/
structure Loaded where
  call : Nat
  name : String
  engine : Engine

/-- Where a call stands. -/
inductive Phase where
  /-- Not begun. -/
  | ready
  /-- Found nothing in the cache. -/
  | missed
  /-- Leads the load of its key. -/
  | leading
  /-- Has loaded an engine, which is not in the cache yet. -/
  | holding (e : Loaded)
  /-- The load it leads is over but has not returned; others can still join. -/
  | landing (r : Except Failure Loaded)
  /-- Waits for the load that another call leads. -/
  | waiting (leader : Nat)
  /-- Has an engine to run on. -/
  | running (e : Loaded)
  | done (result : Except Failure (List Tensor))

/-- Does the call lead a load that has not returned? -/
def Phase.isLead : Phase → Bool
  | .leading | .holding _ | .landing _ => true
  | _ => false

/-- Does the call lead a load whose engine is not in the cache yet? -/
def Phase.isLoading : Phase → Bool
  | .leading | .holding _ => true
  | _ => false

/-- Has the call not begun, or has it returned? -/
def Phase.isAtRest : Phase → Bool
  | .ready | .done _ => true
  | _ => false

/-- Is it too early for the call to have loaded an engine? -/
def Phase.isEarly : Phase → Bool
  | .ready | .missed | .leading | .waiting _ => true
  | _ => false

/-- What a call asks for, its inputs checked. -/
structure Errand where
  handle : Handle
  inputs : List Tensor
  signal : Signal := .never

/-- What an engine is kept under for it. -/
def Errand.key (r : Errand) : String :=
  Executor.cacheKey r.handle

/-- A caching executor with calls under way. -/
structure Traffic where
  runtimes : List Runtime
  kept : List (String × Loaded) := []
  isClosed : Bool := false
  /-- The loads that can be joined, each with the call that leads it. -/
  flights : List (String × Nat) := []
  /-- What the loads came to that have returned. -/
  returned : List (Nat × Except Failure Loaded) := []
  phase : Nat → Phase := fun _ => .ready
  /-- Every engine ever loaded. -/
  opened : List Loaded := []
  /-- The calls whose engines were closed. -/
  closed : List Nat := []
  opening : Ledger := {}
  journal : List Entry := []

/-- A turn: of a call, or of whoever closes the executor. -/
inductive Turn where
  | call (i : Nat)
  | close
  deriving DecidableEq, Repr

/-! ### Ledgers without an order -/

namespace Ledger

/-- Entries may be posted in either order. -/
theorem post_post_comm (l : Ledger) (e e' : Entry) : (l.post e).post e' = (l.post e').post e := by
  cases e <;> cases e' <;> simp only [post, Ledger.mk.injEq] <;> grind

/-- What is held adds up in any order. -/
theorem carrying_perm (l : Ledger) {held held' : List Holding} (hperm : held.Perm held') :
    l.carrying held = l.carrying held' := by
  induction hperm with
  | nil => rfl
  | cons x _ ih =>
    cases x with
    | engine n => rw [carrying, carrying, ih]
    | context n => rw [carrying, carrying, ih]
  | swap x y held =>
    cases x with
    | engine n =>
      cases y with
      | engine m => exact post_post_comm _ _ _
      | context m => exact post_post_comm _ _ _
    | context n =>
      cases y with
      | engine m => exact post_post_comm _ _ _
      | context m => exact post_post_comm _ _ _
  | trans _ _ ih ih' => exact ih.trans ih'

end Ledger

/-- Engines as holdings. -/
def Loaded.holdings (engines : List Loaded) : List Holding :=
  engines.map fun e => .engine e.engine.bytes

/-- What was held before is left when engines that came after it are closed. -/
theorem Ledger.postAll_engineClosed (l : Ledger) (engines rest : List Loaded) :
    (l.carrying (Loaded.holdings (engines ++ rest))).postAll
      (engines.map fun e => .engineClosed e.engine.bytes) = l.carrying (Loaded.holdings rest) := by
  induction engines with
  | nil => rfl
  | cons e more ih =>
    have hclosed := (l.carrying (Loaded.holdings (more ++ rest))).post_engineClosed e.engine.bytes
    calc (l.carrying (Loaded.holdings (e :: more ++ rest))).postAll
          ((e :: more).map fun e => .engineClosed e.engine.bytes)
        = (((l.carrying (Loaded.holdings (more ++ rest))).post (.engineOpened e.engine.bytes)).post
            (.engineClosed e.engine.bytes)).postAll
            (more.map fun e => .engineClosed e.engine.bytes) := rfl
      _ = l.carrying (Loaded.holdings rest) := by rw [hclosed, ih]

/-- A use of an engine moves no ledger. -/
theorem Executor.postAll_runEngine (e : Engine) (h : Handle) (signal : Signal)
    (inputs : List Tensor) (l : Ledger) : l.postAll (runEngine e h signal inputs).entries = l := by
  -- A ledger is what it is with one engine closed before and opened again.
  have hreplay := replay_runEngine e h signal inputs 0 []
  have hfollow := (l.post (.engineClosed 0)).postAll_of_replay hreplay
  have hopened : (l.post (.engineClosed 0)).carrying [.engine 0] = l := by
    simp only [Ledger.carrying, Ledger.post, Int64.sub_add_cancel]
  rwa [hopened] at hfollow

namespace Traffic

/-- The executor as it stands between turns. -/
def executor (s : Traffic) : Executor where
  runtimes := s.runtimes
  isCaching := true
  engines := s.kept.map fun x => (x.1, x.2.engine)
  isClosed := s.isClosed
  opening := s.opening
  journal := s.journal

/-- The refusal of an executor that is closed. -/
def closedFailure : Failure := .plain "execute: adapter is closed"

/-- An engine as it answers now: one that was closed opens no context. -/
def current (s : Traffic) (e : Loaded) : Engine :=
  if s.closed.contains e.call then
    { e.engine with
      context := .error (.plain ("engine " ++ Text.quote e.name ++ " is closed")) }
  else e.engine

/-- What a call does with the result of a load. -/
def proceed : Except Failure Loaded → Phase
  | .error f => .done (.error f)
  | .ok e => .running e

/-- Keeps an engine under a key, in the place of whatever was there. -/
def keep (kept : List (String × Loaded)) (key : String) (e : Loaded) : List (String × Loaded) :=
  kept.filter (·.1 ≠ key) ++ [(key, e)]

/-- Closes engines. -/
def shut (s : Traffic) (engines : List Loaded) : Traffic :=
  { s with
    closed := engines.map (·.call) ++ s.closed
    journal := s.journal ++ engines.map fun e => .engineClosed e.engine.bytes }

/-- What a call does to what is shared. -/
inductive Effect where
  | nothing
  | lead
  | load (e : Loaded)
  | discard (e : Loaded)
  | keep (e : Loaded)
  | land (r : Except Failure Loaded)
  | use (entries : List Entry)

variable (errands : Nat → Errand)

/-- The next step of a call: where it stands then, and what it does to what is shared. -/
def next (s : Traffic) (i : Nat) : Phase × Effect :=
  match s.phase i with
  | .ready =>
    if s.isClosed then (.done (.error closedFailure), .nothing)
    else
      match s.kept.lookup (errands i).key with
      | some e => (.running e, .nothing)
      | none => (.missed, .nothing)
  | .missed =>
    match s.flights.lookup (errands i).key with
    | some leader => (.waiting leader, .nothing)
    | none => (.leading, .lead)
  | .leading =>
    match Executor.load s.runtimes (errands i).handle with
    | .error f => (.landing (.error f), .nothing)
    | .ok e =>
      (.holding ⟨i, (errands i).handle.name, e⟩, .load ⟨i, (errands i).handle.name, e⟩)
  | .holding e =>
    if s.isClosed then (.landing (.error closedFailure), .discard e)
    else (.landing (.ok e), .keep e)
  | .landing r => (proceed r, .land r)
  | .waiting leader =>
    match s.returned.lookup leader with
    | some r => (proceed r, .nothing)
    | none => (.waiting leader, .nothing)
  | .running e =>
    let run := Executor.runEngine (s.current e) (errands i).handle (errands i).signal
      (errands i).inputs
    (.done run.result, .use run.entries)
  | .done result => (.done result, .nothing)

/-- What is shared after a call has done its part. -/
def apply (s : Traffic) (i : Nat) : Effect → Traffic
  | .nothing => s
  | .lead => { s with flights := ((errands i).key, i) :: s.flights }
  | .load e =>
    { s with opened := e :: s.opened, journal := s.journal ++ [.engineOpened e.engine.bytes] }
  | .discard e => s.shut [e]
  | .keep e => { s with kept := keep s.kept (errands i).key e }
  | .land r => { s with flights := s.flights.filter (·.2 ≠ i), returned := (i, r) :: s.returned }
  | .use entries => { s with journal := s.journal ++ entries }

/-- A call gets to another place. -/
def goto (s : Traffic) (i : Nat) (p : Phase) : Traffic :=
  { s with phase := Function.update s.phase i p }

/-- One turn. A call that waits for a load that has not returned, or is done, stays where it is. -/
def step (s : Traffic) : Turn → Traffic
  | .call i => (s.apply errands i (s.next errands i).2).goto i (s.next errands i).1
  | .close => { s.shut (s.kept.map (·.2)) with kept := [], isClosed := true }

/-- Turn after turn. -/
def run (s : Traffic) (schedule : List Turn) : Traffic :=
  schedule.foldl (step errands) s

/-! ### What a turn can do -/

/-- **What the next step of a call can be**, by where the call stands. -/
inductive Moves (s : Traffic) (i : Nat) : Phase × Effect → Prop
  /-- Neither before nor after does the call lead a load. -/
  | quiet {p : Phase} (hbefore : (s.phase i).isLead = false) (hafter : p.isLead = false)
      (hearly : p.isEarly = true → (s.phase i).isEarly = true) : Moves s i (p, .nothing)
  | lead (hphase : s.phase i = .missed) (hnone : s.flights.lookup (errands i).key = none) :
      Moves s i (.leading, .lead)
  | fail {f : Failure} (hphase : s.phase i = .leading) : Moves s i (.landing (.error f), .nothing)
  | load {e : Loaded} (hphase : s.phase i = .leading) (hcall : e.call = i) :
      Moves s i (.holding e, .load e)
  | discard {e : Loaded} (hphase : s.phase i = .holding e) (hclosed : s.isClosed = true) :
      Moves s i (.landing (.error closedFailure), .discard e)
  | keep {e : Loaded} (hphase : s.phase i = .holding e) (hopen : s.isClosed = false) :
      Moves s i (.landing (.ok e), .keep e)
  | land {r : Except Failure Loaded} (hphase : s.phase i = .landing r) :
      Moves s i (proceed r, .land r)
  /-- A use gives back all that it takes. -/
  | use {e : Loaded} {entries : List Entry} {result : Except Failure (List Tensor)}
      (hphase : s.phase i = .running e) (hledger : ∀ l : Ledger, l.postAll entries = l) :
      Moves s i (.done result, .use entries)

/-- After a load has returned, its call leads none. -/
theorem isLead_proceed (r : Except Failure Loaded) : (proceed r).isLead = false := by
  cases r with
  | error f => rfl
  | ok e => rfl

/-- A call that goes on from a load is not early any more. -/
theorem isEarly_proceed (r : Except Failure Loaded) : (proceed r).isEarly = false := by
  cases r with
  | error f => rfl
  | ok e => rfl

/-- **Every step of a call is one of the moves.** -/
theorem next_moves (s : Traffic) (i : Nat) : Moves errands s i (s.next errands i) := by
  unfold next
  cases hphase : s.phase i with
  | ready =>
    dsimp only
    have hbefore : (s.phase i).isLead = false := hphase ▸ rfl
    have hearly : (s.phase i).isEarly = true := hphase ▸ rfl
    split
    next => exact .quiet hbefore rfl fun _ => hearly
    next =>
      split
      next => exact .quiet hbefore rfl fun _ => hearly
      next => exact .quiet hbefore rfl fun _ => hearly
  | missed =>
    dsimp only
    split
    next => exact .quiet (hphase ▸ rfl) rfl fun _ => hphase ▸ rfl
    next hnone => exact .lead hphase hnone
  | leading =>
    dsimp only
    split
    next => exact .fail hphase
    next => exact .load hphase rfl
  | holding e =>
    dsimp only
    split
    next hclosed => exact .discard hphase hclosed
    next hopen => exact .keep hphase (Bool.not_eq_true _ ▸ hopen)
  | landing r => exact .land hphase
  | waiting leader =>
    dsimp only
    split
    next r _ => exact .quiet (hphase ▸ rfl) (isLead_proceed r) fun _ => hphase ▸ rfl
    next => exact .quiet (hphase ▸ rfl) rfl fun _ => hphase ▸ rfl
  | running e => exact .use hphase fun l => Executor.postAll_runEngine _ _ _ _ l
  | done result =>
    refine .quiet (hphase ▸ rfl) rfl fun h => ?_
    cases h

/-! ### What is live, and what the ledger says -/

/-- The engines that were loaded and not closed. -/
def live (s : Traffic) : List Loaded :=
  s.opened.filter fun e => !s.closed.contains e.call

/-- An engine is live if it was loaded and not closed. -/
theorem mem_live {s : Traffic} {e : Loaded} :
    e ∈ s.live ↔ e ∈ s.opened ∧ e.call ∉ s.closed := by
  simp [live]

/-- Closing engines leaves the other live ones. -/
theorem live_shut (s : Traffic) (engines : List Loaded) :
    (s.shut engines).live = s.live.filter fun e => !(engines.map (·.call)).contains e.call := by
  rw [live, live, List.filter_filter]
  congr 1
  funext e
  simp [shut, Bool.not_or]

/-- Engines that are closed go from the ledger, whatever order they were loaded in. -/
theorem ledger_shut {s : Traffic} {engines : List Loaded}
    (hledger : s.executor.ledger = s.opening.carrying (Loaded.holdings s.live))
    (hunique : (s.opened.map (·.call)).Nodup) (hnodup : engines.Nodup)
    (hlive : ∀ e ∈ engines, e ∈ s.live) :
    (s.shut engines).executor.ledger =
      s.opening.carrying (Loaded.holdings (s.shut engines).live) := by
  -- What was live is what is closed now and what is still live, in some order.
  have hperm : s.live.Perm (engines ++ (s.shut engines).live) := by
    rw [live_shut]
    refine (List.filter_append_perm (fun e => (engines.map (·.call)).contains e.call) _).symm.trans
      (List.Perm.append_right _ ?_)
    have hlivedup : s.live.Nodup := hunique.of_map.filter _
    rw [List.perm_ext_iff_of_nodup (hlivedup.filter _) hnodup]
    intro e
    rw [List.mem_filter, List.contains_iff_mem, List.mem_map]
    constructor
    · rintro ⟨hmem, e', hmem', hcall⟩
      -- Two engines of one call are one engine.
      have heq := List.inj_on_of_nodup_map hunique (mem_live.mp (hlive e' hmem')).1
        (mem_live.mp hmem).1 hcall
      exact heq ▸ hmem'
    · exact fun hmem => ⟨hlive e hmem, e, hmem, rfl⟩
  calc (s.shut engines).executor.ledger
      = s.executor.ledger.postAll (engines.map fun e => .engineClosed e.engine.bytes) :=
        Ledger.postAll_append _ _ _
    _ = (s.opening.carrying (Loaded.holdings (engines ++ (s.shut engines).live))).postAll
          (engines.map fun e => .engineClosed e.engine.bytes) := by
        rw [hledger, Loaded.holdings, Ledger.carrying_perm _ (hperm.map _), Loaded.holdings]
    _ = s.opening.carrying (Loaded.holdings (s.shut engines).live) :=
        Ledger.postAll_engineClosed _ engines _

/-! ### Where every engine is -/

/-- The engines that a turn puts out of the cache by putting another in their place. -/
def displaced (s : Traffic) : Turn → List Loaded
  | .close => []
  | .call i =>
    match s.phase i with
    | .holding _ =>
      if s.isClosed then [] else (s.kept.filter (·.1 = (errands i).key)).map (·.2)
    | _ => []

/-- The engines that were put out of the cache along a schedule. -/
def displacedAlong (s : Traffic) : List Turn → List Loaded
  | [] => []
  | t :: more => s.displaced errands t ++ displacedAlong (s.step errands t) more

/-- **Every live engine is in one place**: in the cache, in the hands of the call that loaded it, or
among those that were put out of the cache. -/
structure Sound (s : Traffic) (lost : List Loaded) : Prop where
  early : ∀ e ∈ s.opened, (s.phase e.call).isEarly = false
  unique : (s.opened.map (·.call)).Nodup
  known : ∀ c ∈ s.closed, c ∈ s.opened.map (·.call)
  held : ∀ i e, s.phase i = .holding e →
    e.call = i ∧ e ∈ s.live ∧ e ∉ s.kept.map (·.2) ∧ e ∉ lost
  kept : ∀ x ∈ s.kept, x.1 = (errands x.2.call).key ∧ x.2 ∈ s.live ∧ x.2 ∉ lost
  keys : (s.kept.map (·.1)).Nodup
  lost_live : ∀ e ∈ lost, e ∈ s.live
  lost_nodup : lost.Nodup
  emptied : s.isClosed = true → s.kept = []
  accounted : ∀ e ∈ s.live,
    e ∈ s.kept.map (·.2) ∨ s.phase e.call = .holding e ∨ e ∈ lost
  ledger : s.executor.ledger = s.opening.carrying (Loaded.holdings s.live)

namespace Sound

variable {errands} {s : Traffic} {lost : List Loaded} (h : s.Sound errands lost)

include h

/-- Live engines of one call are one engine. -/
theorem eq_of_call {e e' : Loaded} (he : e ∈ s.live) (he' : e' ∈ s.live)
    (hcall : e.call = e'.call) : e = e' :=
  List.inj_on_of_nodup_map h.unique (mem_live.mp he).1 (mem_live.mp he').1 hcall

/-- A call that is too early has loaded nothing. -/
theorem call_ne {i : Nat} (hearly : (s.phase i).isEarly = true) {e : Loaded} (he : e ∈ s.opened) :
    e.call ≠ i := by
  rintro rfl
  rw [h.early e he] at hearly
  cases hearly

/-- The engines in the cache are different engines. -/
theorem kept_nodup : (s.kept.map (·.2)).Nodup := by
  -- An engine in the cache has the key of its call, and the keys differ.
  have hkeys : s.kept.map (·.1) = (s.kept.map (·.2)).map fun e => (errands e.call).key := by
    rw [List.map_map]
    exact List.map_congr_left fun x hx => (h.kept x hx).1
  exact (hkeys ▸ h.keys).of_map

/-- Engines in the cache are live and not lost. -/
theorem live_of_mem_kept {e : Loaded} (he : e ∈ s.kept.map (·.2)) : e ∈ s.live ∧ e ∉ lost := by
  obtain ⟨x, hx, rfl⟩ := List.mem_map.mp he
  exact (h.kept x hx).2

end Sound

/-! ### What a turn does to where the engines are -/

/-- The call is where it went. -/
theorem phase_goto (s : Traffic) (i : Nat) (p : Phase) : (s.goto i p).phase i = p := by
  simp only [goto, Function.update_self]

/-- The other calls are where they were. -/
theorem phase_goto_of_ne (s : Traffic) {i j : Nat} (hj : j ≠ i) (p : Phase) :
    (s.goto i p).phase j = s.phase j := by
  simp only [goto, Function.update_of_ne hj]

/-- Where calls are too early after one has moved on, they were too early before. -/
theorem goto_early {s : Traffic} {i : Nat} {p : Phase}
    (hearly : p.isEarly = true → (s.phase i).isEarly = true) (j : Nat)
    (hj : ((s.goto i p).phase j).isEarly = true) : (s.phase j).isEarly = true := by
  by_cases heq : j = i
  · subst heq
    rw [phase_goto] at hj
    exact hearly hj
  · rwa [phase_goto_of_ne s heq] at hj

/-- A call that leads no load has no engine in its hands. -/
theorem ne_holding {p : Phase} (h : p.isLead = false) (e : Loaded) : p ≠ .holding e := by
  rintro rfl
  cases h

/-- In the cache is what was in it under other keys, and the engine. -/
theorem mem_keep {kept : List (String × Loaded)} {key : String} {e : Loaded} {x : String × Loaded} :
    x ∈ keep kept key e ↔ (x ∈ kept ∧ x.1 ≠ key) ∨ x = (key, e) := by
  rw [keep, List.mem_append, List.mem_filter, List.mem_singleton, decide_eq_true_iff]

/-- No key is in the cache twice. -/
theorem keys_keep {kept : List (String × Loaded)} (hkeys : (kept.map (·.1)).Nodup) (key : String)
    (e : Loaded) : ((keep kept key e).map (·.1)).Nodup := by
  rw [keep, List.map_append, List.map_singleton, List.nodup_append]
  refine ⟨hkeys.sublist (List.filter_sublist.map _), List.nodup_singleton _, ?_⟩
  intro k hk k' hk'
  obtain ⟨x, hx, rfl⟩ := List.mem_map.mp hk
  rw [List.mem_singleton.mp hk']
  exact of_decide_eq_true (List.mem_filter.mp hx).2

/-- Without an engine in its hands a call displaces nothing. -/
theorem displaced_of_ne {s : Traffic} {i : Nat} (hphase : ∀ e, s.phase i ≠ .holding e) :
    s.displaced errands (.call i) = [] := by
  rw [displaced]
  split
  next e heq => exact absurd heq (hphase e)
  next => rfl

/-- Once the executor is closed nothing is displaced. -/
theorem displaced_of_closed {s : Traffic} (hclosed : s.isClosed = true) (t : Turn) :
    s.displaced errands t = [] := by
  cases t with
  | close => rfl
  | call i =>
    rw [displaced]
    split
    next => exact if_pos hclosed
    next => rfl

/-- What is displaced by putting an engine into the cache. -/
theorem displaced_of_holding {s : Traffic} {i : Nat} {e : Loaded} (hphase : s.phase i = .holding e)
    (hopen : s.isClosed = false) : s.displaced errands (.call i) =
      (s.kept.filter (·.1 = (errands i).key)).map (·.2) := by
  rw [displaced, hphase]
  exact if_neg (Bool.eq_false_iff.mp hopen)

namespace Sound

variable {errands} {s : Traffic} {lost : List Loaded} (h : s.Sound errands lost) {i : Nat}
  {e : Loaded}

include h

/-- A call moves on without an engine in its hands, before or after, and without a change to
engines. -/
theorem moveOn {s' : Traffic} {p : Phase} (hopened : s'.opened = s.opened)
    (hclosed : s'.closed = s.closed) (hkept : s'.kept = s.kept)
    (hisClosed : s'.isClosed = s.isClosed)
    (hopening : s'.opening = s.opening) (hphase : s'.phase = s.phase)
    (hledger : s'.executor.ledger = s.executor.ledger) (hbefore : ∀ e, s.phase i ≠ .holding e)
    (hafter : ∀ e, p ≠ .holding e) (hearly : p.isEarly = true → (s.phase i).isEarly = true) :
    (s'.goto i p).Sound errands (lost ++ s.displaced errands (.call i)) := by
  have hlive : (s'.goto i p).live = s.live := by rw [live, live, ← hopened, ← hclosed]; rfl
  -- The call has nothing in its hands before or after, so all hands are as they were.
  have hholding : ∀ j e, (s'.goto i p).phase j = .holding e ↔ s.phase j = .holding e := by
    intro j e
    by_cases hj : j = i
    · subst hj
      rw [phase_goto]
      exact iff_of_false (hafter e) (hbefore e)
    · rw [phase_goto_of_ne _ hj, hphase]
  rw [displaced_of_ne errands hbefore, List.append_nil]
  refine {
    early := ?early, unique := ?unique, known := ?known, held := ?held, kept := ?kept
    keys := ?keys, lost_live := ?lost_live, lost_nodup := h.lost_nodup, emptied := ?emptied
    accounted := ?accounted, ledger := ?ledger }
  case early =>
    intro e he
    have hlate := h.early e (hopened ▸ he)
    refine Bool.eq_false_iff.mpr fun htrue => Bool.eq_false_iff.mp hlate ?_
    have hsame := goto_early (s := s') (hphase ▸ hearly) e.call htrue
    rwa [hphase] at hsame
  case unique =>
    change (s'.opened.map (·.call)).Nodup
    rw [hopened]
    exact h.unique
  case known =>
    change ∀ c ∈ s'.closed, c ∈ s'.opened.map (·.call)
    rw [hopened, hclosed]
    exact h.known
  case held =>
    intro j e he
    rw [hlive]
    change _ ∧ _ ∧ e ∉ s'.kept.map (·.2) ∧ _
    rw [hkept]
    exact h.held j e ((hholding j e).mp he)
  case kept =>
    rw [hlive]
    change ∀ x ∈ s'.kept, _
    rw [hkept]
    exact h.kept
  case keys =>
    change (s'.kept.map (·.1)).Nodup
    rw [hkept]
    exact h.keys
  case lost_live =>
    rw [hlive]
    exact h.lost_live
  case emptied =>
    change s'.isClosed = true → s'.kept = []
    rw [hisClosed, hkept]
    exact h.emptied
  case accounted =>
    intro e he
    rw [hholding]
    change e ∈ s'.kept.map (·.2) ∨ _
    rw [hkept]
    exact h.accounted e (hlive ▸ he)
  case ledger =>
    rw [hlive]
    change s'.executor.ledger = s'.opening.carrying _
    rw [hledger, hopening]
    exact h.ledger

/-- An engine is loaded. It is in the hands of the call. -/
theorem load (hphase : s.phase i = .leading) (hcall : e.call = i) :
    ((s.apply errands i (.load e)).goto i (.holding e)).Sound errands lost := by
  -- The call has loaded nothing before, so no engine that there is bears its number.
  have hother : ∀ e' ∈ s.opened, e'.call ≠ i := fun e' he' => h.call_ne (hphase ▸ rfl) he'
  have hnew : e ∉ s.live := fun he => hother e (mem_live.mp he).1 hcall
  -- What was closed had been loaded, and by another call.
  have hunclosed : e.call ∉ s.closed := by
    intro hmem
    obtain ⟨e', he', heq⟩ := List.mem_map.mp (h.known _ hmem)
    exact hother e' he' (heq.trans hcall)
  have hlive : ((s.apply errands i (.load e)).goto i (.holding e)).live = e :: s.live := by
    change (e :: s.opened).filter (fun e => !s.closed.contains e.call) = _
    rw [List.filter_cons_of_pos (by simpa using hunclosed)]
    rfl
  have hphases : ∀ e' ∈ s.opened,
      ((s.apply errands i (.load e)).goto i (.holding e)).phase e'.call =
      s.phase e'.call := fun e' he' => phase_goto_of_ne _ (hother e' he') _
  refine {
    early := ?early, unique := ?unique, known := ?known, held := ?held, kept := ?kept
    keys := h.keys, lost_live := ?lost_live, lost_nodup := h.lost_nodup, emptied := h.emptied
    accounted := ?accounted, ledger := ?ledger }
  case early =>
    intro e' he'
    rcases List.mem_cons.mp he' with rfl | hold
    · rw [hcall, phase_goto]
      rfl
    · rw [hphases e' hold]
      exact h.early e' hold
  case unique =>
    refine List.nodup_cons.mpr ⟨?_, h.unique⟩
    rw [List.mem_map]
    rintro ⟨e', he', heq⟩
    exact hother e' he' (heq.trans hcall)
  case known =>
    exact fun c hc => List.mem_cons.mpr (.inr (h.known c hc))
  case held =>
    intro j e' he'
    rw [hlive]
    by_cases hj : j = i
    · subst hj
      rw [phase_goto] at he'
      obtain rfl := Phase.holding.inj he'
      exact ⟨hcall, List.mem_cons_self, fun hkept => hnew (h.live_of_mem_kept hkept).1,
        fun hlost => hnew (h.lost_live _ hlost)⟩
    · rw [phase_goto_of_ne _ hj] at he'
      obtain ⟨hcall', hlive', hrest⟩ := h.held j e' he'
      exact ⟨hcall', List.mem_cons_of_mem _ hlive', hrest⟩
  case kept =>
    intro x hx
    rw [hlive]
    obtain ⟨hkey, hlive', hlost⟩ := h.kept x hx
    exact ⟨hkey, List.mem_cons_of_mem _ hlive', hlost⟩
  case lost_live =>
    intro e' he'
    rw [hlive]
    exact List.mem_cons_of_mem _ (h.lost_live e' he')
  case accounted =>
    intro e' he'
    rw [hlive] at he'
    rcases List.mem_cons.mp he' with rfl | hold
    · rw [hcall, phase_goto]
      exact .inr (.inl rfl)
    · rw [hphases e' (mem_live.mp hold).1]
      exact h.accounted e' hold
  case ledger =>
    rw [hlive]
    calc (s.apply errands i (.load e)).executor.ledger
        = s.executor.ledger.postAll [.engineOpened e.engine.bytes] := Ledger.postAll_append _ _ _
      _ = s.opening.carrying (Loaded.holdings (e :: s.live)) := by
          rw [h.ledger]
          rfl

/-- Engines are closed and the cache is empty. No engine in other hands is touched. -/
theorem shut {engines : List Loaded} (hnodup : engines.Nodup)
    (hengines : ∀ e ∈ engines, e ∈ s.live ∧ e ∉ lost) (hkept : ∀ e ∈ s.kept.map (·.2), e ∈ engines)
    {phase : Nat → Phase} (hearly : ∀ j, (phase j).isEarly = true → (s.phase j).isEarly = true)
    (hholding : ∀ j e, phase j = .holding e ↔ s.phase j = .holding e ∧ e ∉ engines) :
    Sound errands { s.shut engines with kept := [], isClosed := true, phase } lost := by
  -- Calls tell live engines apart, so what is closed are these engines and no others.
  have hclosed : ∀ e, e ∈ (s.shut engines).live ↔ e ∈ s.live ∧ e ∉ engines := by
    intro e
    rw [live_shut, List.mem_filter, Bool.not_eq_true', ← Bool.not_eq_true, List.contains_iff_mem,
      List.mem_map]
    refine and_congr_right fun he => not_congr ⟨?_, fun hmem => ⟨e, hmem, rfl⟩⟩
    rintro ⟨e', hmem, hcall⟩
    exact h.eq_of_call (hengines e' hmem).1 he hcall ▸ hmem
  refine {
    early := ?early, unique := h.unique, known := ?known, held := ?held, kept := ?kept
    keys := List.nodup_nil, lost_live := ?lost_live, lost_nodup := h.lost_nodup
    emptied := fun _ => rfl, accounted := ?accounted, ledger := ?ledger }
  case early =>
    intro e he
    have hlate := h.early e he
    exact Bool.eq_false_iff.mpr fun htrue => Bool.eq_false_iff.mp hlate (hearly _ htrue)
  case known =>
    intro c hc
    rcases List.mem_append.mp hc with hnew | hold
    · obtain ⟨e, he, rfl⟩ := List.mem_map.mp hnew
      exact List.mem_map_of_mem (mem_live.mp (hengines e he).1).1
    · exact h.known c hold
  case held =>
    intro j e he
    obtain ⟨hold, hmem⟩ := (hholding j e).mp he
    obtain ⟨hcall, hlive, -, hlost⟩ := h.held j e hold
    exact ⟨hcall, (hclosed e).mpr ⟨hlive, hmem⟩, List.not_mem_nil, hlost⟩
  case kept =>
    exact fun x hx => absurd hx List.not_mem_nil
  case lost_live =>
    exact fun e he => (hclosed e).mpr ⟨h.lost_live e he, fun hmem => (hengines e hmem).2 he⟩
  case accounted =>
    intro e he
    obtain ⟨hlive, hmem⟩ := (hclosed e).mp he
    -- The cache is closed as a whole, and what is in other hands stays there.
    rcases h.accounted e hlive with hkeep | hhold | hlost
    · exact absurd (hkept e hkeep) hmem
    · exact .inr (.inl ((hholding e.call e).mpr ⟨hhold, hmem⟩))
    · exact .inr (.inr hlost)
  case ledger =>
    exact ledger_shut h.ledger h.unique hnodup fun e he => (hengines e he).1

/-- The executor is closed. -/
theorem close : (s.step errands .close).Sound errands lost := by
  refine h.shut h.kept_nodup (fun e he => h.live_of_mem_kept he) (fun e he => he)
    (fun _ hj => hj) ?_
  exact fun j e => ⟨fun he => ⟨he, (h.held j e he).2.2.1⟩, fun he => he.1⟩

/-- An engine is closed by the call that loaded it, because the executor is closed. -/
theorem discard {p : Phase} (hphase : s.phase i = .holding e) (hisClosed : s.isClosed = true)
    (hafter : ∀ e, p ≠ .holding e) (hearly : p.isEarly = false) :
    ((s.apply errands i (.discard e)).goto i p).Sound errands lost := by
  obtain ⟨hcall, hlive, -, hlost⟩ := h.held i e hphase
  have hempty := h.emptied hisClosed
  -- The cache is empty already, so this is a closing of one engine.
  have hstate : (s.apply errands i (.discard e)).goto i p =
      { s.shut [e] with
        kept := [], isClosed := true, phase := Function.update s.phase i p } := by
    rw [← hempty, ← hisClosed]
    rfl
  rw [hstate]
  refine h.shut (List.nodup_singleton e) ?_ ?_ (goto_early fun htrue => ?_) fun j e' => ?_
  · exact fun e' he' => List.mem_singleton.mp he' ▸ ⟨hlive, hlost⟩
  · exact fun e' he' => absurd he' (by rw [hempty]; exact List.not_mem_nil)
  · rw [hearly] at htrue
    cases htrue
  · rw [List.mem_singleton]
    change (s.goto i p).phase j = .holding e' ↔ _
    by_cases hj : j = i
    · subst hj
      rw [phase_goto, hphase]
      refine iff_of_false (hafter e') ?_
      rintro ⟨heq, hne⟩
      exact hne (Phase.holding.inj heq).symm
    · -- Another call has an engine of its own in its hands.
      rw [phase_goto_of_ne s hj]
      refine ⟨fun he' => ⟨he', ?_⟩, fun he' => he'.1⟩
      rintro rfl
      exact hj ((h.held j e' he').1.symm.trans hcall)

/-- Out of the cache goes what was in it under the key. -/
theorem mem_displaced (hphase : s.phase i = .holding e) (hopen : s.isClosed = false) {e' : Loaded} :
    e' ∈ s.displaced errands (.call i) ↔
      e' ∈ s.kept.map (·.2) ∧ (errands e'.call).key = (errands i).key := by
  rw [displaced_of_holding errands hphase hopen, List.mem_map, List.mem_map]
  constructor
  · rintro ⟨x, hx, rfl⟩
    obtain ⟨hx, hkey⟩ := List.mem_filter.mp hx
    exact ⟨⟨x, hx, rfl⟩, (h.kept x hx).1.symm.trans (of_decide_eq_true hkey)⟩
  · rintro ⟨⟨x, hx, rfl⟩, hkey⟩
    exact ⟨x, List.mem_filter.mpr ⟨hx, decide_eq_true ((h.kept x hx).1.trans hkey)⟩, rfl⟩

/-- What was lost and what is displaced are different live engines. -/
theorem lost_displaced (hphase : s.phase i = .holding e) (hopen : s.isClosed = false) :
    (∀ e' ∈ lost ++ s.displaced errands (.call i), e' ∈ s.live) ∧
      (lost ++ s.displaced errands (.call i)).Nodup := by
  -- Displaced engines come out of the cache, so they are live and were not lost before.
  have hout : ∀ e' ∈ s.displaced errands (.call i), e' ∈ s.live ∧ e' ∉ lost :=
    fun e' he' => h.live_of_mem_kept ((h.mem_displaced hphase hopen).mp he').1
  constructor
  · intro e' he'
    rcases List.mem_append.mp he' with hold | hnew
    · exact h.lost_live e' hold
    · exact (hout e' hnew).1
  · rw [List.nodup_append]
    refine ⟨h.lost_nodup, ?_, ?_⟩
    · rw [displaced_of_holding errands hphase hopen]
      exact h.kept_nodup.sublist (List.filter_sublist.map _)
    · rintro e' hold e'' hnew rfl
      exact (hout e' hnew).2 hold

/-- An engine is put into the cache. What it displaces is lost. -/
theorem keep (hphase : s.phase i = .holding e) (hopen : s.isClosed = false) :
    ((s.apply errands i (.keep e)).goto i (.landing (.ok e))).Sound errands
      (lost ++ s.displaced errands (.call i)) := by
  obtain ⟨rfl, hlive, hkept, hlost⟩ := h.held i e hphase
  obtain ⟨hlostlive, hlostnodup⟩ := h.lost_displaced hphase hopen
  refine {
    early := ?early, unique := h.unique, known := h.known, held := ?held, kept := ?kept
    keys := keys_keep h.keys _ e, lost_live := hlostlive, lost_nodup := hlostnodup
    emptied := ?emptied, accounted := ?accounted, ledger := h.ledger }
  case early =>
    intro e' he'
    have hlate := h.early e' he'
    refine Bool.eq_false_iff.mpr fun htrue => Bool.eq_false_iff.mp hlate ?_
    exact goto_early (s := s) (fun hlanding => by cases hlanding) _ htrue
  case held =>
    intro j e' he'
    -- Whoever holds an engine now is another call.
    by_cases hj : j = e.call
    · subst hj
      rw [phase_goto] at he'
      cases he'
    rw [phase_goto_of_ne _ hj] at he'
    obtain ⟨hcall, hlive', hkept', hlost'⟩ := h.held j e' he'
    refine ⟨hcall, hlive', ?_, ?_⟩
    · rw [List.mem_map]
      rintro ⟨x, hx, rfl⟩
      rcases mem_keep.mp hx with ⟨hx, -⟩ | rfl
      · exact hkept' (List.mem_map_of_mem hx)
      · exact hj hcall.symm
    · rw [List.mem_append, h.mem_displaced hphase hopen]
      rintro (hmem | ⟨hmem, -⟩)
      · exact hlost' hmem
      · exact hkept' hmem
  case kept =>
    intro x hx
    rw [List.mem_append, h.mem_displaced hphase hopen]
    -- Under other keys the cache is as it was, and the engine was neither in it nor lost.
    rcases mem_keep.mp hx with ⟨hx, hne⟩ | rfl
    · obtain ⟨hkey, hlive', hlost'⟩ := h.kept x hx
      exact ⟨hkey, hlive', not_or.mpr ⟨hlost', fun hmem => hne (hkey.trans hmem.2)⟩⟩
    · exact ⟨rfl, hlive, not_or.mpr ⟨hlost, fun hmem => hkept hmem.1⟩⟩
  case emptied =>
    intro hclosed
    cases hclosed.symm.trans hopen
  case accounted =>
    intro e' he'
    rcases h.accounted e' he' with hkept' | hheld | hlost'
    · -- An engine in the cache stays there, unless its key is the one that is taken.
      by_cases hkey : (errands e'.call).key = (errands e.call).key
      · have hout := (h.mem_displaced hphase hopen).mpr ⟨hkept', hkey⟩
        exact .inr (.inr (List.mem_append.mpr (.inr hout)))
      · obtain ⟨x, hx, rfl⟩ := List.mem_map.mp hkept'
        have hne : x.1 ≠ (errands e.call).key := fun heq => hkey ((h.kept x hx).1.symm.trans heq)
        exact .inl (List.mem_map_of_mem (mem_keep.mpr (.inl ⟨hx, hne⟩)))
    · -- An engine in the hands of a call is the one that goes into the cache, or stays there.
      by_cases hj : e'.call = e.call
      · obtain rfl := h.eq_of_call he' hlive hj
        exact .inl (List.mem_map.mpr ⟨_, mem_keep.mpr (.inr rfl), rfl⟩)
      · exact .inr (.inl ((phase_goto_of_ne _ hj _).trans hheld))
    · exact .inr (.inr (List.mem_append.mpr (.inl hlost')))

/-- **One turn.** -/
theorem step (t : Turn) :
    (s.step errands t).Sound errands (lost ++ s.displaced errands t) := by
  cases t with
  | close => exact (List.append_nil lost).symm ▸ h.close
  | call i =>
    change ((s.apply errands i (s.next errands i).2).goto i (s.next errands i).1).Sound errands _
    have hmove := next_moves errands s i
    generalize s.next errands i = n at hmove
    -- Three of the moves concern engines; all others only move the call on.
    cases hmove with
    | quiet hbefore hafter hearly =>
      exact h.moveOn rfl rfl rfl rfl rfl rfl rfl (ne_holding hbefore) (ne_holding hafter) hearly
    | lead hphase hnone =>
      exact h.moveOn rfl rfl rfl rfl rfl rfl rfl (hphase ▸ nofun) nofun fun _ => hphase ▸ rfl
    | fail hphase =>
      exact h.moveOn rfl rfl rfl rfl rfl rfl rfl (hphase ▸ nofun) nofun nofun
    | load hphase hcall =>
      rw [displaced_of_ne errands (hphase ▸ nofun), List.append_nil]
      exact h.load hphase hcall
    | discard hphase hclosed =>
      rw [displaced_of_closed errands hclosed, List.append_nil]
      exact h.discard hphase hclosed nofun rfl
    | keep hphase hopen => exact h.keep hphase hopen
    | @land r hphase =>
      refine h.moveOn rfl rfl rfl rfl rfl rfl rfl (hphase ▸ nofun)
        (ne_holding (isLead_proceed r)) ?_
      rw [isEarly_proceed]
      exact nofun
    | use hphase hledger =>
      refine h.moveOn rfl rfl rfl rfl rfl rfl ?_ (hphase ▸ nofun) nofun nofun
      exact (Ledger.postAll_append _ _ _).trans (hledger _)

/-- **Turn after turn.** -/
theorem run (schedule : List Turn) : (s.run errands schedule).Sound errands
    (lost ++ s.displacedAlong errands schedule) := by
  -- What was lost so far grows with each turn.
  induction schedule generalizing s lost with
  | nil => exact (List.append_nil lost).symm ▸ h
  | cons t more ih =>
    have hstep := ih (h.step t)
    rw [List.append_assoc] at hstep
    exact hstep

end Sound

/-! ### Late leaders -/

/-- Does a call start to lead a load although an engine is kept under its key? It looked into the
cache before that engine was there. -/
def isLate (s : Traffic) : Turn → Bool
  | .close => false
  | .call i =>
    match s.phase i with
    | .missed =>
      (s.flights.lookup (errands i).key).isNone && (s.kept.lookup (errands i).key).isSome
    | _ => false

/-- Along a schedule no call is late. -/
def Punctual (s : Traffic) : List Turn → Prop
  | [] => True
  | t :: more => s.isLate errands t = false ∧ Punctual (s.step errands t) more

instance decidablePunctual (s : Traffic) :
    (schedule : List Turn) → Decidable (s.Punctual errands schedule)
  | [] => .isTrue trivial
  | t :: more =>
    have := decidablePunctual (s.step errands t) more
    inferInstanceAs (Decidable (_ ∧ _))

/-- **Loads are for vacant keys**: each is announced, one at a time for a key, and until its engine
is put into the cache the cache has none under the key. -/
structure Vacant (s : Traffic) : Prop where
  announced : ∀ i, (s.phase i).isLead = true → ((errands i).key, i) ∈ s.flights
  single : (s.flights.map (·.1)).Nodup
  vacant : ∀ i, (s.phase i).isLoading = true → ∀ x ∈ s.kept, x.1 ≠ (errands i).key

/-- A call that loads leads a load. -/
theorem isLead_of_isLoading {p : Phase} (h : p.isLoading = true) : p.isLead = true := by
  cases p with
  | leading => rfl
  | holding e => rfl
  | _ => cases h

/-- What is not found under a key is not there. -/
theorem ne_of_lookup_eq_none {β : Type} {table : List (String × β)} {key : String}
    (h : table.lookup key = none) (x : String × β) (hx : x ∈ table) : x.1 ≠ key := by
  rintro rfl
  simpa using List.lookup_eq_none_iff.mp h x hx

namespace Vacant

variable {errands} {s : Traffic} (h : s.Vacant errands) {i : Nat}

include h

/-- Calls that lead loads of one key are one call. -/
theorem eq_of_key {j : Nat} (hi : (s.phase i).isLead = true) (hj : (s.phase j).isLead = true)
    (hkey : (errands i).key = (errands j).key) : i = j :=
  congrArg Prod.snd (List.inj_on_of_nodup_map h.single (h.announced i hi) (h.announced j hj) hkey)

/-- A call moves on without a change to the loads and the cache. -/
theorem moveOn {s' : Traffic} {p : Phase} (hflights : s'.flights = s.flights)
    (hkept : s'.kept = s.kept) (hphase : s'.phase = s.phase)
    (hlead : p.isLead = true → (s.phase i).isLead = true)
    (hloading : p.isLoading = true → (s.phase i).isLoading = true) :
    (s'.goto i p).Vacant errands := by
  refine { announced := ?announced, single := ?single, vacant := ?vacant }
  case announced =>
    intro j hj
    change _ ∈ s'.flights
    rw [hflights]
    by_cases heq : j = i
    · subst heq
      rw [phase_goto] at hj
      exact h.announced j (hlead hj)
    · rw [phase_goto_of_ne _ heq, hphase] at hj
      exact h.announced j hj
  case single =>
    change (s'.flights.map (·.1)).Nodup
    rw [hflights]
    exact h.single
  case vacant =>
    intro j hj
    change ∀ x ∈ s'.kept, _
    rw [hkept]
    by_cases heq : j = i
    · subst heq
      rw [phase_goto] at hj
      exact h.vacant j (hloading hj)
    · rw [phase_goto_of_ne _ heq, hphase] at hj
      exact h.vacant j hj

/-- A call starts to lead, and is not late. -/
theorem lead (hphase : s.phase i = .missed) (hnone : s.flights.lookup (errands i).key = none)
    (hpunctual : s.isLate errands (.call i) = false) :
    ((s.apply errands i .lead).goto i .leading).Vacant errands := by
  -- No load of the key can be joined, so being in time means that the cache has no engine for it.
  have hvacant : s.kept.lookup (errands i).key = none := by
    rw [isLate, hphase, hnone] at hpunctual
    simpa using hpunctual
  refine { announced := ?announced, single := ?single, vacant := ?vacant }
  case announced =>
    intro j hj
    by_cases heq : j = i
    · subst heq
      exact List.mem_cons_self
    · rw [phase_goto_of_ne _ heq] at hj
      exact List.mem_cons_of_mem _ (h.announced j hj)
  case single =>
    refine List.nodup_cons.mpr ⟨?_, h.single⟩
    intro hmem
    obtain ⟨x, hx, hkey⟩ := List.mem_map.mp hmem
    exact ne_of_lookup_eq_none hnone x hx hkey
  case vacant =>
    intro j hj
    by_cases heq : j = i
    · subst heq
      exact ne_of_lookup_eq_none hvacant
    · rw [phase_goto_of_ne _ heq] at hj
      exact h.vacant j hj

/-- An engine is put into the cache. No other call loads for its key. -/
theorem keep {e : Loaded} (hphase : s.phase i = .holding e) :
    ((s.apply errands i (.keep e)).goto i (.landing (.ok e))).Vacant errands := by
  have hlead : (s.phase i).isLead = true := hphase ▸ rfl
  refine { announced := ?announced, single := h.single, vacant := ?vacant }
  case announced =>
    intro j hj
    by_cases heq : j = i
    · subst heq
      exact h.announced j hlead
    · rw [phase_goto_of_ne _ heq] at hj
      exact h.announced j hj
  case vacant =>
    intro j hj x hx
    by_cases heq : j = i
    · subst heq
      rw [phase_goto] at hj
      cases hj
    · rw [phase_goto_of_ne _ heq] at hj
      -- The key that is taken is that of a call that leads a load, and no other call leads one for
      -- it.
      rcases mem_keep.mp hx with ⟨hx, -⟩ | rfl
      · exact h.vacant j hj x hx
      · exact fun hkey => heq (h.eq_of_key (isLead_of_isLoading hj) hlead hkey.symm)

/-- A load returns and can no longer be joined. -/
theorem land {r : Except Failure Loaded} :
    ((s.apply errands i (.land r)).goto i (proceed r)).Vacant errands := by
  -- Whoever leads a load now is another call.
  have hother : ∀ j, (((s.apply errands i (.land r)).goto i (proceed r)).phase j).isLead = true →
      j ≠ i ∧ (s.phase j).isLead = true := by
    intro j hj
    by_cases heq : j = i
    · subst heq
      rw [phase_goto, isLead_proceed] at hj
      cases hj
    · rw [phase_goto_of_ne _ heq] at hj
      exact ⟨heq, hj⟩
  refine {
    announced := ?announced, single := h.single.sublist (List.filter_sublist.map _)
    vacant := ?vacant }
  case announced =>
    intro j hj
    obtain ⟨hne, hlead⟩ := hother j hj
    exact List.mem_filter.mpr ⟨h.announced j hlead, decide_eq_true hne⟩
  case vacant =>
    intro j hj
    obtain ⟨hne, -⟩ := hother j (isLead_of_isLoading hj)
    rw [phase_goto_of_ne _ hne] at hj
    exact h.vacant j hj

/-- **One turn**, not of a call that is late: loads stay for vacant keys and nothing is
displaced. -/
theorem step {t : Turn} (hpunctual : s.isLate errands t = false) :
    (s.step errands t).Vacant errands ∧ s.displaced errands t = [] := by
  cases t with
  | close => exact ⟨⟨h.announced, h.single, fun _ _ x hx => absurd hx List.not_mem_nil⟩, rfl⟩
  | call i =>
    change ((s.apply errands i (s.next errands i).2).goto i (s.next errands i).1).Vacant errands ∧ _
    have hmove := next_moves errands s i
    generalize s.next errands i = n at hmove
    cases hmove with
    | quiet hbefore hafter hearly =>
      refine ⟨h.moveOn rfl rfl rfl ?_ ?_, displaced_of_ne errands (ne_holding hbefore)⟩
      · rw [hafter]
        exact nofun
      · intro hloading
        rw [isLead_of_isLoading hloading] at hafter
        cases hafter
    | lead hphase hnone =>
      exact ⟨h.lead hphase hnone hpunctual, displaced_of_ne errands (hphase ▸ nofun)⟩
    | fail hphase =>
      exact ⟨h.moveOn rfl rfl rfl (fun _ => hphase ▸ rfl) nofun,
        displaced_of_ne errands (hphase ▸ nofun)⟩
    | load hphase hcall =>
      exact ⟨h.moveOn rfl rfl rfl (fun _ => hphase ▸ rfl) (fun _ => hphase ▸ rfl),
        displaced_of_ne errands (hphase ▸ nofun)⟩
    | discard hphase hclosed =>
      exact ⟨h.moveOn rfl rfl rfl (fun _ => hphase ▸ rfl) nofun,
        displaced_of_closed errands hclosed _⟩
    | keep hphase hopen =>
      -- The only turn that can displace an engine: the key has been vacant since the load began.
      refine ⟨h.keep hphase, ?_⟩
      rw [displaced_of_holding errands hphase hopen, List.map_eq_nil_iff, List.filter_eq_nil_iff]
      exact fun x hx hkey => h.vacant i (hphase ▸ rfl) x hx (of_decide_eq_true hkey)
    | land hphase => exact ⟨h.land, displaced_of_ne errands (hphase ▸ nofun)⟩
    | use hphase hledger =>
      exact ⟨h.moveOn rfl rfl rfl nofun nofun, displaced_of_ne errands (hphase ▸ nofun)⟩

/-- **Turn after turn**, no call being late, nothing is displaced. -/
theorem displacedAlong_eq_nil {schedule : List Turn} (hpunctual : s.Punctual errands schedule) :
    s.displacedAlong errands schedule = [] := by
  -- Each turn leaves loads for vacant keys, so the next one displaces nothing either.
  induction schedule generalizing s with
  | nil => rfl
  | cons t more ih =>
    obtain ⟨hvacant, hnone⟩ := h.step hpunctual.1
    rw [displacedAlong, hnone, List.nil_append]
    exact ih hvacant hpunctual.2

end Vacant

/-! ### A call by itself -/

/-- An engine is found in the executor where it is found in the cache. -/
theorem lookup_engines (kept : List (String × Loaded)) (key : String) :
    (kept.map fun x => (x.1, x.2.engine)).lookup key = (kept.lookup key).map (·.engine) := by
  induction kept with
  | nil => rfl
  | cons x more ih =>
    rw [List.map_cons, List.lookup_cons, List.lookup_cons]
    cases key == x.1 with
    | true => rfl
    | false => exact ih

/-- Left to itself, a call ends with a result and leaves the executor in a state. -/
def Ends (s : Traffic) (i : Nat) (result : Except Failure (List Tensor)) (x : Executor) : Prop :=
  ∃ n, (s.run errands (List.replicate n (.call i))).phase i = .done result ∧
    (s.run errands (List.replicate n (.call i))).executor = x

section Alone

variable {errands} {s : Traffic} {i : Nat} {e : Loaded} {x : Executor}

/-- One turn ahead. -/
theorem Ends.of_next {p : Phase} {effect : Effect} {result : Except Failure (List Tensor)}
    (hnext : s.next errands i = (p, effect))
    (h : ((s.apply errands i effect).goto i p).Ends errands i result x) :
    s.Ends errands i result x := by
  obtain ⟨n, hn⟩ := h
  refine ⟨n + 1, ?_⟩
  rw [List.replicate_succ, run, List.foldl_cons, step, hnext]
  exact hn

/-- A call that is done has ended. -/
theorem ends_done {result : Except Failure (List Tensor)} (hphase : s.phase i = .done result) :
    s.Ends errands i result s.executor :=
  ⟨0, hphase, rfl⟩

/-- From the engine on. -/
theorem ends_running (hphase : s.phase i = .running e) (hopen : e.call ∉ s.closed) :
    let run := Executor.runEngine e.engine (errands i).handle (errands i).signal (errands i).inputs
    s.Ends errands i run.result (s.executor.note run.entries) := by
  intro run
  -- The engine was not closed, so it answers as it was loaded.
  have hcurrent : s.current e = e.engine := if_neg (by simpa using hopen)
  have hnext : s.next errands i = (.done run.result, .use run.entries) := by
    rw [next, hphase]
    dsimp only
    rw [hcurrent]
  exact .of_next hnext (ends_done (phase_goto _ _ _))

/-- From the return of the load on. -/
theorem ends_landing_error {f : Failure} (hphase : s.phase i = .landing (.error f)) :
    s.Ends errands i (.error f) s.executor := by
  have hnext : s.next errands i = (.done (.error f), .land (.error f)) := by
    rw [next, hphase]
    rfl
  exact .of_next hnext (ends_done (phase_goto _ _ _))

/-- From the return of a load that succeeded on. -/
theorem ends_landing_ok (hphase : s.phase i = .landing (.ok e)) (hopen : e.call ∉ s.closed) :
    let run := Executor.runEngine e.engine (errands i).handle (errands i).signal (errands i).inputs
    s.Ends errands i run.result (s.executor.note run.entries) := by
  have hnext : s.next errands i = (.running e, .land (.ok e)) := by
    rw [next, hphase]
    rfl
  exact .of_next hnext (ends_running (phase_goto _ _ _) hopen)

/-- From the moment on when the engine is put into the cache, under a key that has none. -/
theorem ends_holding (hphase : s.phase i = .holding e) (hisOpen : s.isClosed = false)
    (hopen : e.call ∉ s.closed) (hnone : s.kept.lookup (errands i).key = none) :
    let run := Executor.runEngine e.engine (errands i).handle (errands i).signal (errands i).inputs
    s.Ends errands i run.result (Executor.note { s.executor with
      engines := s.executor.engines ++ [((errands i).key, e.engine)] } run.entries) := by
  -- Nothing has the key, so the engine is put behind all others.
  have hkept : (keep s.kept (errands i).key e).map (fun x => (x.1, x.2.engine)) =
      s.executor.engines ++ [((errands i).key, e.engine)] := by
    rw [keep, List.filter_eq_self.mpr fun x hx =>
      decide_eq_true (ne_of_lookup_eq_none hnone x hx), List.map_append]
    rfl
  have hnext : s.next errands i = (.landing (.ok e), .keep e) := by
    rw [next, hphase]
    exact if_neg (Bool.eq_false_iff.mp hisOpen)
  rw [← hkept]
  exact .of_next hnext (ends_landing_ok (phase_goto _ _ _) hopen)

/-- From the load on. -/
theorem ends_leading (hphase : s.phase i = .leading) (hisOpen : s.isClosed = false)
    (hopen : i ∉ s.closed) (hnone : s.kept.lookup (errands i).key = none)
    (hlookup : s.executor.engines.lookup (Executor.cacheKey (errands i).handle) = none)
    {inputs : List (Option Tensor)}
    (hinputs : Executor.checkInputs (errands i).handle inputs = .ok (errands i).inputs) :
    let called := s.executor.execute (errands i).signal inputs (some (errands i).handle)
    s.Ends errands i called.1 called.2.2 := by
  have hkept := Executor.keptEngine_miss (x := s.executor) hisOpen hlookup
  dsimp only
  -- The executor loads what the call loads, from the same runtimes.
  cases hload : Executor.load s.runtimes (errands i).handle with
  | error f =>
    rw [show Executor.load s.executor.runtimes (errands i).handle = .error f from hload] at hkept
    rw [Executor.execute_of_keptEngine_error rfl hinputs _ hkept]
    have hnext : s.next errands i = (.landing (.error f), .nothing) := by
      rw [next, hphase]
      dsimp only
      rw [hload]
    exact .of_next hnext (ends_landing_error (phase_goto _ _ _))
  | ok e =>
    rw [show Executor.load s.executor.runtimes (errands i).handle = .ok e from hload] at hkept
    rw [Executor.execute_of_keptEngine_ok rfl hinputs _ hkept]
    have hnext : s.next errands i = (.holding ⟨i, (errands i).handle.name, e⟩,
        .load ⟨i, (errands i).handle.name, e⟩) := by
      rw [next, hphase]
      dsimp only
      rw [hload]
    rw [← Executor.note_note]
    exact .of_next hnext (ends_holding (phase_goto _ _ _) hisOpen hopen hnone)

/-- **A call that is left to itself** is a call of the executor, in its result and in what it does
to the executor. -/
theorem Sound.ends {lost : List Loaded} (h : s.Sound errands lost) (hphase : s.phase i = .ready)
    (hflight : s.flights.lookup (errands i).key = none) {inputs : List (Option Tensor)}
    (hinputs : Executor.checkInputs (errands i).handle inputs = .ok (errands i).inputs) :
    let called := s.executor.execute (errands i).signal inputs (some (errands i).handle)
    s.Ends errands i called.1 called.2.2 := by
  have hengines : s.executor.engines.lookup (Executor.cacheKey (errands i).handle) =
      (s.kept.lookup (errands i).key).map (·.engine) := lookup_engines s.kept _
  dsimp only
  -- As the executor does: refuse once closed, take the engine that is kept, or load one.
  cases hclosed : s.isClosed with
  | true =>
    have hkept : s.executor.keptEngine (errands i).handle = .error closedFailure := if_pos hclosed
    rw [Executor.execute_of_keptEngine_error rfl hinputs _ hkept]
    have hnext : s.next errands i = (.done (.error closedFailure), .nothing) := by
      rw [next, hphase]
      exact if_pos hclosed
    exact .of_next hnext (ends_done (phase_goto _ _ _))
  | false =>
  have hopen : ¬s.isClosed = true := Bool.eq_false_iff.mp hclosed
  cases hlookup : s.kept.lookup (errands i).key with
  | some e =>
    rw [hlookup] at hengines
    rw [Executor.execute_of_keptEngine_ok rfl hinputs _
      (Executor.keptEngine_hit (x := s.executor) hclosed hengines)]
    have hlive := (h.kept _ (mem_of_lookup hlookup)).2.1
    have hnext : s.next errands i = (.running e, .nothing) := by
      rw [next, hphase]
      dsimp only
      rw [if_neg hopen, hlookup]
    exact .of_next hnext (ends_running (phase_goto _ _ _) (mem_live.mp hlive).2)
  | none =>
    rw [hlookup] at hengines
    -- A call that has not begun has loaded nothing that could have been closed.
    have hunclosed : i ∉ s.closed := by
      intro hmem
      obtain ⟨e', he', heq⟩ := List.mem_map.mp (h.known i hmem)
      exact h.call_ne (hphase ▸ rfl) he' heq
    have hmiss : s.next errands i = (.missed, .nothing) := by
      rw [next, hphase]
      dsimp only
      rw [if_neg hopen, hlookup]
    have hlead : (s.goto i .missed).next errands i = (.leading, .lead) := by
      rw [next, phase_goto]
      dsimp only
      rw [show (s.goto i .missed).flights = s.flights from rfl, hflight]
    have hends := ends_leading (s := ((s.goto i .missed).apply errands i .lead).goto i .leading)
      (phase_goto _ _ _) hclosed hunclosed hlookup hengines hinputs
    exact .of_next hmiss (.of_next hlead hends)

end Alone

/-! ### All calls -/

/-- Nothing has happened yet. -/
def start (runtimes : List Runtime) (opening : Ledger) : Traffic :=
  { runtimes, opening }

/-- In the beginning there are no engines. -/
theorem sound_start (runtimes : List Runtime) (opening : Ledger) :
    (start runtimes opening).Sound errands [] where
  early _ he := absurd he List.not_mem_nil
  unique := List.nodup_nil
  known _ hc := absurd hc List.not_mem_nil
  held _ _ he := nomatch he
  kept _ hx := absurd hx List.not_mem_nil
  keys := List.nodup_nil
  lost_live _ he := absurd he List.not_mem_nil
  lost_nodup := List.nodup_nil
  emptied _ := rfl
  accounted _ he := absurd he List.not_mem_nil
  ledger := rfl

/-- In the beginning there are no loads. -/
theorem vacant_start (runtimes : List Runtime) (opening : Ledger) :
    (start runtimes opening).Vacant errands where
  announced _ hi := nomatch hi
  single := List.nodup_nil
  vacant _ hi := nomatch hi

/-- The ledger to count from stays. -/
theorem opening_run (s : Traffic) (schedule : List Turn) :
    (s.run errands schedule).opening = s.opening := by
  induction schedule generalizing s with
  | nil => rfl
  | cons t more ih =>
    have hstep : (s.step errands t).opening = s.opening := by
      cases t with
      | close => rfl
      | call i =>
        change (s.apply errands i (s.next errands i).2).opening = s.opening
        cases (s.next errands i).2 <;> rfl
    exact (ih (s.step errands t)).trans hstep

/-- Every call that began has returned. -/
def Returned (s : Traffic) : Prop :=
  ∀ i, (s.phase i).isAtRest = true

/-- Closing loads nothing. -/
theorem close_fields (s : Traffic) : (s.step errands .close).opened = s.opened ∧
    (s.step errands .close).isClosed = true :=
  ⟨rfl, rfl⟩

/-- Closing moves no call. -/
theorem Returned.close {s : Traffic} (h : s.Returned) : (s.step errands .close).Returned :=
  h

/-- A call that gets no turn stays where it is. -/
theorem phase_run_of_notMem {schedule : List Turn} {i : Nat} (h : Turn.call i ∉ schedule)
    (s : Traffic) : (s.run errands schedule).phase i = s.phase i := by
  induction schedule generalizing s with
  | nil => rfl
  | cons t more ih =>
    rw [List.mem_cons, not_or] at h
    have hstep : (s.step errands t).phase i = s.phase i := by
      cases t with
      | close => rfl
      | call j =>
        have hne : i ≠ j := fun heq => h.1 (heq ▸ rfl)
        -- Whatever a call does to what is shared, it moves no call.
        have happly : (s.apply errands j (s.next errands j).2).phase = s.phase := by
          cases (s.next errands j).2 <;> rfl
        exact (phase_goto_of_ne _ hne _).trans (congrFun happly i)
    exact (ih h.2 (s.step errands t)).trans hstep

namespace Sound

variable {errands} {s : Traffic} {lost : List Loaded} (h : s.Sound errands lost)

include h

/-- Where nothing is lost, a live engine whose load has returned is in the cache. -/
theorem mem_kept (hnone : lost = []) {e : Loaded} (he : e ∈ s.live)
    (hlanded : (s.phase e.call).isLead = false) : ((errands e.call).key, e) ∈ s.kept := by
  rcases h.accounted e he with hkept | hheld | hlost
  · obtain ⟨x, hx, rfl⟩ := List.mem_map.mp hkept
    rw [← (h.kept x hx).1]
    exact hx
  · exact absurd hheld (ne_holding hlanded e)
  · rw [hnone] at hlost
    exact absurd hlost List.not_mem_nil

/-- In the end the live engines are the lost ones. -/
theorem live_perm_lost (hreturned : s.Returned) (hclosed : s.isClosed = true) :
    s.live.Perm lost := by
  have hnodup : s.live.Nodup := h.unique.of_map.filter _
  rw [List.perm_ext_iff_of_nodup hnodup h.lost_nodup]
  refine fun e => ⟨fun he => ?_, h.lost_live e⟩
  rcases h.accounted e he with hkept | hheld | hlost
  · -- Closing has emptied the cache.
    rw [h.emptied hclosed] at hkept
    exact absurd hkept List.not_mem_nil
  · -- A call with an engine in its hands has not returned.
    have hrest := hreturned e.call
    rw [hheld] at hrest
    cases hrest
  · exact hlost

end Sound

/-- **The cache leaks what it displaces, and nothing else.** Whatever turns are taken by whatever
calls over whatever runtimes:

* as long as no engine was displaced, no two live engines whose loads have returned share a key;
* once all calls have returned and the executor is closed, the engines that are still live are those
  that were displaced, so every engine was closed exactly if none was, and the ledger says the same;
* an engine is displaced only by a call that starts a load although its key has an engine by
  then. -/
theorem leaks_what_it_displaces (runtimes : List Runtime) (opening : Ledger)
    (schedule : List Turn) : let s := (start runtimes opening).run errands schedule
    let lost := (start runtimes opening).displacedAlong errands schedule
    (lost = [] → ∀ e ∈ s.live, ∀ e' ∈ s.live, (s.phase e.call).isLead = false →
      (s.phase e'.call).isLead = false → (errands e.call).key = (errands e'.call).key → e = e') ∧
    (s.Returned → s.isClosed = true →
      ((∀ e ∈ s.opened, e.call ∈ s.closed) ↔ lost = []) ∧
      s.executor.ledger = opening.carrying (Loaded.holdings lost)) ∧
    ((start runtimes opening).Punctual errands schedule → lost = []) := by
  intro s lost
  have hsound : s.Sound errands lost := (sound_start errands runtimes opening).run schedule
  refine ⟨fun hnone => ?_, fun hreturned hclosed => ?_,
    fun hpunctual => (vacant_start errands runtimes opening).displacedAlong_eq_nil hpunctual⟩
  · -- Both are in the cache, which has one engine under a key.
    intro e he e' he' hlanded hlanded' hkey
    have hkept := hsound.mem_kept hnone he hlanded
    have hkept' := hsound.mem_kept hnone he' hlanded'
    exact congrArg Prod.snd (List.inj_on_of_nodup_map hsound.keys hkept hkept' hkey)
  · have hperm := hsound.live_perm_lost hreturned hclosed
    refine ⟨⟨fun hall => ?_, fun hnone e he => ?_⟩, ?_⟩
    · -- A lost engine is live, so it was not closed.
      refine List.eq_nil_iff_forall_not_mem.mpr fun e he => ?_
      have hmem := mem_live.mp (hsound.lost_live e he)
      exact hmem.2 (hall e hmem.1)
    · -- An engine that was not closed is live, hence lost.
      by_contra hunclosed
      have hmem := hperm.mem_iff.mp (mem_live.mpr ⟨he, hunclosed⟩)
      rw [hnone] at hmem
      exact absurd hmem List.not_mem_nil
    · rw [hsound.ledger, opening_run]
      exact Ledger.carrying_perm _ (hperm.map _)

end Traffic

/-- Any number of calls, all with the same handle and inputs. -/
def sameErrand : Nat → Errand :=
  fun _ => ⟨copyThenRectifyHandle, [twoOnes], .never⟩

/-- All calls share a key. -/
theorem sameErrand_key (i j : Nat) : (sameErrand i).key = (sameErrand j).key :=
  rfl

/-- Nothing held, and the runtime of plans. -/
def idleTraffic : Traffic :=
  .start [PlanRuntime.runtime {}] {}

/-- Where only two calls have turns, the others need not be looked at. -/
theorem returned_of_two (schedule : List Turn)
    (hcalls : ∀ t ∈ schedule, t = .call 0 ∨ t = .call 1 ∨ t = .close)
    (hfirst : ((idleTraffic.run sameErrand schedule).phase 0).isAtRest = true)
    (hsecond : ((idleTraffic.run sameErrand schedule).phase 1).isAtRest = true) :
    (idleTraffic.run sameErrand schedule).Returned := by
  intro i
  match i with
  | 0 => exact hfirst
  | 1 => exact hsecond
  | i + 2 =>
    -- The other calls have no turn, so they have not begun.
    have hnone : Turn.call (i + 2) ∉ schedule := by
      intro hmem
      rcases hcalls _ hmem with heq | heq | heq
      · cases heq
      · cases heq
      · cases heq
    rw [Traffic.phase_run_of_notMem sameErrand hnone]
    rfl

/-- The second call joins the load of the first. -/
def joiningTurns : List Turn :=
  [.call 0, .call 1, .call 0, .call 1, .call 0, .call 0, .call 0, .call 1, .call 1, .call 0, .close]

set_option maxRecDepth 20000 in
/-- What these turns come to. -/
theorem joiningTurns_values :
    let s := idleTraffic.run sameErrand joiningTurns
    idleTraffic.Punctual sameErrand joiningTurns ∧ (s.phase 0).isAtRest = true ∧
      (s.phase 1).isAtRest = true ∧ s.isClosed = true ∧ s.opened.map (·.call) = [0] := by
  decide +kernel

/-- The calls share one engine, which is closed in the end. -/
theorem Traffic.leaks_what_it_displaces_joining :
    let s := idleTraffic.run sameErrand joiningTurns
    s.Returned ∧ s.isClosed = true ∧ s.opened.map (·.call) = [0] ∧
      (∀ e ∈ s.opened, e.call ∈ s.closed) ∧ s.executor.ledger = {} := by
  obtain ⟨hpunctual, hfirst, hsecond, hclosed, hopened⟩ := joiningTurns_values
  obtain ⟨-, hend, hnone⟩ :=
    leaks_what_it_displaces sameErrand [PlanRuntime.runtime {}] {} joiningTurns
  have hreturned := returned_of_two joiningTurns (by decide) hfirst hsecond
  obtain ⟨hall, hledger⟩ := hend hreturned hclosed
  rw [hnone hpunctual] at hall hledger
  exact ⟨hreturned, hclosed, hopened, hall.mpr rfl, hledger⟩

/-- Both calls look into the cache before either loads. The second starts its load when the first
has returned. -/
def lateTurns : List Turn :=
  [.call 0, .call 1] ++ List.replicate 5 (.call 0) ++ List.replicate 5 (.call 1)

/-- The traffic after these turns, before the executor is closed. -/
def lateTraffic : Traffic :=
  idleTraffic.run sameErrand lateTurns

set_option maxRecDepth 20000 in
/-- What the late turns come to. -/
theorem lateTraffic_values :
    lateTraffic.live.map (·.call) = [1, 0] ∧ (lateTraffic.phase 0).isAtRest = true ∧
      (lateTraffic.phase 1).isAtRest = true ∧ (lateTraffic.step sameErrand .close).closed = [1] ∧
      (lateTraffic.step sameErrand .close).executor.ledger = ⟨1, 0, 113⟩ := by
  decide +kernel

/-- Both engines are live. -/
theorem exists_live_late {i : Nat} (hi : i ∈ [1, 0]) : ∃ e ∈ lateTraffic.live, e.call = i :=
  List.mem_map.mp (lateTraffic_values.1 ▸ hi)

/-- Both calls have returned. -/
theorem returned_lateTraffic : lateTraffic.Returned :=
  returned_of_two lateTurns (by decide) lateTraffic_values.2.1 lateTraffic_values.2.2.1

/-- **A late leader leaks an engine.** Its load displaces the engine of the first call: two engines
are live under one key, and the first is never closed. -/
theorem Traffic.late_leader_leaks :
    (∃ e ∈ lateTraffic.live, ∃ e' ∈ lateTraffic.live, (lateTraffic.phase e.call).isAtRest = true ∧
      (lateTraffic.phase e'.call).isAtRest = true ∧
      (sameErrand e.call).key = (sameErrand e'.call).key ∧ e ≠ e') ∧
    (lateTraffic.step sameErrand .close).Returned ∧
    (lateTraffic.step sameErrand .close).isClosed = true ∧
    (∃ e ∈ (lateTraffic.step sameErrand .close).opened,
      e.call ∉ (lateTraffic.step sameErrand .close).closed) ∧
    (lateTraffic.step sameErrand .close).executor.ledger = ⟨1, 0, 113⟩ := by
  obtain ⟨e, he, hcall⟩ := exists_live_late (i := 0) (by decide)
  obtain ⟨e', he', hcall'⟩ := exists_live_late (i := 1) (by decide)
  obtain ⟨-, hfirst, hsecond, hclosed, hledger⟩ := lateTraffic_values
  obtain ⟨hopened, hisClosed⟩ := close_fields sameErrand lateTraffic
  rw [← hcall] at hfirst
  rw [← hcall'] at hsecond
  refine ⟨⟨e, he, e', he', hfirst, hsecond, sameErrand_key _ _, ?_⟩,
    returned_lateTraffic.close sameErrand, hisClosed, ⟨e, ?_, ?_⟩, hledger⟩
  · rintro rfl
    cases hcall.symm.trans hcall'
  · rw [hopened]
    exact (mem_live.mp he).1
  · rw [hclosed, hcall]
    decide

end EngineHost

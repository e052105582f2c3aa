import RedLease.Lib.Family
import RedLease.Lib.Trans
import RedLease.Server.Operations

/-!
# The server's goroutines

One server instance as a system of threads: a worker for each shard (`runShard`), which takes
operations from its queue and applies them, and the goroutines that run background passes of
`removeExpiredKeys`. They share the shards, each behind its lock, and the counter `keys`, which is
only touched by atomic loads and compare-and-swaps. A thread moves from one such access to the next;
what it computes in between is local and belongs to the step before. The locks are fields of the
state, and a step that has to wait for one is not enabled.

The label of a step says which thread moves and what the outside decides: the operation that is
dequeued, the reading of the clock, what a `sync.Pool` returns.

`step_sound` in `Capacity.lean` says everything a step can do to the stored entries and that the
invariant `Inv` is kept, accounting included; `Promise.lean` draws the consequences for a granted
lease.
-/

namespace RedLease.Server

open Lib LeaseShard

/-- `serverPhase`. -/
inductive Phase where
  | quarantine | active | failed | closed
  deriving DecidableEq, Repr

/-- What the goroutines of a `Server` share. -/
structure Shared (n : Nat) where
  phase : Phase
  clock : Time
  keys : Nat
  shards : Fin n → LeaseShard
  mu : Fin n → Bool
  cleanupMu : Bool

namespace Shared

variable {n : Nat}

/-- `fail`: a closed server stays closed. -/
def fail (sh : Shared n) : Shared n :=
  if sh.phase = .closed then sh else { sh with phase := .failed }

/-- Shard `i` becomes `shard`. -/
def setShard (sh : Shared n) (i : Fin n) (shard : LeaseShard) : Shared n :=
  { sh with shards := Function.update sh.shards i shard }

/-- `shard.mu.Lock()`. -/
def lock (sh : Shared n) (i : Fin n) : Shared n := { sh with mu := Function.update sh.mu i true }

/-- `shard.mu.Unlock()`. -/
def unlock (sh : Shared n) (i : Fin n) : Shared n :=
  { sh with mu := Function.update sh.mu i false }

/-- The load in the loop of `releaseKeys`; no value means that the count was larger. -/
def releaseLoad (sh : Shared n) (count : Nat) : Shared n × Option Nat :=
  if sh.keys < count then (sh.fail, none) else (sh, some sh.keys)

/-- The compare-and-swap in the loop of `releaseKeys`. -/
def releaseSwap (sh : Shared n) (count current : Nat) : Shared n × Bool :=
  if sh.keys = current then ({ sh with keys := current - count }, true) else (sh, false)

/-- The number of entries in all shards. -/
def total (sh : Shared n) : Nat := ∑ i, (sh.shards i).size

end Shared

/-! ## The threads -/

/-- Where a pass of `removeExpiredKeys` stands: before the lock, before the next shard, and in the
loop of `releaseKeys`. -/
inductive Pass where
  | lock (now : Time)
  | scan (now : Time) (next deleted : Nat)
  | load (deleted : Nat)
  | swap (deleted current : Nat)

/-- The next atomic step of a pass; no next state means that it is over. -/
def Pass.step {n : Nat} (sh : Shared n) : Pass → Option (Shared n × Option Pass)
  | .lock now =>
    if sh.cleanupMu then none else some ({ sh with cleanupMu := true }, some (.scan now 0 0))
  | .scan now next deleted =>
    if h : next < n then
      if sh.mu ⟨next, h⟩ then none
      else
        let r := (sh.shards ⟨next, h⟩).removeExpiredLeases now
        some (sh.setShard ⟨next, h⟩ r.1, some (.scan now (next + 1) (deleted + r.2)))
    else if deleted = 0 then some ({ sh with cleanupMu := false }, none)
    else some (sh, some (.load deleted))
  | .load deleted =>
    match sh.releaseLoad deleted with
    | (sh, some current) => some (sh, some (.swap deleted current))
    | (sh, none) => some ({ sh with cleanupMu := false }, none)
  | .swap deleted current =>
    match sh.releaseSwap deleted current with
    | (sh, true) => some ({ sh with cleanupMu := false }, none)
    | (sh, false) => some (sh, some (.load deleted))

/-- An operation that `apply` is at work on, the time it read, and `cleanupAttempted`. -/
structure Job where
  op : Operation
  now : Time
  cleanupAttempted : Bool

/-- Where the worker of a shard stands: without an operation, before and after the check of
`active`, before the lock of the shard, in `releaseKeys(1)` with the response if there is one
already, in `reserveKey`, before `addLease`, in a capacity-triggered cleanup, or with a response. -/
inductive Worker where
  | idle
  | dequeued (op : Operation)
  | admitted (op : Operation)
  | lock (job : Job)
  | releaseLoad (job : Job) (response : Option Response)
  | releaseSwap (job : Job) (response : Option Response) (current : Nat)
  | reserveLoad (job : Job)
  | reserveSwap (job : Job) (current : Nat)
  | insert (job : Job)
  | cleanup (job : Job) (pass : Pass)
  | reply (job : Job) (response : Response)

section Steps

variable {n : Nat} (cfg : Config) (sh : Shared n) (i : Fin n)

/-- What follows a locked section once its removals are accounted for: the lock is given back with
the response, or Acquire goes on to `reserveKey`. -/
def proceed (job : Job) : Option Response → Shared n × Worker
  | some r => (sh.unlock i, .reply job r)
  | none =>
    if effectiveTTLMS cfg.maxTTL job.op = 0 then
      (sh.unlock i, .reply job (acquireResponse job.op.requestID LeaseStatus.ok 0))
    else (sh, .reserveLoad job)

/-- The next atomic step of the worker of shard `i` inside `apply`. -/
def Worker.step (pool : PoolGet) : Worker → Option (Shared n × Worker)
  | .idle | .dequeued _ | .admitted _ | .reply _ _ => none
  | .lock job =>
    if sh.mu i then none
    else
      let l := lockedSection cfg.maxTTL (sh.shards i) job.op job.now
      let sh := (sh.setShard i l.shard).lock i
      if l.removed = 0 then some (proceed cfg sh i job l.reply)
      else some (sh, .releaseLoad job l.reply)
  | .releaseLoad job response =>
    match sh.releaseLoad 1 with
    | (sh, some current) => some (sh, .releaseSwap job response current)
    | (sh, none) => some (proceed cfg sh i job response)
  | .releaseSwap job response current =>
    match sh.releaseSwap 1 current with
    | (sh, true) => some (proceed cfg sh i job response)
    | (sh, false) => some (sh, .releaseLoad job response)
  | .reserveLoad job =>
    if cfg.maxKeys ≤ sh.keys then
      -- `capacityFull`: the loop of `acquire` gives up or cleans all shards once
      some (sh.unlock i,
        if job.cleanupAttempted then
          .reply job (acquireResponse job.op.requestID LeaseStatus.keyLimitReached 0)
        else .cleanup job (.lock job.now))
    else some (sh, .reserveSwap job sh.keys)
  | .reserveSwap job current =>
    if sh.keys = current then some ({ sh with keys := current + 1 }, .insert job)
    else some (sh, .reserveLoad job)
  | .insert job =>
    let ttl := effectiveTTLMS cfg.maxTTL job.op
    some ((sh.setShard i ((sh.shards i).addLease pool job.op.key job.op.leaseID
        (job.now + ttl * millisecond))).unlock i,
      .reply job (acquireResponse job.op.requestID LeaseStatus.ok ttl))
  | .cleanup job pass =>
    match pass.step sh with
    | some (sh, some pass) => some (sh, .cleanup job pass)
    | some (sh, none) => some (sh, .lock { job with cleanupAttempted := true })
    | none => none

end Steps

/-- A goroutine that runs passes, as `runExpiredLeaseCleanup`: idle, after the check of `active`,
or in a pass. -/
inductive Cleaner where
  | idle
  | admitted
  | running (pass : Pass)

/-- A server with `n` shards and `m` cleaners. -/
structure State (n m : Nat) extends Shared n where
  workers : Fin n → Worker
  cleaners : Fin m → Cleaner

/-- The steps of a server. -/
inductive Act (n m : Nat) where
  /-- Time passes. -/
  | tick (now : Time)
  /-- The worker takes an operation from its queue. -/
  | dequeue (i : Fin n) (op : Operation)
  /-- The check of `active` in `applyOperation`. -/
  | check (i : Fin n)
  /-- `apply` reads the clock. -/
  | apply (i : Fin n) (now : Time)
  /-- The next step of the worker inside `apply`. -/
  | work (i : Fin n) (pool : PoolGet)
  /-- The response goes to the session. -/
  | respond (i : Fin n)
  /-- The check of `active` before a background pass. -/
  | sweep (j : Fin m)
  /-- A background pass reads the clock. -/
  | start (j : Fin m) (now : Time)
  /-- The next step of a background pass. -/
  | pass (j : Fin m)
  /-- The quarantine is over. -/
  | activate
  /-- `Close`. -/
  | close

section System

variable {n m : Nat}

namespace State

/-- A server that starts at `clock`. -/
def init (n m : Nat) (clock : Time) : State n m where
  phase := .quarantine
  clock
  keys := 0
  shards _ := LeaseShard.empty
  mu _ := false
  cleanupMu := false
  workers _ := .idle
  cleaners _ := .idle

/-- The worker of shard `i` goes on to `w`. -/
def setWorker (s : State n m) (i : Fin n) (w : Worker) : State n m :=
  { s with workers := Function.update s.workers i w }

/-- Cleaner `j` goes on to `c`. -/
def setCleaner (s : State n m) (j : Fin m) (c : Cleaner) : State n m :=
  { s with cleaners := Function.update s.cleaners j c }

/-- What the threads share becomes `sh`. -/
def setShared (s : State n m) (sh : Shared n) : State n m := { s with toShared := sh }

end State

/-- One step of a server whose keys are distributed over its shards by `assign`. A clock reading may
be any time up to the present. -/
def step (cfg : Config) (assign : Nat → Fin n) (s : State n m) : Act n m → Option (State n m)
  | .tick now => if s.clock ≤ now then some { s with clock := now } else none
  | .dequeue i op =>
    match s.workers i with
    | .idle => if assign op.key = i then some (s.setWorker i (.dequeued op)) else none
    | _ => none
  | .check i =>
    match s.workers i with
    | .dequeued op => some (s.setWorker i (if s.phase = .active then .admitted op else .idle))
    | _ => none
  | .apply i now =>
    match s.workers i with
    | .admitted op => if now ≤ s.clock then some (s.setWorker i (.lock ⟨op, now, false⟩)) else none
    | _ => none
  | .work i pool =>
    match (s.workers i).step cfg s.toShared i pool with
    | some (sh, w) => some ((s.setShared sh).setWorker i w)
    | none => none
  | .respond i =>
    match s.workers i with
    | .reply _ _ => some (s.setWorker i .idle)
    | _ => none
  | .sweep j =>
    match s.cleaners j with
    | .idle => some (s.setCleaner j (if s.phase = .active then .admitted else .idle))
    | _ => none
  | .start j now =>
    match s.cleaners j with
    | .admitted => if now ≤ s.clock then some (s.setCleaner j (.running (.lock now))) else none
    | _ => none
  | .pass j =>
    match s.cleaners j with
    | .running pass =>
      match pass.step s.toShared with
      | some (sh, some pass) => some ((s.setShared sh).setCleaner j (.running pass))
      | some (sh, none) => some ((s.setShared sh).setCleaner j .idle)
      | none => none
    | _ => none
  | .activate => if s.phase = .quarantine then some { s with phase := .active } else none
  | .close => some { s with phase := .closed }

/-! ## What a step does to a worker -/

/-- The job whose section or insertion is the worker's next step. -/
def Worker.acting : Worker → Option Job
  | .lock job | .insert job => some job
  | _ => none

/-- The job of a worker on its own shard, and no job on the others. -/
def onShard (i : Fin n) (job : Option Job) : Fin n → Option Job :=
  fun j => if j = i then job else none

/-- The jobs that act on each shard in a step. -/
def State.acting (s : State n m) : Act n m → Fin n → Option Job
  | .work i _ => onShard i (s.workers i).acting
  | _ => fun _ => none

/-- All that a step can do to the worker of shard `i`. -/
inductive WorkerStep (cfg : Config) (s s' : State n m) (a : Act n m) (i : Fin n) : Prop
  | still (hw : s'.workers i = s.workers i) (ha : s.acting a i = none)
  | moved (pool : PoolGet) (ha : a = .work i pool)
      (h : (s.workers i).step cfg s.toShared i pool = some (s'.toShared, s'.workers i))
  | dequeued (op : Operation) (hw : s.workers i = .idle) (hw' : s'.workers i = .dequeued op)
      (ha : a = .dequeue i op)
  | dropped (op : Operation) (hw : s.workers i = .dequeued op) (hw' : s'.workers i = .idle)
      (hphase : s.phase ≠ .active) (ha : a = .check i)
  | admitted (op : Operation) (hw : s.workers i = .dequeued op) (hw' : s'.workers i = .admitted op)
      (hactive : s.phase = .active) (ha : a = .check i)
  | applied (op : Operation) (now : Time) (hw : s.workers i = .admitted op) (hn : now ≤ s.clock)
      (hw' : s'.workers i = .lock ⟨op, now, false⟩) (ha : a = .apply i now)
  | responded (job : Job) (r : Response) (hw : s.workers i = .reply job r)
      (hw' : s'.workers i = .idle) (ha : a = .respond i)

theorem step_worker {cfg : Config} {assign : Nat → Fin n} {s s' : State n m} {a : Act n m}
    (hs : step cfg assign s a = some s') (i : Fin n) : WorkerStep cfg s s' a i := by
  -- a step of worker `j` concerns worker `i` only if they are the same
  have other : ∀ {j : Fin n} {w : Worker} {r : State n m}, i ≠ j → r.workers = s.workers →
      (r.setWorker j w).workers i = s.workers i := fun hij hr => by
    rw [State.setWorker, hr]
    exact Function.update_of_ne hij _ _
  cases a with
  | tick now =>
    simp only [step] at hs
    split_ifs at hs
    cases hs
    exact .still rfl rfl
  | dequeue j op =>
    simp only [step] at hs
    split at hs
    · rename_i hw
      split_ifs at hs
      cases hs
      by_cases hij : i = j
      · subst hij
        exact .dequeued op hw (Function.update_self _ _ _) rfl
      · exact .still (other hij rfl) rfl
    · cases hs
  | check j =>
    simp only [step] at hs
    split at hs
    · rename_i op hw
      cases hs
      by_cases hij : i = j
      · subst hij
        split_ifs with hactive
        · exact .admitted op hw (Function.update_self _ _ _) hactive rfl
        · exact .dropped op hw (Function.update_self _ _ _) hactive rfl
      · exact .still (other hij rfl) rfl
    · cases hs
  | apply j now =>
    simp only [step] at hs
    split at hs
    · rename_i op hw
      split_ifs at hs with hn
      cases hs
      by_cases hij : i = j
      · subst hij
        exact .applied op now hw hn (Function.update_self _ _ _) rfl
      · exact .still (other hij rfl) rfl
    · cases hs
  | work j pool =>
    simp only [step] at hs
    cases hw : (s.workers j).step cfg s.toShared j pool with
    | none => rw [hw] at hs; cases hs
    | some r =>
      obtain ⟨sh, w⟩ := r
      rw [hw] at hs
      cases hs
      by_cases hij : i = j
      · subst hij
        refine .moved pool rfl ?_
        rw [hw]
        show _ = some (sh, Function.update s.workers i w i)
        rw [Function.update_self]
      · exact .still (other hij rfl) (if_neg hij)
  | respond j =>
    simp only [step] at hs
    split at hs
    · rename_i job r hw
      cases hs
      by_cases hij : i = j
      · subst hij
        exact .responded job r hw (Function.update_self _ _ _) rfl
      · exact .still (other hij rfl) rfl
    · cases hs
  | sweep j =>
    simp only [step] at hs
    split at hs
    · cases hs; exact .still rfl rfl
    · cases hs
  | start j now =>
    simp only [step] at hs
    split at hs
    · split_ifs at hs
      cases hs; exact .still rfl rfl
    · cases hs
  | pass j =>
    simp only [step] at hs
    split at hs
    · split at hs
      · cases hs; exact .still rfl rfl
      · cases hs; exact .still rfl rfl
      · cases hs
    · cases hs
  | activate =>
    simp only [step] at hs
    split_ifs at hs
    cases hs
    exact .still rfl rfl
  | close =>
    simp only [step] at hs
    cases hs
    exact .still rfl rfl

end System

end RedLease.Server

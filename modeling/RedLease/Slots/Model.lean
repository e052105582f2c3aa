import RedLease.Lib.Etcd
import RedLease.Lib.Trans

/-!
# The launcher and its slot in etcd

`cmd/redlease-server` with `-etcd-endpoint`: a launcher looks for a free one of five keys in etcd, puts
its address there under a lease of its own, and runs its server as long as a goroutine keeps the lease
alive. There are any number of launchers, and one etcd: any service with these requests, in any state
at the start.

A call to etcd is sent, served and answered in separate steps. It can fail at the caller at any time,
because of its timeout, the connection or a cancelled context, before or after etcd has served it;
a request that its caller has given up can still be served later (`abandoned`). Nothing is assumed
about time: a lease can expire, a ticker fire and a timer end in any state. A launcher that crashes is
one that makes no more steps, and a new process is another launcher.

`main` is the goroutine that runs `launcherLifecycle.run` and then `Close`. `registration` is the
registration that exists, in the result of the acquisition or in `launcherLifecycle`; `acquisition`
is the goroutine of `acquireEtcdRegistration`, until its result is received.
-/

namespace RedLease.Slots

open Lib Lib.Etcd

/-! ## Etcd -/

/-- `etcdLeaseTTLSeconds`. -/
def etcdLeaseTTLSeconds : Nat := 3

/-- `etcdServerSlotCount`. -/
def etcdServerSlotCount : Nat := 5

/-- `etcdSlotKeys`. -/
def etcdSlotKeys (base : String) : List String :=
  ["redlease-server-1", "redlease-server-2", "redlease-server-3", "redlease-server-4",
    "redlease-server-5"].map fun name => base ++ "-" ++ name

/-- What each launcher is configured with: `-etcd-prefix` and `-etcd-advertise`. -/
structure Config where
  base : Nat → String
  address : Nat → String

/-- The slots of launcher `p`. -/
def Config.keys (cfg : Config) (p : Nat) : List String := etcdSlotKeys (cfg.base p)

/-- The key of a slot of launcher `p`. -/
def Config.slotKey (cfg : Config) (p slot : Nat) : String := (cfg.keys p).getD slot ""

/-- What a launcher asks of etcd. -/
abbrev Request := Etcd.Request String String

/-- What etcd answers. -/
abbrev Reply := Etcd.Reply String

/-! ## A launcher -/

/-- What follows when a lease that is not used has been revoked: the next slot, or the end of
`tryEtcdSlots` with an error. -/
inductive After where
  | next (slot : Nat)
  | failed
  deriving DecidableEq

/-- Where `acquireEtcdRegistration` is. -/
inductive Acquiring where
  | creating
  | granting (slot : Nat)
  | committing (slot lease : Nat)
  | revoking (lease : Nat) (after : After)
  | reading
  | watching (revision : Nat)
  | retrying
  | finished (ok : Bool)
  deriving DecidableEq

/-- Where `keepAlive` is. -/
inductive Worker where
  | waiting
  | calling
  | exited
  deriving DecidableEq

/-- `etcdRegistration` with its goroutine. -/
structure Registration where
  key : String
  lease : Nat
  worker : Worker
  cancelled : Bool
  /-- There is an error in the channel. -/
  keepAliveErr : Bool

/-- Where the main goroutine is. -/
inductive Main where
  | select
  | starting
  | recoverStop
  | recoverWait
  | recoverRevoke
  | shutStop
  | shutAcquisition
  | shutWait
  | shutRevoke
  | closed
  deriving DecidableEq

/-- The goroutines that call etcd. -/
inductive Caller where
  | acquisition
  | worker
  | main
  deriving DecidableEq

/-- A process that wants a slot. -/
structure Launcher where
  main : Main
  acquisition : Option Acquiring
  registration : Option Registration
  server : Bool
  /-- The context of the process is cancelled. -/
  ctxDone : Bool
  /-- `etcdAcquisition.cancel` was called. -/
  acquisitionCancelled : Bool
  /-- What etcd has answered to a call that has not returned. -/
  reply : Caller → Option Reply

/-- A launcher whose first acquisition has just started. -/
def Launcher.start : Launcher := ⟨.select, some .creating, none, false, false, false, fun _ => none⟩

namespace Launcher

variable (cfg : Config) (p : Nat) (l : Launcher)

/-- The context of the acquisition is done, and with it that of the registration. -/
def cancelled : Bool := l.ctxDone || l.acquisitionCancelled

/-- The call that a goroutine waits for. -/
def call : Caller → Option Request
  | .acquisition =>
    match l.acquisition with
    | some (.granting _) => some (.grant etcdLeaseTTLSeconds)
    | some (.committing slot lease) => some (.txn (cfg.slotKey p slot) (cfg.address p) lease)
    | some (.revoking lease _) => some (.revoke lease)
    | some .reading => some .get
    | _ => none
  | .worker =>
    l.registration.bind fun r => if r.worker = .calling then some (.keepAlive r.lease) else none
  | .main =>
    if l.main = .recoverRevoke ∨ l.main = .shutRevoke then
      l.registration.map fun r => .revoke r.lease
    else none

/-- The reply is there. -/
def answer (reply : Reply) (c : Caller) : Launcher :=
  { l with reply := Function.update l.reply c (some reply) }

/-- The acquisition goes on; if it calls etcd, there is no reply yet. -/
def acquire (a : Acquiring) : Launcher :=
  { l with acquisition := some a, reply := Function.update l.reply .acquisition none }

/-- The worker goes on. -/
def work (r : Registration) (worker : Worker) : Launcher :=
  { l with
    registration := some { r with worker }
    reply := Function.update l.reply .worker none }

/-- The main goroutine goes on. -/
def go (main : Main) : Launcher := { l with main, reply := Function.update l.reply .main none }

/-- `tryEtcdSlots` goes on, or `acquireEtcdRegistration` after it: when all slots are occupied it
reads them, and after an error it retries unless its context is done. -/
def proceed : After → Acquiring
  | .next slot => if slot < etcdServerSlotCount then .granting slot else .reading
  | .failed => if l.cancelled then .finished false else .retrying

/-- `acquireEtcdRegistration` when its call has returned, with no value for an error. -/
def resumeAcquisition (result : Option Reply) : Option Launcher :=
  match l.acquisition with
  | some (.granting slot) =>
    match result with
    | some (.granted lease) => some (l.acquire (.committing slot lease))
    | _ => some (l.acquire (l.proceed .failed))
  | some (.committing slot lease) =>
    match result with
    | some (.committed true) =>
      some { l.acquire (.finished true) with
        registration := some ⟨cfg.slotKey p slot, lease, .waiting, false, false⟩ }
    | some (.committed false) => some (l.acquire (.revoking lease (.next (slot + 1))))
    | _ => some (l.acquire (.revoking lease .failed))
  | some (.revoking _ after) => some (l.acquire (l.proceed after))
  | some .reading =>
    match result with
    | some (.snapshot revision present) =>
      some (l.acquire (if (cfg.keys p).all present then .watching revision else .granting 0))
    | _ => some (l.acquire (l.proceed .failed))
  | _ => none

/-- `keepAlive` when `KeepAliveOnce` has returned. -/
def resumeWorker (result : Option Reply) : Option Launcher :=
  l.registration.bind fun r =>
    if r.worker = .calling then
      let lost := { r with keepAliveErr := true }
      match result with
      | some (.alive ttl) => some (if ttl = 0 then l.work lost .exited else l.work r .waiting)
      | _ => some (l.work (if l.cancelled || r.cancelled then r else lost) .exited)
    else none

/-- `etcdRegistration.Close` when `Revoke` has returned, whether it has failed or not. -/
def resumeMain : Option Launcher :=
  match l.main with
  | .recoverRevoke =>
    some { (l.go .select).acquire .creating with registration := none, acquisitionCancelled := false }
  | .shutRevoke => some { l.go .closed with registration := none }
  | _ => none

/-- A call to etcd returns to its caller. -/
def resume (result : Option Reply) : Caller → Option Launcher
  | .acquisition => l.resumeAcquisition cfg p result
  | .worker => l.resumeWorker result
  | .main => l.resumeMain

/-- What a launcher does by itself. -/
inductive Move where
  | signal
  | create (ok : Bool)
  | watchFails
  | retry (timer : Bool)
  | tick
  | leave
  | finish (ok : Bool)
  | start (ok : Bool)
  | lost
  | stop (ok : Bool)
  | waited
  | shutdown
  | collect

/-- `etcdRegistration.Close` up to the wait for the worker. -/
def closing (main : Main) (r : Registration) : Launcher :=
  { l.go main with registration := some { r with cancelled := true } }

/-- `launcherLifecycle.Close` when the acquisition is closed. -/
def shut : Launcher :=
  match l.registration with
  | some r => l.closing .shutWait r
  | none => l.go .closed

/-- A step of the launcher by itself. -/
def move : Move → Option Launcher
  | .signal => some { l with ctxDone := true }
  | .create ok =>
    if l.acquisition = some .creating then
      some (l.acquire (if ok then .granting 0 else .finished false))
    else none
  | .watchFails =>
    match l.acquisition with
    | some (.watching _) => some (l.acquire (l.proceed .failed))
    | _ => none
  | .retry timer =>
    if l.acquisition = some .retrying ∧ (timer = true ∨ l.cancelled = true) then
      some (l.acquire (if timer then .granting 0 else .finished false))
    else none
  | .tick =>
    l.registration.bind fun r => if r.worker = .waiting then some (l.work r .calling) else none
  | .leave =>
    l.registration.bind fun r =>
      if r.worker = .waiting ∧ (l.cancelled || r.cancelled) = true then some (l.work r .exited)
      else none
  | .finish ok =>
    -- without a registration the launcher fails
    if l.main = .select ∧ l.acquisition = some (.finished ok) then
      some { l.go (if ok then .starting else .shutStop) with acquisition := none }
    else none
  | .start ok =>
    if l.main = .starting then
      some { l.go (if ok then .select else .shutStop) with server := ok }
    else none
  | .lost =>
    l.registration.bind fun r =>
      if l.main = .select ∧ l.acquisition = none ∧ r.keepAliveErr = true then
        some { l.go .recoverStop with registration := some { r with keepAliveErr := false } }
      else none
  | .stop ok =>
    if l.main = .recoverStop then
      l.registration.map fun r =>
        { if ok then l.closing .recoverWait r else l.go .shutStop with server := false }
    else if l.main = .shutStop then
      if l.acquisition.isSome then
        some { l.go .shutAcquisition with server := false, acquisitionCancelled := true }
      else some { l.shut with server := false }
    else none
  | .waited =>
    l.registration.bind fun r =>
      if r.worker = .exited ∧ l.main = .recoverWait then some (l.go .recoverRevoke)
      else if r.worker = .exited ∧ l.main = .shutWait then some (l.go .shutRevoke)
      else none
  | .shutdown => if l.main = .select then some (l.go .shutStop) else none
  | .collect =>
    match l.acquisition with
    | some (.finished _) =>
      if l.main = .shutAcquisition then some { l.shut with acquisition := none } else none
    | _ => none

end Launcher

/-! ## All launchers -/

open Launcher (Move)

/-- `owner` says who asked for a lease; nothing depends on it. -/
structure State (e : Service String String) where
  store : e.State
  launcher : Nat → Launcher
  abandoned : List (Nat × Request)
  owner : Nat → Nat

/-- No launcher has done anything yet. -/
def State.start {e : Service String String} (store : e.State) : State e :=
  ⟨store, fun _ => Launcher.start, [], fun _ => 0⟩

/-- A step of etcd, of a call to it, or of a launcher. -/
inductive Act (e : Service String String) where
  | happen (x : e.Event)
  | late (i : Nat)
  | serve (p : Nat) (c : Caller)
  | returns (p : Nat) (c : Caller) (ok : Bool)
  | deletion (p : Nat) (key : String)
  | move (p : Nat) (m : Move)

namespace State

variable {e : Service String String} (cfg : Config) (s : State e)

/-- Launcher `p` becomes `l`. -/
def setLauncher (p : Nat) (l : Launcher) : State e :=
  { s with launcher := Function.update s.launcher p l }

/-- Who asked for which lease, when etcd has answered launcher `p`. -/
def ownerAfter (p : Nat) : Request → Reply → Nat → Nat
  | .grant _, .granted lease => Function.update s.owner lease p
  | _, _ => s.owner

/-- Etcd serves a request of launcher `p`. -/
def served (p : Nat) (req : Request) : State e × Reply :=
  let (store, reply) := e.serve s.store req
  ({ s with store, owner := s.ownerAfter p req reply }, reply)

/-- A call that returns brings the reply, or an error whether there is a reply or not. A watch brings
the deletion of a slot when etcd has one after the revision that was read. -/
def step : Act e → Option (State e)
  | .happen x => some { s with store := e.happen s.store x }
  | .late i =>
    (s.abandoned[i]?).map fun x =>
      { (s.served x.1 x.2).1 with abandoned := s.abandoned.eraseIdx i }
  | .serve p c =>
    ((s.launcher p).call cfg p c).bind fun req =>
      if (s.launcher p).reply c = none then
        some ((s.served p req).1.setLauncher p ((s.launcher p).answer (s.served p req).2 c))
      else none
  | .returns p c ok =>
    let reply := (s.launcher p).reply c
    ((s.launcher p).call cfg p c).bind fun req =>
      if ok = true ∧ reply = none then none
      else
        ((s.launcher p).resume cfg p (if ok then reply else none) c).map fun l =>
          { s.setLauncher p l with
            abandoned := if reply.isNone then (p, req) :: s.abandoned else s.abandoned }
  | .deletion p key =>
    match (s.launcher p).acquisition with
    | some (.watching revision) =>
      if key ∈ cfg.keys p ∧ e.deletedAfter s.store revision key = true then
        some (s.setLauncher p ((s.launcher p).acquire (.granting 0)))
      else none
    | _ => none
  | .move p m => ((s.launcher p).move m).map (s.setLauncher p)

/-- All that a step can do. -/
inductive Steps : State e → Prop
  | happen (x : e.Event) : Steps { s with store := e.happen s.store x }
  | late (p : Nat) (req : Request) (abandoned : List (Nat × Request)) :
      Steps { (s.served p req).1 with abandoned }
  | serve (p : Nat) (c : Caller) (req : Request)
      (hc : (s.launcher p).call cfg p c = some req) :
      Steps ((s.served p req).1.setLauncher p ((s.launcher p).answer (s.served p req).2 c))
  | returned (p : Nat) (c : Caller) (req : Request) (result : Option Reply) (l : Launcher)
      (abandoned : List (Nat × Request)) (hc : (s.launcher p).call cfg p c = some req)
      (hresult : ∀ x, result = some x → (s.launcher p).reply c = some x)
      (hl : (s.launcher p).resume cfg p result c = some l) :
      Steps { s.setLauncher p l with abandoned }
  | deletion (p revision : Nat) (ha : (s.launcher p).acquisition = some (.watching revision)) :
      Steps (s.setLauncher p ((s.launcher p).acquire (.granting 0)))
  | move (p : Nat) (m : Move) (l : Launcher) (hl : (s.launcher p).move m = some l) :
      Steps (s.setLauncher p l)

variable {cfg s} {s' : State e}

theorem step_cases {a : Act e} (h : s.step cfg a = some s') : s.Steps cfg s' := by
  cases a with
  | happen x =>
    cases h
    exact .happen x
  | late i =>
    obtain ⟨x, -, rfl⟩ := Option.map_eq_some_iff.mp h
    exact .late x.1 x.2 _
  | serve p c =>
    obtain ⟨req, hc, h⟩ := Option.bind_eq_some_iff.mp h
    split_ifs at h
    cases h
    exact .serve p c req hc
  | returns p c ok =>
    obtain ⟨req, hc, h⟩ := Option.bind_eq_some_iff.mp h
    obtain ⟨-, h⟩ := Option.ite_none_left_eq_some.mp h
    obtain ⟨l, hl, rfl⟩ := Option.map_eq_some_iff.mp h
    refine .returned p c req _ l _ hc (fun x hx => ?_) hl
    split_ifs at hx
    exact hx
  | deletion p key =>
    dsimp only [step] at h
    split at h
    · rename_i revision ha
      split_ifs at h
      cases h
      exact .deletion p revision ha
    · cases h
  | move p m =>
    obtain ⟨l, hl, rfl⟩ := Option.map_eq_some_iff.mp h
    exact .move p m l hl

end State

end RedLease.Slots

import RedLease.Client.Shutdown
import RedLease.Server.Shutdown

/-!
# Shutdown

What `Close` leaves behind, on both sides of a connection: the server's (`Server/Shutdown.lean`) and
the clients' (`Client/Shutdown.lean`).

A waiter of a client that gives up completes its own request. It removes its entry first and sends
the result to itself afterwards, and `Close` waits for nobody but the workers: so `Close` can return
in between (`own_result_outstanding`).
-/

namespace RedLease

open Lib Server

/-- **Shutdown leaves nothing behind.** Server: in every run, once a call of `Close` has returned the
workers are done with every operation that was dispatched, nothing is pending, and nothing can be
dispatched any more. Clients: once `Close` has returned the queue and the pending maps are empty,
every waiter has its one result, unless it has removed its own entry and is about to send the result
to itself, and every later submission is refused and can return. -/
theorem shutdown_leaves_nothing :
    (∀ (n m : Nat) (cfg : Config) (assign : Nat → Fin n) (fb : Accessors) (clock : Time)
      (acts : List (LifeAct n m)) (s : Life n m) (id : Nat),
      Trans.exec (Life.step cfg assign fb) (.init n m clock) acts = some s →
      s.closes id = .returned → s.Drained cfg assign fb) ∧
    (∀ (pkg : Sessions.Package) (acts : List Shutdown.Act) (s : Shutdown.State),
      Trans.exec (Shutdown.step pkg) .init acts = some s →
      s.base.closer = .closed → Shutdown.Closed pkg s) := by
  refine ⟨fun n m cfg assign fb clock acts s id hrun hid => ?_, fun pkg acts s hrun hc => ?_⟩
  · have hinv := Life.shutInv_of_exec hrun
    exact hinv.drained (hinv.returned hid)
  · exact (Shutdown.inv_of_exec hrun).closed hc

namespace Shutdown

/-- A waiter is registered and its request is in the queue. -/
def submitted (requestID : Nat) : List Act :=
  .submit requestID true :: List.replicate 5 (.enqueue requestID true)

/-- The loop over the shards, with so many waiters in the maps, and the end of the workers. -/
def sweptActs (waiters : Nat) : List Act :=
  List.replicate (2 * Client.pendingShardCount + waiters) .sweep ++
    (List.range Client.pendingShardCount).map .retire

/-- The manager sees that the context has ended. -/
def managedActs : List Act := [.session (.manage false), .session (.manage false)]

/-- `Close`, with one request in the queue. -/
def closedActs (waiters : Nat) : Sessions.Package → List Act
  | .client =>
    [.session (.close true), .session (.close true)] ++ managedActs ++ [.session (.close true)] ++
      sweptActs waiters ++ [.session (.close true), .session (.close false)]
  | .client1of1 =>
    [.session (.close true), .session (.close true)] ++ sweptActs waiters ++ managedActs ++
      [.session (.close true), .session (.close true), .session (.close false)]

end Shutdown

/-- A request is dispatched, `Close` runs up to the wait for the connections, and the worker drops the
request. -/
def Server.Life.closedActs : List (LifeAct 1 1) :=
  [.accept, .check, .register, .run 0, .timer, .activate,
    .sys (.receive 0 Life.acquireFrame),
    .sys (.reader 0), .sys (.reader 0), .sys (.reader 0), .sys (.reader 0), .sys (.reader 0),
    .callClose 0, .close 0, .close 0, .close 0, .close 0, .close 0, .close 0,
    .sys (.reader 0), .sys (.writer 0 .ready), .sys (.writer 0 .ctxDone), .sys (.writer 0 .ready),
    .sys (.writer 0 .ready), .finish 0, .close 0, .close 0, .close 0,
    .sys (.dequeue 0), .sys (.check 0), .exit 0, .acceptError, .close 0]

theorem shutdown_leaves_nothing_closedActs :
    (∃ s, Trans.exec (Life.step tinyConfig (fun _ => 0) goAccessors) (.init 1 1 0)
        Life.closedActs = some s ∧ s.Drained tinyConfig (fun _ => 0) goAccessors ∧
      (s.accepted 0).length = 1) ∧
    ∀ pkg, ∃ s, Trans.exec (Shutdown.step pkg) .init
        (Shutdown.submitted 1 ++ Shutdown.closedActs 1 pkg) = some s ∧ Shutdown.Closed pkg s ∧
      s.registered 1 = true ∧ s.results 1 = 1 := by
  refine ⟨?_, fun pkg => ?_⟩
  · obtain ⟨s, hs, hid, hlength⟩ : ∃ s, Trans.exec (Life.step tinyConfig (fun _ => 0) goAccessors)
        (.init 1 1 0) Life.closedActs = some s ∧ s.closes 0 = .returned ∧
          (s.accepted 0).length = 1 := by decide +kernel
    exact ⟨s, hs, shutdown_leaves_nothing.1 1 1 tinyConfig (fun _ => 0) goAccessors 0
      Life.closedActs s 0 hs hid, hlength⟩
  · obtain ⟨s, hs, hc, hfacts⟩ : ∃ s, Trans.exec (Shutdown.step pkg) .init
        (Shutdown.submitted 1 ++ Shutdown.closedActs 1 pkg) = some s ∧ s.base.closer = .closed ∧
          s.registered 1 = true ∧ s.results 1 = 1 := by
      cases pkg with
      | client | client1of1 => decide +kernel
    exact ⟨s, hs, shutdown_leaves_nothing.2 pkg _ s hs hc, hfacts⟩

/-- In both packages a waiter can give up and `Close` return before it has sent the result to
itself. -/
theorem own_result_outstanding :
    (∃ acts s, Trans.exec (Shutdown.step .client) .init acts = some s ∧ s.base.closer = .closed ∧
      s.registered 1 = true ∧ s.results 1 = 0) ∧
    ∃ acts s, Trans.exec (Shutdown.step .client1of1) .init acts = some s ∧
      s.base.closer = .closed ∧ s.registered 1 = true ∧ s.results 1 = 0 := by
  exact ⟨⟨Shutdown.submitted 1 ++ [.giveUp 1] ++ Shutdown.closedActs 0 .client, by decide +kernel⟩,
    Shutdown.submitted 1 ++ [.giveUp 1] ++ Shutdown.closedActs 0 .client1of1, by decide +kernel⟩

end RedLease

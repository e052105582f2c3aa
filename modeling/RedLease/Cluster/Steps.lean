import RedLease.Cluster.Model

/-!
# What a step of the system can do

Two inversion lemmas say it once, for the side of the servers and for the side of the clients and
the network; the invariants are derived from them.

* **`step_server`**: a step leaves a server alone, is one of its own steps, ends its quarantine, or
  restarts it.
* **`step_network`**: a step only moves or loses messages, adds a response, makes a lease, or moves a
  lease, which may take a response and add a request.
-/

namespace RedLease.Cluster

open Lib

variable {d : Deployment} {C : Clocks d.serverCount} {s s' : State d} {a : Act d}

/-! ## Servers -/

/-- Why a server takes the step `b`. -/
inductive Cause (C : Clocks d.serverCount) (s : State d) (r : Fin d.serverCount) :
    Act d → Server.Act (d.config r).shardCount d.cleaners → Prop
  | advance : Cause C s r .advance (.tick (C.server r (s.instant + 1)))
  | own (b : Server.Act (d.config r).shardCount d.cleaners)
      (hb : isLocal (s.servers r).clock b = true) : Cause C s r (.server r b) b
  | deliver (k : Nat) (op : Operation) (hop : (r, op) ∈ s.requests) :
      Cause C s r (.deliver k) (.dequeue (d.assign r op.key) op)
  | respond (i : Fin (d.config r).shardCount) : Cause C s r (.respond r i) (.respond i)

/-- All that a step of the system can do to server `r`. -/
inductive ServerStep (C : Clocks d.serverCount) (s s' : State d) (a : Act d)
    (r : Fin d.serverCount) : Prop
  | same (hs : s'.servers r = s.servers r) (hi : s'.instant = s.instant)
      (hm : s'.memory r = s.memory r) (ht : s'.startedAt r = s.startedAt r)
  | stepped (b : Server.Act (d.config r).shardCount d.cleaners) (hb : Cause C s r a b)
      (hs : Server.step (d.config r) (d.assign r) (s.servers r) b = some (s'.servers r))
      (hi : a ≠ .advance → s'.instant = s.instant) (hm : s'.memory r = s.memory r)
      (ht : s'.startedAt r = s.startedAt r)
  | activated (hover : s.startedAt r + restartQuarantineDuration ≤ (s.servers r).clock)
      (hs : Server.step (d.config r) (d.assign r) (s.servers r) .activate = some (s'.servers r))
      (hi : s'.instant = s.instant) (hm : s'.memory r = s.memory r)
      (ht : s'.startedAt r = s.startedAt r)
  | crashed (hs : s'.servers r = .init _ _ (s.servers r).clock) (hi : s'.instant = s.instant)
      (hm : s'.memory r = s.view r) (ht : s'.startedAt r = (s.servers r).clock)

theorem setServer_self (s : State d) (r : Fin d.serverCount)
    (server : Server.State (d.config r).shardCount d.cleaners) :
    (s.setServer r server).servers r = server := Function.update_self _ _ _

theorem setServer_of_ne (s : State d) {r r' : Fin d.serverCount} (h : r' ≠ r)
    (server : Server.State (d.config r).shardCount d.cleaners) :
    (s.setServer r server).servers r' = s.servers r' := Function.update_of_ne h _ _

theorem stepServer_cases {r : Fin d.serverCount}
    {b : Server.Act (d.config r).shardCount d.cleaners} (h : s.stepServer r b = some s') :
    ∃ server, Server.step (d.config r) (d.assign r) (s.servers r) b = some server ∧
      s' = s.setServer r server := by
  obtain ⟨server, hs, rfl⟩ := Option.map_eq_some_iff.mp h
  exact ⟨server, hs, rfl⟩

/-- What a step of a lease does. -/
theorem stepLease_cases {id : LeaseID} {b : d.package.Act} (h : stepLease C s id b = some s') :
    ∃ l l', s.leases id = some l ∧ d.package.step (C.client id.process s.instant) l b = some l' ∧
      (∀ x ∈ d.package.incoming b, (x.1, id.process, x.2) ∈ s.responses) ∧
      (∀ request ∈ d.package.outgoing l b, s.nextRequestID id.process ≤ request.requestID) ∧
      s' = ((s.setLease id l').consume id.process (d.package.incoming b)).send id
        (d.package.key l) (d.package.outgoing l b) := by
  unfold stepLease at h
  split at h
  · cases h
  · rename_i l hl
    dsimp only at h
    split_ifs at h with hguard
    obtain ⟨l', hstep, rfl⟩ := Option.map_eq_some_iff.mp h
    exact ⟨l, l', hl, hstep, hguard.1, hguard.2, rfl⟩

/-- What a step of a lease leaves alone. -/
theorem stepLease_frame {id : LeaseID} {b : d.package.Act}
    (h : stepLease C s id b = some s') : s'.servers = s.servers ∧ s'.instant = s.instant ∧
      s'.memory = s.memory ∧ s'.startedAt = s.startedAt := by
  obtain ⟨l, l', -, -, -, -, rfl⟩ := stepLease_cases h
  cases d.package.incoming b <;> cases d.package.outgoing l b <;> exact ⟨rfl, rfl, rfl, rfl⟩

/-- **What a step does to a server.** -/
theorem step_server (hclock : ∀ r, (s.servers r).clock = C.server r s.instant)
    (hs : step C s a = some s') (r : Fin d.serverCount) : ServerStep C s s' a r := by
  cases a with
  | advance =>
    cases hs
    refine .stepped _ .advance ?_ (fun h => absurd rfl h) rfl rfl
    rw [Server.step, if_pos]
    rw [hclock r]
    exact C.server_mono r (Nat.le_succ _)
  | server r' b =>
    simp only [step] at hs
    split_ifs at hs with hb
    obtain ⟨server, hstep, rfl⟩ := stepServer_cases hs
    by_cases hr : r = r'
    · subst hr
      exact .stepped b (.own b hb) (by rw [setServer_self]; exact hstep) (fun _ => rfl) rfl rfl
    · exact .same (setServer_of_ne s hr server) rfl rfl rfl
  | deliver k =>
    simp only [step] at hs
    split at hs
    · rename_i r' op hop
      obtain ⟨server, hstep, rfl⟩ := stepServer_cases hs
      by_cases hr : r = r'
      · subst hr
        exact .stepped _ (.deliver k op (List.mem_of_getElem? hop))
          (by rw [setServer_self]; exact hstep) (fun _ => rfl) rfl rfl
      · exact .same (setServer_of_ne _ hr server) rfl rfl rfl
    · cases hs
  | refuse k =>
    simp only [step] at hs
    split at hs
    · split_ifs at hs
      cases hs
      exact .same rfl rfl rfl rfl
    · cases hs
  | respond r' i =>
    simp only [step] at hs
    split at hs
    · obtain ⟨server, hstep, rfl⟩ := stepServer_cases hs
      by_cases hr : r = r'
      · subst hr
        exact .stepped _ (.respond i) (by rw [setServer_self]; exact hstep) (fun _ => rfl) rfl rfl
      · exact .same (setServer_of_ne _ hr server) rfl rfl rfl
    · cases hs
  | activate r' =>
    simp only [step] at hs
    split_ifs at hs with hover
    obtain ⟨server, hstep, rfl⟩ := stepServer_cases hs
    by_cases hr : r = r'
    · subst hr
      exact .activated hover (by rw [setServer_self]; exact hstep) rfl rfl rfl
    · exact .same (setServer_of_ne s hr server) rfl rfl rfl
  | crash r' =>
    cases hs
    by_cases hr : r = r'
    · subst hr
      exact .crashed (Function.update_self _ _ _) rfl (Function.update_self _ _ _)
        (Function.update_self _ _ _)
    · exact .same (Function.update_of_ne hr _ _) rfl (Function.update_of_ne hr _ _)
        (Function.update_of_ne hr _ _)
  | loseRequest k | loseResponse k => cases hs; exact .same rfl rfl rfl rfl
  | acquire id key ttlMS =>
    simp only [step] at hs
    split at hs
    · cases hs; exact .same rfl rfl rfl rfl
    · cases hs
  | lease id b =>
    obtain ⟨h1, h2, h3, h4⟩ := stepLease_frame (hs : stepLease C s id b = some s')
    exact .same (by rw [h1]) h2 (by rw [h3]) (by rw [h4])

/-! ## Clients and the network -/

section Messages

variable (id : LeaseID) (key : Nat) (request : Option (Client.Request d.serverCount)) (p : Process)
  (response : Option (Fin d.serverCount × Response))

@[simp] theorem send_instant : (s.send id key request).instant = s.instant := by
  cases request <;> rfl

@[simp] theorem send_leases : (s.send id key request).leases = s.leases := by
  cases request <;> rfl

@[simp] theorem send_responses : (s.send id key request).responses = s.responses := by
  cases request <;> rfl

@[simp] theorem consume_instant : (s.consume p response).instant = s.instant := by
  cases response <;> rfl

@[simp] theorem consume_leases : (s.consume p response).leases = s.leases := by
  cases response <;> rfl

@[simp] theorem consume_issued : (s.consume p response).issued = s.issued := by
  cases response <;> rfl

@[simp] theorem consume_nextRequestID :
    (s.consume p response).nextRequestID = s.nextRequestID := by
  cases response <;> rfl

@[simp] theorem consume_requests : (s.consume p response).requests = s.requests := by
  cases response <;> rfl

theorem consume_responses : (s.consume p response).responses ⊆ s.responses := by
  cases response with
  | none => exact fun _ h => h
  | some x => exact List.erase_subset

theorem countP_send (p : Fin d.serverCount × Operation → Bool) :
    (s.send id key request).requests.countP p = s.requests.countP p +
      (request.any fun r => p (r.replica, operation id key r)).toNat := by
  cases request with
  | none => rfl
  | some r =>
    show (s.requests ++ [(r.replica, operation id key r)]).countP p = _
    rw [List.countP_append, List.countP_singleton, Option.any_some]
    cases p (r.replica, operation id key r) <;> rfl

variable (r : Client.Request d.serverCount)

theorem send_requests : (s.send id key (some r)).requests =
    s.requests ++ [(r.replica, operation id key r)] := rfl

theorem send_nextRequestID : (s.send id key (some r)).nextRequestID =
    Function.update s.nextRequestID id.process (r.requestID + 1) := rfl

theorem send_issued : (s.send id key (some r)).issued =
    Function.update s.issued id.process (Function.update (s.issued id.process)
      r.requestID (some ⟨id, r.replica, s.instant⟩)) := rfl

end Messages

/-- The lease that took a step, and the request that it sent. -/
theorem moved_fields {id : LeaseID} {b : d.package.Act} {l l' : d.package.Lease}
    (hs : s' = ((s.setLease id l').consume id.process (d.package.incoming b)).send id
      (d.package.key l) (d.package.outgoing l b)) :
    s'.leases id = some l' ∧ ∀ request, d.package.outgoing l b = some request →
      s'.issued id.process request.requestID = some ⟨id, request.replica, s.instant⟩ := by
  refine ⟨?_, fun request hrequest => ?_⟩
  · rw [hs, send_leases, consume_leases]
    exact Function.update_self _ _ _
  · rw [hs, hrequest, send_issued, Function.update_self, Function.update_self, consume_instant]
    rfl

/-- All that a step of the system can do to the leases and the messages. -/
inductive NetworkStep (C : Clocks d.serverCount) (s s' : State d) : Act d → Prop
  | quiet (a : Act d) (hl : s'.leases = s.leases) (hi : s'.issued = s.issued)
      (hn : s'.nextRequestID = s.nextRequestID) (hq : s'.requests ⊆ s.requests)
      (hp : s'.responses ⊆ s.responses) (ht : s.instant ≤ s'.instant) : NetworkStep C s s' a
  | refused (k : Nat) (r : Fin d.serverCount) (op : Operation) (hop : (r, op) ∈ s.requests)
      (hl : s'.leases = s.leases) (hi : s'.issued = s.issued)
      (hn : s'.nextRequestID = s.nextRequestID) (hq : s'.requests ⊆ s.requests)
      (hp : s'.responses = s.responses ++
        [(r, op.leaseID.process, statusResponse op LeaseStatus.notReady)])
      (ht : s'.instant = s.instant) :
      NetworkStep C s s' (.refuse k)
  | responded (r : Fin d.serverCount) (i : Fin (d.config r).shardCount) (job : Server.Job)
      (response : Response) (hw : (s.servers r).workers i = .reply job response)
      (hl : s'.leases = s.leases) (hi : s'.issued = s.issued)
      (hn : s'.nextRequestID = s.nextRequestID) (hq : s'.requests = s.requests)
      (hp : s'.responses = s.responses ++ [(r, job.op.leaseID.process, response)])
      (ht : s'.instant = s.instant) :
      NetworkStep C s s' (.respond r i)
  | acquired (id : LeaseID) (key ttlMS : Nat) (hnew : s.leases id = none)
      (hs : s' = s.setLease id (d.package.init key ttlMS (C.client id.process s.instant))) :
      NetworkStep C s s' (.acquire id key ttlMS)
  | moved (id : LeaseID) (b : d.package.Act)
      (l l' : d.package.Lease) (hl : s.leases id = some l)
      (hstep : d.package.step (C.client id.process s.instant) l b = some l')
      (hin : ∀ x ∈ d.package.incoming b, (x.1, id.process, x.2) ∈ s.responses)
      (hout : ∀ request ∈ d.package.outgoing l b,
        s.nextRequestID id.process ≤ request.requestID)
      (hs : s' = ((s.setLease id l').consume id.process (d.package.incoming b)).send id
        (d.package.key l) (d.package.outgoing l b)) :
      NetworkStep C s s' (.lease id b)

/-- **What a step does to the leases and the messages.** -/
theorem step_network (hs : step C s a = some s') : NetworkStep C s s' a := by
  have erased : ∀ {α : Type} {l : List α} {k : Nat}, l.eraseIdx k ⊆ l :=
    fun {_ _ _} => (List.eraseIdx_sublist _ _).subset
  cases a with
  | advance =>
    cases hs
    exact .quiet _ rfl rfl rfl (fun _ h => h) (fun _ h => h) (Nat.le_succ _)
  | server r b =>
    simp only [step] at hs
    split_ifs at hs
    obtain ⟨server, -, rfl⟩ := stepServer_cases hs
    exact .quiet _ rfl rfl rfl (fun _ h => h) (fun _ h => h) (le_refl _)
  | deliver k =>
    simp only [step] at hs
    split at hs
    · obtain ⟨server, -, rfl⟩ := stepServer_cases hs
      exact .quiet _ rfl rfl rfl erased (fun _ h => h) (le_refl _)
    · cases hs
  | refuse k =>
    simp only [step] at hs
    split at hs
    · rename_i r op hop
      split_ifs at hs
      cases hs
      exact .refused k r op (List.mem_of_getElem? hop) rfl rfl rfl erased rfl rfl
    · cases hs
  | respond r i =>
    simp only [step] at hs
    split at hs
    · rename_i job response hw
      obtain ⟨server, -, rfl⟩ := stepServer_cases hs
      exact .responded r i job response hw rfl rfl rfl rfl rfl rfl
    · cases hs
  | activate r =>
    simp only [step] at hs
    split_ifs at hs
    obtain ⟨server, -, rfl⟩ := stepServer_cases hs
    exact .quiet _ rfl rfl rfl (fun _ h => h) (fun _ h => h) (le_refl _)
  | crash r => cases hs; exact .quiet _ rfl rfl rfl (fun _ h => h) (fun _ h => h) (le_refl _)
  | loseRequest k => cases hs; exact .quiet _ rfl rfl rfl erased (fun _ h => h) (le_refl _)
  | loseResponse k => cases hs; exact .quiet _ rfl rfl rfl (fun _ h => h) erased (le_refl _)
  | acquire id key ttlMS =>
    simp only [step] at hs
    split at hs
    · rename_i hnew
      cases hs
      exact .acquired id key ttlMS hnew rfl
    · cases hs
  | lease id b =>
    obtain ⟨l, l', hl, hstep, hin, hout, heq⟩ := stepLease_cases (hs : stepLease C s id b = some s')
    exact .moved id b l l' hl hstep hin hout heq

/-- What a step does to a lease that exists. -/
theorem lease_of_step {id : LeaseID} {l : d.package.Lease} (hs : step C s a = some s')
    (hl : s.leases id = some l) : s'.leases id = some l ∨
      ∃ b l', a = .lease id b ∧ s'.leases id = some l' ∧
        d.package.step (C.client id.process s.instant) l b = some l' := by
  cases step_network hs with
  | quiet _ hsame hi hn hq hp ht | refused k r op hop hsame hi hn hq hp ht =>
    exact Or.inl ((congrFun hsame id).trans hl)
  | responded r i job response hw hsame hi hn hq hp ht =>
    exact Or.inl ((congrFun hsame id).trans hl)
  | acquired id' key ttlMS hnew heq =>
    have hne : id ≠ id' := by
      rintro rfl
      cases hnew.symm.trans hl
    rw [heq]
    exact Or.inl ((Function.update_of_ne hne _ _).trans hl)
  | moved id' b l₀ l' hl₀ hstep hin hout heq =>
    by_cases hid : id = id'
    · subst hid
      cases hl₀.symm.trans hl
      exact Or.inr ⟨b, l', rfl, (moved_fields heq).1, hstep⟩
    · refine Or.inl (Eq.trans ?_ hl)
      rw [heq, send_leases, consume_leases]
      exact Function.update_of_ne hid _ _

end RedLease.Cluster

import RedLease.Client1of1.Lease
import RedLease.Cluster.Exclusion
import RedLease.Server.Once

/-!
# Package `client1of1` in the system

One server, and clients that ask it alone. A lease of `client1of1` sends one Acquire in its life, and
there is no healing: an entry that the server has let go does not come back under the same lease ID.
`acquires` counts the places from which an Acquire of a lease could still be inserted; there is at
most one, and none once the lease is stored or returned.

* `solo` and `soloLawful`: package `client1of1` in the system.
* **`acquires_step`**: no step makes an Acquire out of nothing, and the insertion uses it up.
* **`Over.step`**: an entry that has expired, or is gone, stays so.
* **`solo_uninterrupted`**: a successful `Renew` means that the server had the lease stored ever since
  its Acquire was applied, and that nobody else had the key.
-/

namespace RedLease.Cluster

open Lib

/-- Package `client1of1`. -/
def solo : Package 1 where
  Lease := Client1of1.Lease
  Act := Client1of1.Act
  init := Client1of1.Lease.init
  key := Client1of1.Lease.key
  lifecycle := Client1of1.Lease.lifecycle
  validUntil := Client1of1.Lease.validUntil
  step now l a := l.step now a
  outgoing := Client1of1.Lease.outgoing
  incoming := Client1of1.Act.incoming

/-- `client1of1.Client` is lawful, with its one server as the quorum. -/
def soloLawful : solo.Lawful 1 where
  Sound e now l := Client1of1.Lease.Covered e now l
  Abandoned := Client1of1.Lease.Abandoned
  key_init _ _ _ := rfl
  key_step hs := Client1of1.Lease.step_key hs
  sound_init := Client1of1.Lease.covered_init
  sound_mono hle hnow h := h.mono hle hnow
  sound_step h hasked hkept hs := h.step hasked hkept hs
  kept h _ hlt := by
    refine ⟨{0}, le_refl _, fun r hr => ?_⟩
    rw [Finset.mem_singleton.mp hr]
    exact h.valid (lt_of_le_of_lt (Nat.zero_le _) hlt)
  abandoned_step h hs := h.step hs
  abandoned_not_valid h habandoned := habandoned.not_valid h
  abandoned_of_release h hout hkind := Client1of1.Lease.abandoned_of_release h hout hkind

/-- One server, and clients of package `client1of1`. -/
def Deployment.solo (config : Server.Config) (assign : Nat → Fin config.shardCount)
    (cleaners : Nat) : Deployment where
  serverCount := 1
  config _ := config
  assign _ := assign
  cleaners
  package := Cluster.solo

section Solo

variable {config : Server.Config} {assign : Nat → Fin config.shardCount} {cleaners : Nat}
  {C : Clocks 1} {s s' : State (.solo config assign cleaners)} {a : Act (.solo config assign cleaners)}
  {id : LeaseID} {key : Nat}

/-- The server. -/
def soloServer (s : State (.solo config assign cleaners)) :
    Server.State config.shardCount cleaners := s.servers (0 : Fin 1)

/-- The leases, with their type. -/
def soloLease (s : State (.solo config assign cleaners)) (id : LeaseID) :
    Option Client1of1.Lease := s.leases id

theorem soloLease_setLease (s : State (.solo config assign cleaners)) (id : LeaseID)
    (l : Client1of1.Lease) : soloLease (s.setLease id l) id = some l := Function.update_self _ _ _

/-- What a step does to a lease that exists. -/
theorem step_soloLease {l : Client1of1.Lease} (hs : step C s a = some s')
    (hl : soloLease s id = some l) : soloLease s' id = some l ∨
      ∃ b l', a = .lease id b ∧ soloLease s' id = some l' ∧
        l.step (C.client id.process s.instant) b = some l' :=
  lease_of_step hs hl

/-! ## Acquires that may still be inserted -/

/-- `Acquire` has not sent its request. -/
def submitting (s : State (.solo config assign cleaners)) (id : LeaseID) : Bool :=
  (soloLease s id).any fun l => l.main = .acquireSubmit

/-- The number of places from which an Acquire of the lease could be inserted: the call that has not
sent it, the requests in flight, and the worker of the key. -/
def acquires (s : State (.solo config assign cleaners)) (id : LeaseID) (key : Nat) : Nat :=
  (submitting s id).toNat + s.requests.countP (fun x => x.2.acquires id) +
    (((soloServer s).workers (assign key)).mayInsert id).toNat

/-- A worker gets an Acquire only when a request is delivered. -/
theorem mayInsert_step (id : LeaseID) (h : Inv soloLawful C s) (hs : step C s a = some s')
    (ha : ∀ k, a ≠ .deliver k) (i : Fin config.shardCount) :
    (((soloServer s').workers i).mayInsert id).toNat ≤
      (((soloServer s).workers i).mayInsert id).toNat := by
  refine Bool.toNat_le_toNat (Bool.le_iff_imp.mpr fun hmay => ?_)
  have hi : Server.Inv config assign (soloServer s) := (h.servers (0 : Fin 1)).inv
  have stepped : ∀ {b : Server.Act config.shardCount cleaners},
      Server.step config assign (soloServer s) b = some (soloServer s') →
      (∀ op, b ≠ .dequeue i op) → ((soloServer s).workers i).mayInsert id = true := by
    intro b hb hne
    rcases Server.mayInsert_of_step hi hb hmay with hold | ⟨op, rfl, -, -⟩
    · exact hold
    · exact absurd rfl (hne op)
  cases step_server (fun r => (h.servers r).clock) hs (0 : Fin 1) with
  | same hsrv hinst hm ht =>
    rw [soloServer, hsrv] at hmay
    exact hmay
  | stepped b hb hstep hinst hm ht =>
    refine stepped hstep ?_
    rintro op rfl
    cases hb with
    | own _ hlocal => cases hlocal
    | deliver k _ hop => exact ha k rfl
  | activated hover hstep hinst hm ht => exact stepped hstep nofun
  | crashed hsrv hinst hm ht =>
    rw [soloServer, hsrv] at hmay
    cases hmay

/-- A step of a lease moves its Acquire from the call to the network. -/
theorem acquires_move (id : LeaseID) (key : Nat) {now : Time} {l l' : Client1of1.Lease} {b : Client1of1.Act}
    (hs : l.step now b = some l') :
    (decide (l'.main = .acquireSubmit)).toNat + ((l.outgoing b).any fun request =>
      (operation id key request).acquires id).toNat ≤ (decide (l.main = .acquireSubmit)).toNat := by
  cases Client1of1.Lease.step_cases hs with
  | acquire requestID hm | renew requestID ttlMS hm =>
    simp [Client1of1.Lease.outgoing, hm, Operation.acquires, operation,
      Client.Origin.kind]
  | cleanup requestID accepted hm | release requestID accepted hm =>
    cases accepted <;> simp [Client1of1.Lease.outgoing, hm, Operation.acquires, operation,
      Client.Origin.kind]
  | _ => simp_all [Client1of1.Lease.outgoing]

theorem acquires_stepLease (id : LeaseID) {id' : LeaseID} {b : Client1of1.Act}
    (hs : stepLease C s id' b = some s') :
    (submitting s' id).toNat + s'.requests.countP (fun x => x.2.acquires id) ≤
      (submitting s id).toNat + s.requests.countP (fun x => x.2.acquires id) := by
  obtain ⟨l, l', hl, hstep, -, -, heq⟩ := stepLease_cases hs
  have hleases : s'.leases = Function.update s.leases id' (some l') := by
    rw [heq, send_leases, consume_leases]
    rfl
  have hcount : s'.requests.countP (fun x => x.2.acquires id) =
      s.requests.countP (fun x => x.2.acquires id) +
        ((Client1of1.Lease.outgoing l b).any fun request =>
          (operation id' (Client1of1.Lease.key l) request).acquires id).toNat := by
    rw [heq]
    refine (countP_send _ _ _ _).trans ?_
    rw [consume_requests]
    rfl
  rw [hcount]
  by_cases hid : id = id'
  · subst hid
    have hbefore : submitting s id = decide (Client1of1.Lease.main l = .acquireSubmit) := by
      rw [submitting, soloLease, hl]
      rfl
    have hafter : submitting s' id = decide (Client1of1.Lease.main l' = .acquireSubmit) := by
      rw [submitting, soloLease, hleases, Function.update_self]
      rfl
    have hmove := acquires_move id (Client1of1.Lease.key l) hstep
    rw [hbefore, hafter]
    omega
  · have hsame : submitting s' id = submitting s id := by
      rw [submitting, submitting, soloLease, hleases, Function.update_of_ne hid]
      rfl
    have hother : ((Client1of1.Lease.outgoing l b).any fun request =>
        (operation id' (Client1of1.Lease.key l) request).acquires id) = false := by
      rw [Option.any_eq_false]
      intro request _
      exact decide_eq_false fun h => hid h.1.symm
    rw [hsame, hother]
    exact le_refl _

/-- **No step makes an Acquire out of nothing.** -/
theorem acquires_step (h : Inv soloLawful C s) (hs : step C s a = some s') {l : Client1of1.Lease}
    (hl : soloLease s id = some l) : acquires s' id key ≤ acquires s id key := by
  have hworker := mayInsert_step id h hs
  -- what leaves the leases alone and only takes requests away
  have quiet : (∀ k, a ≠ .deliver k) → s'.leases = s.leases →
      s'.requests.Sublist s.requests → acquires s' id key ≤ acquires s id key := by
    intro ha hleases hsub
    have hsubmit : submitting s' id = submitting s id := by
      rw [submitting, submitting, soloLease, soloLease, hleases]
    have hcount := hsub.countP_le (p := fun x => x.2.acquires id)
    have := hworker ha (assign key)
    rw [acquires, acquires, hsubmit]
    omega
  cases a with
  | advance =>
    cases hs
    exact quiet (by rintro _ ⟨⟩) rfl (List.Sublist.refl _)
  | server r b =>
    simp only [step] at hs
    split_ifs at hs
    obtain ⟨server, -, rfl⟩ := stepServer_cases hs
    exact quiet (by rintro _ ⟨⟩) rfl (List.Sublist.refl _)
  | deliver k =>
    simp only [step] at hs
    split at hs
    · rename_i r op hop
      obtain ⟨server, hstep, rfl⟩ := stepServer_cases hs
      obtain rfl : r = (0 : Fin 1) := Subsingleton.elim (α := Fin 1) r 0
      have hi : Server.Inv config assign (soloServer s) := (h.servers (0 : Fin 1)).inv
      have hserver : soloServer (State.setServer { s with requests := s.requests.eraseIdx k }
          (0 : Fin 1) server) = server := setServer_self _ _ _
      have hcount : (s.requests.eraseIdx k).countP (fun x => x.2.acquires id) +
          (op.acquires id).toNat = s.requests.countP (fun x => x.2.acquires id) :=
        Family.countP_eraseIdx _ hop
      have hmay : ((server.workers (assign key)).mayInsert id).toNat ≤
          (((soloServer s).workers (assign key)).mayInsert id).toNat + (op.acquires id).toNat := by
        cases hnew : (server.workers (assign key)).mayInsert id with
        | false => exact Nat.zero_le _
        | true =>
          rcases Server.mayInsert_of_step hi hstep hnew with hold | ⟨op', heq, hacquires, -⟩
          · rw [hold]
            exact Nat.le_add_right _ _
          · obtain rfl : op = op' := (Server.Act.dequeue.inj heq).2
            rw [hacquires]
            exact Nat.le_add_left _ _
      rw [acquires, acquires, hserver, ← hcount]
      show (submitting s id).toNat + (s.requests.eraseIdx k).countP (fun x => x.2.acquires id) + _ ≤ _
      omega
    · cases hs
  | refuse k =>
    simp only [step] at hs
    split at hs
    · split_ifs at hs
      cases hs
      exact quiet (by rintro _ ⟨⟩) rfl (List.eraseIdx_sublist _ _)
    · cases hs
  | respond r i =>
    simp only [step] at hs
    split at hs
    · obtain ⟨server, -, rfl⟩ := stepServer_cases hs
      exact quiet (by rintro _ ⟨⟩) rfl (List.Sublist.refl _)
    · cases hs
  | activate r =>
    simp only [step] at hs
    split_ifs at hs
    obtain ⟨server, -, rfl⟩ := stepServer_cases hs
    exact quiet (by rintro _ ⟨⟩) rfl (List.Sublist.refl _)
  | crash r =>
    cases hs
    exact quiet (by rintro _ ⟨⟩) rfl (List.Sublist.refl _)
  | loseRequest k =>
    cases hs
    exact quiet (by rintro _ ⟨⟩) rfl (List.eraseIdx_sublist _ _)
  | loseResponse k =>
    cases hs
    exact quiet (by rintro _ ⟨⟩) rfl (List.Sublist.refl _)
  | acquire id' key' ttlMS =>
    have := hworker (by rintro _ ⟨⟩) (assign key)
    rcases step_soloLease hs hl with hsame | ⟨b, l', ha, -, -⟩
    · have hsubmit : submitting s' id = submitting s id := by
        rw [submitting, submitting, hsame, hl]
      simp only [step] at hs
      split at hs
      · cases hs
        rw [acquires, acquires, hsubmit]
        exact Nat.add_le_add_left this _
      · cases hs
    · cases ha
  | lease id' b =>
    have hw := hworker (by rintro _ ⟨⟩) (assign key)
    have := acquires_stepLease id (hs : stepLease C s id' b = some s')
    rw [acquires, acquires]
    omega

/-- **The insertion uses up the Acquire.** -/
theorem acquires_insert (h : Inv soloLawful C s) {i : Fin config.shardCount}
    {pool : Server.PoolGet} {job : Server.Job}
    (hs : step C s (.server (0 : Fin 1) (.work i pool)) = some s')
    (hw : (soloServer s).workers i = .insert job) (hkey : job.op.key = key)
    (hid : job.op.leaseID = id) : acquires s' id key < acquires s id key := by
  have hi : Server.Inv config assign (soloServer s) := (h.servers (0 : Fin 1)).inv
  obtain rfl : assign key = i := hkey ▸ hi.home i job.op (by rw [hw]; rfl)
  simp only [step] at hs
  split_ifs at hs
  obtain ⟨server, hstep, rfl⟩ := stepServer_cases hs
  have hserver : soloServer (State.setServer s (0 : Fin 1) server) = server := setServer_self _ _ _
  have hbefore := Server.mayInsert_of_insert hi hw hid
  have hafter : (server.workers (assign key)).mayInsert id = false :=
    Server.not_mayInsert_of_insert hw hstep
  rw [acquires, acquires, hserver, hbefore, hafter]
  exact Nat.lt_succ_self _

/-! ## At most one Acquire -/

/-- A lease has at most one Acquire on its way to the store, and none once it is stored or
returned. -/
structure Once (s : State (.solo config assign cleaners)) (id : LeaseID) (l : Client1of1.Lease) :
    Prop where
  most : acquires s id l.key ≤ 1
  stored : ∀ t, s.view (0 : Fin 1) l.key = some (id, t) → acquires s id l.key = 0
  owned : l.main.owned = true → acquires s id l.key = 0

/-- What was not stored and is not on its way to the store is not stored. -/
theorem absent_step (h : Inv soloLawful C s) (hs : step C s a = some s')
    (hnone : acquires s id key = 0) (habsent : ∀ t, s.view (0 : Fin 1) key ≠ some (id, t)) :
    ∀ t, s'.view (0 : Fin 1) key ≠ some (id, t) := by
  intro t hview
  rcases view_inserted h.servers hs hview with ⟨t₀, hold⟩ | ⟨i, pool, job, rfl, hw, hkey, hid⟩
  · exact habsent t₀ hold
  · have := acquires_insert h hs hw hkey hid
    omega

/-- What the one Acquire of each lease amounts to. -/
structure SoloInv (s : State (.solo config assign cleaners)) : Prop where
  once : ∀ id l, soloLease s id = some l → Once s id l
  known : ∀ k id t, s.view (0 : Fin 1) k = some (id, t) →
    ∃ l, soloLease s id = some l ∧ l.key = k

theorem soloInv_init (C : Clocks 1) : SoloInv (State.init (.solo config assign cleaners) C) where
  once _ _ := nofun
  known _ _ _ := nofun

/-- A lease that does not exist has no Acquire anywhere. -/
theorem acquires_of_none (h : Inv soloLawful C s) (hnone : soloLease s id = none) :
    acquires s id key = 0 := by
  have hgone : ∀ {op : Operation}, Genuine soloLawful s (0 : Fin 1) op → op.acquires id = false := by
    intro op hg
    obtain ⟨l, hl, -⟩ := hg.lease
    refine decide_eq_false fun hop => ?_
    rw [hop.1] at hl
    cases hl.symm.trans hnone
  have hsubmit : submitting s id = false := by rw [submitting, hnone]; rfl
  have hrequests : s.requests.countP (fun x => x.2.acquires id) = 0 := by
    rw [List.countP_eq_zero]
    rintro ⟨r, op⟩ hin
    obtain rfl : r = (0 : Fin 1) := Subsingleton.elim (α := Fin 1) r 0
    rw [hgone (h.requests _ op hin)]
    exact Bool.false_ne_true
  have hworker : ((soloServer s).workers (assign key)).mayInsert id = false := by
    rw [Bool.eq_false_iff]
    intro hmay
    obtain ⟨-, op, hop, hacquires⟩ := Server.mayInsert_iff.mp hmay
    rw [hgone (h.workers (0 : Fin 1) (assign key) op hop)] at hacquires
    cases hacquires
  rw [acquires, hsubmit, hrequests, hworker]
  rfl

/-- A call of `Acquire` that has not sent its request. -/
theorem once_acquire (h : Inv soloLawful C s) (hi : SoloInv s) (ttlMS : Nat)
    (hnew : soloLease s id = none) (hs : s' = s.setLease id
      (Client1of1.Lease.init key ttlMS (C.client id.process s.instant))) :
    Once s' id (Client1of1.Lease.init key ttlMS (C.client id.process s.instant)) := by
  subst hs
  refine ⟨?_, fun t hview => ?_, nofun⟩
  · have hzero : acquires s id key = 0 := acquires_of_none h hnew
    have hsubmit := Bool.toNat_le (submitting (s.setLease id
      (Client1of1.Lease.init key ttlMS (C.client id.process s.instant))) id)
    rw [acquires] at hzero ⊢
    show _ + s.requests.countP _ + (((soloServer s).workers (assign key)).mayInsert id).toNat ≤ 1
    omega
  · obtain ⟨l, hl, -⟩ := hi.known key id t hview
    cases hl.symm.trans hnew

/-- A successful call returns a valid lease. -/
theorem valid_of_success (h : Inv soloLawful C s) {b : Client1of1.Act}
    (hs : step C s (.lease id b) = some s') {l l' : Client1of1.Lease}
    (hl : soloLease s id = some l) (hl' : soloLease s' id = some l')
    (hactive : l.main.calling = true) (hlife : l'.lifecycle = l.lifecycle)
    (hvalid : C.client id.process s.instant < l'.validUntil) : Valid C s' id l'.key := by
  have hcovered : l.Covered _ _ := h.leases id l hl
  have hinstant := (stepLease_frame (hs : stepLease C s id b = some s')).2.1
  refine ⟨l', hl', rfl, hlife.trans (hcovered.active hactive), ?_⟩
  rw [hinstant]
  exact hvalid

theorem valid_of_acquired (h : Inv soloLawful C s) {b : Client1of1.Act}
    (hs : step C s (.lease id b) = some s') {l l' : Client1of1.Lease}
    (hl : soloLease s id = some l) (hl' : soloLease s' id = some l')
    (hstep : l.step (C.client id.process s.instant) b = some l') (hbefore : l.main.owned = false)
    (hafter : l'.main.owned = true) : Valid C s' id l'.key := by
  cases Client1of1.Lease.step_cases hstep with
  | acquired requestID response hm hid hsucc ho hnow =>
    exact valid_of_success h hs hl hl' (by rw [hm]; rfl) rfl hnow
  | acquire requestID hm | cleanup requestID accepted hm | notSubmitted requestID hm
  | notAcquired requestID response canceled hm hr => cases hafter
  | renew requestID ttlMS hm | release requestID accepted hm | renewed requestID response hm
  | renewNotSubmitted requestID ttlMS hm | notRenewed requestID response canceled hm hr
  | renewRefused o ttlMS hm | renewing o ttlMS hm | releasing o hm | released o hm =>
    rw [hm] at hbefore; cases hbefore

/-- **At most one Acquire, and none for a lease that is stored or returned.** -/
theorem step_once (h : Inv soloLawful C s) (hi : SoloInv s) (hs : step C s a = some s')
    {l l' : Client1of1.Lease} (hl : soloLease s id = some l) (hl' : soloLease s' id = some l') :
    Once s' id l' := by
  have hstep := step_soloLease hs hl
  have hkey : l'.key = l.key := by
    rcases hstep with hsame | ⟨b, l₁, -, hl₁, hb⟩
    · cases hsame.symm.trans hl'
      rfl
    · cases hl₁.symm.trans hl'
      exact Client1of1.Lease.step_key hb
  obtain ⟨hmost, hstored, howned⟩ := hi.once id l hl
  rw [← hkey] at hmost hstored howned
  have hle : acquires s' id l'.key ≤ acquires s id l'.key := acquires_step h hs hl
  have hstored' : ∀ t, s'.view (0 : Fin 1) l'.key = some (id, t) → acquires s' id l'.key = 0 := by
    intro t hview
    rcases view_inserted h.servers hs hview with ⟨t₀, hold⟩ | ⟨i, pool, job, rfl, hw, hk, hid⟩
    · exact Nat.le_zero.mp (hle.trans (hstored t₀ hold).le)
    · have := acquires_insert h hs hw hk hid
      omega
  refine ⟨hle.trans hmost, hstored', fun howned' => ?_⟩
  rcases hstep with hsame | ⟨b, l₁, rfl, hl₁, hb⟩
  · cases hsame.symm.trans hl'
    exact Nat.le_zero.mp (hle.trans (howned howned').le)
  · cases hl₁.symm.trans hl'
    cases howned₀ : l.main.owned with
    | true => exact Nat.le_zero.mp (hle.trans (howned howned₀).le)
    | false =>
      -- this is the return of `Acquire`, which leaves a valid lease
      obtain ⟨A, hA, hquorum⟩ := (valid_of_acquired h hs hl hl' hb howned₀ howned').stored (step_inv h hs)
      obtain ⟨r, hr⟩ := Finset.card_pos.mp hA
      obtain ⟨t, hview, -⟩ := hquorum r hr
      obtain rfl : r = (0 : Fin 1) := Subsingleton.elim (α := Fin 1) r 0
      exact hstored' t hview

theorem step_soloInv (h : Inv soloLawful C s) (hi : SoloInv s) (hs : step C s a = some s') :
    SoloInv s' where
  once id l' hl' := by
    cases hl : soloLease s id with
    | some l => exact step_once h hi hs hl hl'
    | none =>
      -- the lease is new
      cases step_network hs with
      | quiet _ hsame hi hn hq hp ht => cases hl.symm.trans ((congrFun hsame id).symm.trans hl')
      | refused k r op hop hsame hi hn hq hp ht
      | responded r i job response hw hsame hi hn hq hp ht =>
        cases hl.symm.trans ((congrFun hsame id).symm.trans hl')
      | acquired id' key ttlMS hnew heq =>
        by_cases hid : id = id'
        · subst hid
          obtain rfl : Client1of1.Lease.init key ttlMS (C.client id.process s.instant) = l' := by
            rw [heq] at hl'
            exact Option.some.inj ((soloLease_setLease s id _).symm.trans hl')
          exact once_acquire h hi ttlMS hl heq
        · rw [heq] at hl'
          cases hl.symm.trans ((Function.update_of_ne hid _ _).symm.trans hl')
      | moved id' b l₀ l₁ hl₀ hstep hin hout heq =>
        by_cases hid : id = id'
        · subst hid
          cases hl.symm.trans hl₀
        · rw [heq, soloLease, send_leases, consume_leases] at hl'
          cases hl.symm.trans ((Function.update_of_ne hid _ _).symm.trans hl')
  known k id t hview := by
    obtain ⟨l, hl, hkey⟩ : ∃ l, soloLease s id = some l ∧ l.key = k := by
      rcases view_inserted h.servers hs hview with ⟨t₀, hold⟩ | ⟨i, pool, job, rfl, hw, rfl, rfl⟩
      · exact hi.known k id t₀ hold
      · exact (h.workers (0 : Fin 1) i job.op (by rw [hw]; rfl)).lease
    obtain ⟨l', hl', hsame, -⟩ := (later_of_step h hs).leases hl
    exact ⟨l', hl', hsame.trans hkey⟩

/-! ## Entries that are over -/

/-- The server has let the lease go, or will: what it has stored has expired, and no Renew that is
being applied has read the clock before that. -/
structure Over (s : State (.solo config assign cleaners)) (id : LeaseID) (key : Nat) : Prop where
  lease : ∃ l, soloLease s id = some l
  acquires : acquires s id key = 0
  expired : ∀ t, (soloServer s).stored assign key = some (id, t) → t ≤ (soloServer s).clock
  early : ∀ t job, (soloServer s).stored assign key = some (id, t) →
    ((soloServer s).workers (assign key)).entering = some job → job.op.kind = .renew →
    job.op.leaseID = id → t ≤ job.now

/-- A step of the server brings no entry of a lease that is over. -/
theorem Over.stored_of_step (h : Inv soloLawful C s) (ho : Over s id key)
    {b : Server.Act config.shardCount cleaners} {server : Server.State config.shardCount cleaners}
    (hs : Server.step config assign (soloServer s) b = some server) {t : Time}
    (hv : server.stored assign key = some (id, t)) :
    (soloServer s).stored assign key = some (id, t) := by
  have hi : Server.Inv config assign (soloServer s) := (h.servers (0 : Fin 1)).inv
  have hentry := (Server.step_sound hi hs).2.2 (assign key) key
  rw [show (server.shards (assign key)).view key = some (id, t) from hv] at hentry
  generalize hv₀ : ((soloServer s).shards (assign key)).view key = e at hentry
  cases hentry with
  | same => exact hv₀
  | renewed j d hj hkind hkey hlive hd =>
    -- the Renew would have read the clock before the deadline
    have hentering := Server.entering_of_acting (hi.workers _) (Server.worker_acting hj) hkind
    exact absurd hlive (not_lt.mpr (ho.early d j hv₀ hentering hkind rfl))
  | acquired j hj hkind hkey =>
    have hmay := Server.mayInsert_of_acting (Server.worker_acting hj) rfl hkind
    have hzero := ho.acquires
    rw [Cluster.acquires, hmay] at hzero
    cases hzero

theorem Over.early_of_step (h : Inv soloLawful C s) (ho : Over s id key)
    {b : Server.Act config.shardCount cleaners} {server : Server.State config.shardCount cleaners}
    (hs : Server.step config assign (soloServer s) b = some server)
    (hb : ∀ i now, b = .apply i now → now = (soloServer s).clock) {t : Time} {job : Server.Job}
    (hv : (soloServer s).stored assign key = some (id, t))
    (hjob : (server.workers (assign key)).entering = some job) (hkind : job.op.kind = .renew)
    (hid : job.op.leaseID = id) : t ≤ job.now := by
  have hi : Server.Inv config assign (soloServer s) := (h.servers (0 : Fin 1)).inv
  have hne : job.op.kind ≠ .acquire := by
    rw [hkind]
    nofun
  rcases Server.entering_of_step hi hs hjob hne with ⟨job₀, hjob₀, hop, hnow⟩ | happly
  · rw [← hnow]
    rw [← hop] at hkind hid
    exact ho.early t job₀ hv hjob₀ hkind hid
  · rw [hb _ _ happly]
    exact ho.expired t hv

/-- **What is over stays over.** -/
theorem Over.step (h : Inv soloLawful C s) (ho : Over s id key) (hs : step C s a = some s') :
    Over s' id key := by
  have hlater := later_of_step h hs
  obtain ⟨l, hl⟩ := ho.lease
  obtain ⟨l', hl', -⟩ := hlater.leases hl
  have hzero : Cluster.acquires s' id key = 0 :=
    Nat.le_zero.mp ((acquires_step h hs hl).trans ho.acquires.le)
  have hclock : (soloServer s).clock ≤ (soloServer s').clock :=
    clock_mono h.servers hs (0 : Fin 1) hlater.instant
  have hstepped : ∀ {b : Server.Act config.shardCount cleaners},
      Server.step config assign (soloServer s) b = some (soloServer s') →
      (∀ i now, b = .apply i now → now = (soloServer s).clock) → Over s' id key := by
    intro b hb hreads
    refine ⟨⟨l', hl'⟩, hzero, fun t hv => ?_, fun t job hv hjob hkind hid => ?_⟩
    · exact (ho.expired t (ho.stored_of_step h hb hv)).trans hclock
    · exact ho.early_of_step h hb hreads (ho.stored_of_step h hb hv) hjob hkind hid
  cases step_server (fun r => (h.servers r).clock) hs (0 : Fin 1) with
  | same hsrv hinst hm ht =>
    refine ⟨⟨l', hl'⟩, hzero, ?_, ?_⟩
    · rw [soloServer, hsrv]
      exact ho.expired
    · rw [soloServer, hsrv]
      exact ho.early
  | stepped b hb hstep hinst hm ht =>
    refine hstepped hstep ?_
    rintro i now rfl
    cases hb with
    | own _ hlocal => exact of_decide_eq_true hlocal
  | activated hover hstep hinst hm ht => exact hstepped hstep nofun
  | crashed hsrv hinst hm ht =>
    have hnone : (soloServer s').stored assign key = none := by
      rw [soloServer, hsrv]
      exact Server.LeaseShard.view_empty _
    refine ⟨⟨l', hl'⟩, hzero, fun t hv => ?_, fun t job hv => ?_⟩
    · cases hnone.symm.trans hv
    · cases hnone.symm.trans hv

/-! ## The answer to a Renew -/

/-- The server has answered this request, a Renew, with OK. -/
def Answered (s : State (.solo config assign cleaners)) (p : Process) (requestID : Nat) : Prop :=
  (∃ i, ∃ x ∈ ((soloServer s).workers i).answer,
    x.1.op.leaseID.process = p ∧ x.2.requestID = requestID ∧ Server.Renewed x.2) ∨
  ∃ x ∈ s.responses, x.2.1 = p ∧ x.2.2.requestID = requestID ∧ Server.Renewed x.2.2

instance (s : State (.solo config assign cleaners)) (p : Process) (requestID : Nat) :
    Decidable (Answered s p requestID) := inferInstanceAs (Decidable (_ ∨ _))

/-- **A Renew is answered with OK by a section that finds its lease unexpired.** -/
theorem answered_of_step (h : Inv soloLawful C s) (hs : step C s a = some s') {p : Process}
    {requestID : Nat} (hbefore : ¬ Answered s p requestID) (hafter : Answered s' p requestID) :
    ∃ i job d, (soloServer s).workers i = .lock job ∧ job.op.kind = .renew ∧
      job.op.leaseID.process = p ∧ job.op.requestID = requestID ∧
      ((soloServer s).shards i).view job.op.key = some (job.op.leaseID, d) ∧ job.now < d := by
  have h' := step_inv h hs
  have hold : ∀ {x : Fin 1 × Process × Response}, x ∈ s.responses → x.2.1 = p →
      x.2.2.requestID = requestID → ¬ Server.Renewed x.2.2 :=
    fun hin hp hid hr => hbefore (Or.inr ⟨_, hin, hp, hid, hr⟩)
  rcases hafter with ⟨i, ⟨job, r⟩, hanswer, hp, hid, hr⟩ | ⟨⟨r₀, p', r⟩, hin, rfl, hid, hr⟩
  · -- the answer is at a worker
    have hnone : ((soloServer s).workers i).answer ≠ some (job, r) :=
      fun hw => hbefore (Or.inl ⟨i, _, hw, hp, hid, hr⟩)
    have hrequest : job.op.requestID = requestID :=
      (((h'.servers (0 : Fin 1)).answers i).answer hanswer).requestID.symm.trans hid
    have hstepped : ∀ {b : Server.Act config.shardCount cleaners},
        Server.step config assign (soloServer s) b = some (soloServer s') →
        ∃ d, (soloServer s).workers i = .lock job ∧ job.op.kind = .renew ∧
          ((soloServer s).shards i).view job.op.key = some (job.op.leaseID, d) ∧ job.now < d := by
      intro b hb
      obtain ⟨hw, hkind, d, hview, hlive⟩ :=
        (Server.renewed_of_step hb hanswer hr).resolve_left hnone
      exact ⟨d, hw, hkind, hview, hlive⟩
    cases step_server (fun r => (h.servers r).clock) hs (0 : Fin 1) with
    | same hsrv hinst hm ht =>
      rw [soloServer, hsrv] at hanswer
      exact absurd hanswer hnone
    | stepped b hb hstep hinst hm ht | activated hover hstep hinst hm ht =>
      obtain ⟨d, hw, hkind, hview, hlive⟩ := hstepped hstep
      exact ⟨i, job, d, hw, hkind, hp, hrequest, hview, hlive⟩
    | crashed hsrv hinst hm ht =>
      rw [soloServer, hsrv] at hanswer
      cases hanswer
  · -- a response in flight was there, or it was at a worker
    exfalso
    cases step_network hs with
    | quiet _ hl hi hn hq hresponses ht => exact hold (hresponses hin) rfl hid hr
    | refused k r' op hop hl hi hn hq hresponses ht =>
      rw [hresponses] at hin
      rcases List.mem_append.mp hin with hin | hin
      · exact hold hin rfl hid hr
      · cases List.mem_singleton.mp hin
        cases hk : op.kind <;> simp only [statusResponse, hk] at hr <;> cases hr.2
    | responded r' i job response hw hl hi hn hq hresponses ht =>
      rw [hresponses] at hin
      rcases List.mem_append.mp hin with hin | hin
      · exact hold hin rfl hid hr
      · obtain ⟨-, rfl, rfl⟩ : r₀ = r' ∧ p' = job.op.leaseID.process ∧ r = response := by
          simpa only [Prod.mk.injEq] using List.mem_singleton.mp hin
        obtain rfl : r' = (0 : Fin 1) := Subsingleton.elim (α := Fin 1) r' 0
        refine hbefore (Or.inl ⟨i, (job, r), ?_, rfl, hid, hr⟩)
        rw [Option.mem_def, soloServer, hw]
        rfl
    | acquired id' key ttlMS hnew heq =>
      rw [heq] at hin
      exact hold hin rfl hid hr
    | moved id' b l l' hl hstep hresponse hout heq =>
      rw [heq, send_responses] at hin
      exact hold (consume_responses (s := s.setLease id' l') _ _ hin) rfl hid hr

/-! ## A successful Renew -/

/-- In this step a `Renew` of lease `id` on `key` that waits for the response to `requestID` returns
without an error. -/
def RenewReturns (C : Clocks 1) (s s' : State (.solo config assign cleaners)) (id : LeaseID)
    (key requestID : Nat) (b : Client1of1.Act) : Prop :=
  step C s (.lease id b) = some s' ∧
    (∃ l ∈ soloLease s id, l.key = key ∧ l.main = .renewWait requestID) ∧
    ∃ l ∈ soloLease s' id, l.main = .returned .renewed

/-- `Acquire` has returned this lease on `key`. -/
def SoloReturned (s : State (.solo config assign cleaners)) (id : LeaseID) (key : Nat) : Prop :=
  ∃ l ∈ soloLease s id, l.key = key ∧ l.main.owned = true

instance (s : State (.solo config assign cleaners)) (id : LeaseID) (key : Nat) :
    Decidable (SoloReturned s id key) := inferInstanceAs (Decidable (∃ _ ∈ _, _))

/-- The response that a `Renew` returns with: it was asked for by this lease, it is there, and it
leaves the lease valid. -/
theorem RenewReturns.answered (h : Inv soloLawful C s) {requestID : Nat} {b : Client1of1.Act}
    (hr : RenewReturns C s s' id key requestID b) :
    Answered s id.process requestID ∧
      (∃ x, s.issued id.process requestID = some x ∧ x.leaseID = id) ∧ Valid C s' id key := by
  obtain ⟨hs, ⟨l, hl, rfl, hm⟩, l', hl', hm'⟩ := hr
  obtain ⟨l₀, l₁, hl₀, hstep, hin, -, heq⟩ := stepLease_cases (hs : stepLease C s id b = some s')
  cases hl₀.symm.trans hl
  cases (moved_fields heq).1.symm.trans hl'
  have hkey := Client1of1.Lease.step_key hstep
  have hcovered : l.Covered _ _ := h.leases id l hl
  cases Client1of1.Lease.step_cases hstep with
  | renewed requestID' response hm₁ hid hsucc ho hnow =>
    cases hm₁.symm.trans hm
    refine ⟨Or.inr ⟨((0 : Fin 1), id.process, response), hin _ rfl, rfl, hid, ho, ?_⟩, ?_, ?_⟩
    · rcases hsucc with ⟨hacquire, -⟩ | ⟨-, hok⟩
      · rw [ho] at hacquire
        cases hacquire
      · exact hok
    · obtain ⟨t, hissued, -⟩ := hcovered.waiting requestID (by rw [hm]; rfl)
      exact ⟨_, hissued, rfl⟩
    · have hvalid := valid_of_success h hs hl hl' (by rw [hm]; rfl) rfl
        (lt_of_lt_of_le hnow (le_max_right _ _))
      exact hvalid
  | _ => cases hm'

/-- The lease exists, and no Acquire of it is on its way to the store. -/
def Spent (C : Clocks 1) (s : State (.solo config assign cleaners)) (id : LeaseID) (key : Nat) :
    Prop :=
  Inv soloLawful C s ∧ (∃ l, soloLease s id = some l) ∧ acquires s id key = 0

theorem spent_step (h : Spent C s id key) (hs : step C s a = some s') : Spent C s' id key := by
  obtain ⟨h, ⟨l, hl⟩, hzero⟩ := h
  obtain ⟨l', hl', -⟩ := (later_of_step h hs).leases hl
  exact ⟨step_inv h hs, ⟨l', hl'⟩, Nat.le_zero.mp ((acquires_step h hs hl).trans hzero.le)⟩

theorem spent_of_exec {acts : List (Act (.solo config assign cleaners))} (h : Spent C s id key)
    (he : Trans.exec (step C) s acts = some s') : Spent C s' id key :=
  Trans.exec_invariant (I := fun s => Spent C s id key) (fun hi hs => spent_step hi hs) h he

/-- **A Renew of a lease that is over is not answered with OK.** -/
theorem not_answered_of_over (h : Inv soloLawful C s) (ho : Over s id key) {l : Client1of1.Lease}
    (hl : soloLease s' id = some l) (hkey : l.key = key) {requestID : Nat}
    (hno : ¬ Answered s id.process requestID)
    {acts : List (Act (.solo config assign cleaners))} (he : Trans.exec (step C) s acts = some s')
    (hissued : ∃ x, s'.issued id.process requestID = some x ∧ x.leaseID = id) :
    ¬ Answered s' id.process requestID := by
  intro hyes
  obtain ⟨before, a, after, s₁, s₂, h₁, hs, h₂, hno₁, hyes₂⟩ := Trans.exec_first
    (Q := fun s => Answered s id.process requestID) hno hyes he
  have hover : ∀ {s : State (.solo config assign cleaners)} {a s'},
      Inv soloLawful C s ∧ Over s id key → step C s a = some s' →
      Inv soloLawful C s' ∧ Over s' id key :=
    fun hi hs => ⟨step_inv hi.1 hs, hi.2.step hi.1 hs⟩
  obtain ⟨hinv₁, hover₁⟩ := Trans.exec_invariant hover ⟨h, ho⟩ h₁
  obtain ⟨i, job, d, hw, hkind, hp, hid, hview, hlive⟩ := answered_of_step hinv₁ hs hno₁ hyes₂
  have hop : ((soloServer s₁).workers i).operation = some job.op := by
    rw [hw]
    rfl
  obtain ⟨⟨t, ht⟩, ⟨l₁, hl₁, hkey₁⟩, -⟩ := hinv₁.workers (0 : Fin 1) i job.op hop
  -- the request is of this lease, and the lease has its key
  have hlater : ∀ {s : State (.solo config assign cleaners)} {a s'},
      Inv soloLawful C s ∧ s.issued id.process requestID = some ⟨job.op.leaseID, (0 : Fin 1), t⟩ ∧
        (∃ l, soloLease s job.op.leaseID = some l ∧ l.key = job.op.key) → step C s a = some s' →
      Inv soloLawful C s' ∧ s'.issued id.process requestID = some ⟨job.op.leaseID, (0 : Fin 1), t⟩ ∧
        ∃ l, soloLease s' job.op.leaseID = some l ∧ l.key = job.op.key := by
    rintro s a s' ⟨hi, hx, l, hl, hkey⟩ hs
    have hlater := later_of_step hi hs
    obtain ⟨l', hl', hsame, -⟩ := hlater.leases hl
    exact ⟨step_inv hi hs, hlater.issued hx, l', hl', hsame.trans hkey⟩
  rw [hp, hid] at ht
  have hrun : Trans.exec (step C) s₁ (a :: after) = some s' := Trans.exec_cons.mpr ⟨s₂, hs, h₂⟩
  obtain ⟨-, hx, l', hl', hkey'⟩ :=
    Trans.exec_invariant hlater ⟨hinv₁, ht, l₁, hl₁, hkey₁⟩ hrun
  obtain ⟨x, hx', rfl⟩ := hissued
  cases hx.symm.trans hx'
  cases hl'.symm.trans hl
  obtain rfl : job.op.key = key := hkey'.symm.trans hkey
  obtain rfl : assign job.op.key = i := (hinv₁.servers (0 : Fin 1)).inv.home i job.op hop
  have hentering : ((soloServer s₁).workers (assign job.op.key)).entering = some job := by
    rw [hw]
    rfl
  exact absurd hlive (not_lt.mpr (hover₁.early d job hview hentering hkind rfl))

/-- The lease is stored, and unexpired unless a Renew of it that has read the clock before the
deadline is being applied. -/
def Held (s : State (.solo config assign cleaners)) (id : LeaseID) (key : Nat) : Prop :=
  ∃ t, (soloServer s).stored assign key = some (id, t) ∧
    ((soloServer s).clock < t ∨ ∃ job ∈ ((soloServer s).workers (assign key)).entering,
      job.op.kind = .renew ∧ job.op.leaseID = id ∧ job.now < t)

theorem over_of_not_held (hl : ∃ l, soloLease s id = some l) (hzero : acquires s id key = 0)
    (h : ¬ Held s id key) : Over s id key where
  lease := hl
  acquires := hzero
  expired t hv := not_lt.mp fun hlt => h ⟨t, hv, Or.inl hlt⟩
  early t job hv hjob hkind hid :=
    not_lt.mp fun hlt => h ⟨t, hv, Or.inr ⟨job, hjob, hkind, hid, hlt⟩⟩

/-- What is stored is what the key's owner is decided by. -/
theorem view_of_stored (h : Inv soloLawful C s) {x : LeaseID × Time}
    (hv : (soloServer s).stored assign key = some x) : s.view (0 : Fin 1) key = some x := by
  have hactive : (soloServer s).phase ≠ .quarantine := by
    intro hq
    have hnone : (soloServer s).stored assign key = none :=
      ((h.servers (0 : Fin 1)).resting hq).entries (assign key) key
    cases hnone.symm.trans hv
  exact (if_neg hactive).trans hv

/-- A valid lease is the one that is stored. -/
theorem Valid.view (h : Inv soloLawful C s) (hv : Valid C s id key) :
    ∃ t, s.view (0 : Fin 1) key = some (id, t) := by
  obtain ⟨A, hA, hquorum⟩ := hv.stored h
  obtain ⟨r, hr⟩ := Finset.card_pos.mp hA
  obtain ⟨t, hview, -⟩ := hquorum r hr
  obtain rfl : r = (0 : Fin 1) := Subsingleton.elim (α := Fin 1) r 0
  exact ⟨t, hview⟩

theorem soloInv_of_exec {acts : List (Act (.solo config assign cleaners))}
    (he : Trans.exec (step C) (State.init _ C) acts = some s) :
    Inv soloLawful C s ∧ SoloInv s := by
  have hstep : ∀ {s : State (.solo config assign cleaners)} {a s'},
      Inv soloLawful C s ∧ SoloInv s → step C s a = some s' → Inv soloLawful C s' ∧ SoloInv s' :=
    fun hi hs => ⟨step_inv hi.1 hs, step_soloInv hi.1 hi.2 hs⟩
  exact Trans.exec_invariant hstep 
    ⟨inv_init (d := .solo config assign cleaners) soloLawful C, soloInv_init C⟩ he

/-- What the server has let go does not come back. -/
theorem absent_of_exec {acts : List (Act (.solo config assign cleaners))} (h : Spent C s id key)
    (habsent : ∀ t, s.view (0 : Fin 1) key ≠ some (id, t))
    (he : Trans.exec (step C) s acts = some s') : ∀ t, s'.view (0 : Fin 1) key ≠ some (id, t) := by
  have hstep : ∀ {s : State (.solo config assign cleaners)} {a s'},
      Spent C s id key ∧ (∀ t, s.view (0 : Fin 1) key ≠ some (id, t)) → step C s a = some s' →
      Spent C s' id key ∧ ∀ t, s'.view (0 : Fin 1) key ≠ some (id, t) :=
    fun hi hs => ⟨spent_step hi.1 hs, absent_step hi.1.1 hs hi.1.2.2 hi.2⟩
  exact (Trans.exec_invariant hstep ⟨h, habsent⟩ he).2

/-- **Ownership with `client1of1` is not interrupted.** If a `Renew` of a lease returns without an
error, then the server has the lease stored at every instant from its Acquire being applied to the
Renew being applied, unexpired but for a Renew that is being applied; and if `Acquire` had returned
the lease, then no other lease on the key is valid in between. -/
theorem solo_uninterrupted (config : Server.Config) (assign : Nat → Fin config.shardCount)
    (cleaners : Nat) (C : Clocks 1)
    (before between rest : List (Act (.solo config assign cleaners))) (id : LeaseID)
    (key requestID : Nat) (b : Client1of1.Act)
    {s₀ s₁ s₂ s₃ : State (.solo config assign cleaners)}
    (h₀ : Trans.exec (step C) (State.init _ C) before = some s₀)
    (h₁ : Trans.exec (step C) s₀ between = some s₁) (h₂ : Trans.exec (step C) s₁ rest = some s₂)
    (hrenew : RenewReturns C s₂ s₃ id key requestID b) :
    ((∃ t, (soloServer s₀).stored assign key = some (id, t)) →
      ¬ Answered s₁ id.process requestID → Held s₁ id key) ∧
    (SoloReturned s₀ id key → ∀ id', id' ≠ id → ¬ Valid C s₁ id' key) := by
  obtain ⟨hinv₀, hsolo₀⟩ := soloInv_of_exec h₀
  obtain ⟨hinv₁, -⟩ := soloInv_of_exec (Trans.exec_append.mpr ⟨s₀, h₀, h₁⟩)
  obtain ⟨hinv₂, -⟩ := soloInv_of_exec
    (Trans.exec_append.mpr ⟨s₁, Trans.exec_append.mpr ⟨s₀, h₀, h₁⟩, h₂⟩)
  obtain ⟨hanswered, hissued, hvalid⟩ := hrenew.answered hinv₂
  obtain ⟨hlast, ⟨l₂, hl₂, hkey₂, -⟩, -⟩ := hrenew
  constructor
  · rintro ⟨t, hstored⟩ hnot
    by_contra hheld
    have hview := view_of_stored hinv₀ hstored
    obtain ⟨l₀, hl₀, rfl⟩ := hsolo₀.known key id t hview
    have hzero := (hsolo₀.once id l₀ hl₀).stored t hview
    obtain ⟨-, hl₁, hzero₁⟩ := spent_of_exec ⟨hinv₀, ⟨l₀, hl₀⟩, hzero⟩ h₁
    exact not_answered_of_over hinv₁ (over_of_not_held hl₁ hzero₁ hheld) hl₂ hkey₂ hnot h₂ hissued
      hanswered
  · rintro ⟨l₀, hl₀, hkey₀, howned⟩ id' hne hv
    have hzero : acquires s₀ id key = 0 := hkey₀ ▸ (hsolo₀.once id l₀ hl₀).owned howned
    obtain ⟨-, hl₁, hzero₁⟩ := spent_of_exec ⟨hinv₀, ⟨l₀, hl₀⟩, hzero⟩ h₁
    -- the other lease is the one that is stored, so this one is not
    obtain ⟨t', hother⟩ := hv.view hinv₁
    have habsent : ∀ t, s₁.view (0 : Fin 1) key ≠ some (id, t) := by
      intro t hview
      cases hother.symm.trans hview
      exact hne rfl
    obtain ⟨t, hview⟩ := hvalid.view (step_inv hinv₂ hlast)
    have hrun : Trans.exec (step C) s₁ (rest ++ [.lease id b]) = some s₃ :=
      Trans.exec_append.mpr ⟨s₂, h₂, Trans.exec_cons.mpr ⟨s₃, hlast, rfl⟩⟩
    exact absent_of_exec ⟨hinv₁, hl₁, hzero₁⟩ habsent hrun t hview

end Solo

/-! ## Two runs -/

/-- A server with two shards. -/
abbrev soloDeployment : Deployment := .solo Server.tinyConfig tinyAssign 0

/-- Steps of one lease. -/
def soloActs (id : LeaseID) (acts : List Client1of1.Act) : List (Act soloDeployment) :=
  acts.map (.lease id)

/-- The server receives the first request in flight, on a key of its first shard, and reads the
clock. -/
def soloApplyActs (now : Time) : List (Act soloDeployment) :=
  let server (a : Server.Act 2 0) : Act soloDeployment := .server (0 : Fin 1) a
  [.deliver 0, server (.check 0), server (.apply 0 now)]

/-- It applies the operation and answers it. -/
def soloAnswerActs (works : Nat) : List (Act soloDeployment) :=
  let server (a : Server.Act 2 0) : Act soloDeployment := .server (0 : Fin 1) a
  List.replicate works (server (.work 0 .fresh)) ++ [.respond (0 : Fin 1) (0 : Fin 2)]

/-- At 6 s a client acquires key 0 for 5 s. -/
def soloAcquiredActs : List (Act soloDeployment) :=
  List.replicate 6 .advance ++ [.activate (0 : Fin 1), .acquire ⟨1, 1, 1⟩ 0 5000] ++
  soloActs ⟨1, 1, 1⟩ [.submit 1 true] ++ soloApplyActs 6000000000 ++ soloAnswerActs 4 ++
  soloActs ⟨1, 1, 1⟩ [.await (some (acquireResponse 1 LeaseStatus.ok 5000)) false]

/-- Later it renews the lease, at the time `now`. -/
def soloRenewActs (now : Time) : List (Act soloDeployment) :=
  soloActs ⟨1, 1, 1⟩ [.renew 5000, .submit 2 true] ++ soloApplyActs now

theorem solo_uninterrupted_soloRenewActs :
    ∃ s₁, Trans.exec (step (secondClocks 1)) (State.init soloDeployment (secondClocks 1))
        (soloAcquiredActs ++ [.advance]) = some s₁ ∧ Held s₁ ⟨1, 1, 1⟩ 0 ∧
      ∀ id, id ≠ ⟨1, 1, 1⟩ → ¬ Valid (secondClocks 1) s₁ id 0 := by
  obtain ⟨s₀, h₀, hstored, hreturned, s₁, h₁, hnot, s₂, h₂, hwait, s₃, h₃, hrenewed⟩ :
      ∃ s₀, Trans.exec (step (secondClocks 1)) (State.init soloDeployment (secondClocks 1))
        soloAcquiredActs = some s₀ ∧
        (soloServer s₀).stored tinyAssign 0 = some (⟨1, 1, 1⟩, 11000000000) ∧
        SoloReturned s₀ ⟨1, 1, 1⟩ 0 ∧
      ∃ s₁, Trans.exec (step (secondClocks 1)) s₀ [.advance] = some s₁ ∧ ¬ Answered s₁ ⟨1, 1⟩ 2 ∧
      ∃ s₂, Trans.exec (step (secondClocks 1)) s₁ (soloRenewActs 7000000000 ++ soloAnswerActs 1) =
        some s₂ ∧ (∃ l ∈ soloLease s₂ ⟨1, 1, 1⟩, l.key = 0 ∧ l.main = .renewWait 2) ∧
      ∃ s₃, step (secondClocks 1) s₂ (.lease ⟨1, 1, 1⟩
        (Client1of1.Act.await (some (renewResponse 2 LeaseStatus.ok 5000)) false)) = some s₃ ∧
        ∃ l ∈ soloLease s₃ ⟨1, 1, 1⟩, l.main = .returned .renewed := by decide +kernel
  obtain ⟨hheld, halone⟩ := solo_uninterrupted _ _ 0 (secondClocks 1) soloAcquiredActs [.advance]
    (soloRenewActs 7000000000 ++ soloAnswerActs 1) ⟨1, 1, 1⟩ 0 2 _ h₀ h₁ h₂ ⟨h₃, hwait, hrenewed⟩
  exact ⟨s₁, Trans.exec_append.mpr ⟨s₀, h₀, h₁⟩, hheld ⟨_, hstored⟩ hnot, halone hreturned⟩

/-- **An entry that has expired is renewed**: the Renew reads the clock at 10 s, before the deadline,
and is applied at 11 s, when the entry has expired. -/
theorem solo_renews_expired :
    ∃ s₀ s₁ s₂ s₃ b, Trans.exec (step (secondClocks 1))
        (State.init soloDeployment (secondClocks 1)) soloAcquiredActs = some s₀ ∧
      (soloServer s₀).stored tinyAssign 0 = some (⟨1, 1, 1⟩, 11000000000) ∧
      Trans.exec (step (secondClocks 1)) s₀
        (List.replicate 4 .advance ++ soloRenewActs 10000000000 ++ [.advance]) = some s₁ ∧
      ¬ Answered s₁ ⟨1, 1⟩ 2 ∧ (soloServer s₁).clock = 11000000000 ∧
      (soloServer s₁).stored tinyAssign 0 = some (⟨1, 1, 1⟩, 11000000000) ∧
      Trans.exec (step (secondClocks 1)) s₁ (soloAnswerActs 1) = some s₂ ∧
      RenewReturns (secondClocks 1) s₂ s₃ ⟨1, 1, 1⟩ 0 2 b := by
  obtain ⟨s₀, h₀, hstored, s₁, h₁, hnot, hclock, hexpired, s₂, h₂, hwait, s₃, h₃, hrenewed⟩ :
      ∃ s₀, Trans.exec (step (secondClocks 1)) (State.init soloDeployment (secondClocks 1))
        soloAcquiredActs = some s₀ ∧
        (soloServer s₀).stored tinyAssign 0 = some (⟨1, 1, 1⟩, 11000000000) ∧
      ∃ s₁, Trans.exec (step (secondClocks 1)) s₀
        (List.replicate 4 .advance ++ soloRenewActs 10000000000 ++ [.advance]) = some s₁ ∧
        ¬ Answered s₁ ⟨1, 1⟩ 2 ∧ (soloServer s₁).clock = 11000000000 ∧
        (soloServer s₁).stored tinyAssign 0 = some (⟨1, 1, 1⟩, 11000000000) ∧
      ∃ s₂, Trans.exec (step (secondClocks 1)) s₁ (soloAnswerActs 1) = some s₂ ∧
        (∃ l ∈ soloLease s₂ ⟨1, 1, 1⟩, l.key = 0 ∧ l.main = .renewWait 2) ∧
      ∃ s₃, step (secondClocks 1) s₂ (.lease ⟨1, 1, 1⟩
        (Client1of1.Act.await (some (renewResponse 2 LeaseStatus.ok 5000)) false)) = some s₃ ∧
        ∃ l ∈ soloLease s₃ ⟨1, 1, 1⟩, l.main = .returned .renewed := by decide +kernel
  exact ⟨s₀, s₁, s₂, s₃, _, h₀, hstored, h₁, hnot, hclock, hexpired, h₂, h₃, hwait, hrenewed⟩

end RedLease.Cluster

import RedLease.Cluster.Steps

/-!
# The invariant of the system

What a lease counts on is a promise of a server, and what a server promised is in its store. The
invariant follows the promise on its way: a granting response of a worker, a response in flight, a
candidate, a quorum. On that way the promise survives everything that happens to the entry but the
Release of a lease that is given up (`Backed`), and it survives a crash because the quarantine lasts
longer than any deadline: `State.view` keeps what the server had stored, and a step changes it only
as a step of an entry (`view_step`).

The times of a promise are on the server's clock, those of a lease on the client's. `Clocks.covers`
goes from one to the other, and it is the only place where the drift counts.

* `evidence`: what the state of the system says about the requests and the replicas of a lease.
* **`step_inv`**: every step keeps the invariant `Inv`.
-/

namespace RedLease.Cluster

open Lib
open Server (EntryStep)

variable {d : Deployment} {C : Clocks d.serverCount} {s s' : State d} {a : Act d}

/-! ## Servers -/

/-- What holds of server `r` at every instant. -/
structure ServerInv (C : Clocks d.serverCount) (s : State d) (r : Fin d.serverCount) : Prop where
  inv : Server.Inv (d.config r) (d.assign r) (s.servers r)
  honest : Server.Honest (d.config r) (s.servers r)
  answers : ∀ i, ((s.servers r).workers i).Answers
  clock : (s.servers r).clock = C.server r s.instant
  phase : (s.servers r).phase = .quarantine ∨ (s.servers r).phase = .active
  resting : (s.servers r).phase = .quarantine → Server.Resting (s.servers r)
  stored : ∀ i k id t, ((s.servers r).shards i).view k = some (id, t) →
    t ≤ (s.servers r).clock + maxTTLMS * millisecond
  started : s.startedAt r ≤ (s.servers r).clock
  memory : ∀ k id t, s.memory r k = some (id, t) → t ≤ s.startedAt r + maxTTLMS * millisecond

theorem serverInv_init (C : Clocks d.serverCount) (r : Fin d.serverCount) :
    ServerInv C (State.init d C) r where
  inv := Server.inv_init _ _ _
  honest := Server.honest_init _
  answers _ := trivial
  clock := rfl
  phase := Or.inl rfl
  resting _ := Server.resting_init _
  stored i k id t ht := by
    have hnone : ((State.init d C).servers r).shards i = Server.LeaseShard.empty := rfl
    rw [hnone, Server.LeaseShard.view_empty] at ht
    cases ht
  started := le_refl _
  memory _ _ _ := nofun

/-- A caused step neither ends the quarantine nor closes the server. -/
theorem Cause.ne {r : Fin d.serverCount} {b : Server.Act (d.config r).shardCount d.cleaners}
    (h : Cause C s r a b) : b ≠ .activate ∧ b ≠ .close := by
  cases h with
  | advance | deliver | respond => exact ⟨nofun, nofun⟩
  | own b hb =>
    constructor
    · rintro rfl; cases hb
    · rintro rfl; cases hb

theorem maxTTL_le (r : Fin d.serverCount) :
    (d.config r).maxTTL * millisecond ≤ maxTTLMS * millisecond :=
  Nat.mul_le_mul_right _ (d.config r).maxTTL_le

/-- The clock of a server is its clock at the present instant. -/
theorem Cause.clock {r : Fin d.serverCount} {b : Server.Act (d.config r).shardCount d.cleaners}
    (h : ServerInv C s r) (hb : Cause C s r a b) (hs : step C s a = some s')
    (hb' : Server.step (d.config r) (d.assign r) (s.servers r) b = some (s'.servers r))
    (hi : a ≠ .advance → s'.instant = s.instant) : (s'.servers r).clock = C.server r s'.instant := by
  have hframe := (Server.step_frame h.inv hb').2
  cases hb with
  | advance => cases hs; rfl
  | deliver | respond => rw [hframe nofun, h.clock, hi nofun]
  | own b hlocal =>
    rw [hframe ?_, h.clock, hi nofun]
    rintro now rfl
    cases hlocal

/-- Every step keeps what holds of the servers. -/
theorem ServerInv.step (h : ∀ r, ServerInv C s r) (hs : step C s a = some s')
    (r : Fin d.serverCount) : ServerInv C s' r := by
  have h₀ := h r
  cases step_server (fun r => (h r).clock) hs r with
  | same hsrv hi hm ht =>
    constructor
    · rw [hsrv]; exact h₀.inv
    · rw [hsrv]; exact h₀.honest
    · rw [hsrv]; exact h₀.answers
    · rw [hsrv, hi]; exact h₀.clock
    · rw [hsrv]; exact h₀.phase
    · rw [hsrv]; exact h₀.resting
    · rw [hsrv]; exact h₀.stored
    · rw [hsrv, ht]; exact h₀.started
    · rw [hm, ht]; exact h₀.memory
  | stepped b hb hstep hi hm ht =>
    obtain ⟨hinv, hclock, -⟩ := Server.step_sound h₀.inv hstep
    have hphase := (Server.step_frame h₀.inv hstep).1 hb.ne.1 hb.ne.2
    constructor
    · exact hinv
    · exact Server.step_honest h₀.inv h₀.honest hstep
    · exact Server.step_answers h₀.inv h₀.answers hstep
    · exact hb.clock h₀ hs hstep hi
    · rw [hphase]; exact h₀.phase
    · intro hq
      rw [hphase] at hq
      exact Server.step_resting h₀.inv (by rw [hq]; nofun) (h₀.resting hq) hstep
    · intro i k id t hv
      exact Server.step_deadline h₀.inv hstep (maxTTL_le r) (h₀.stored i k) hv
    · rw [ht]; exact h₀.started.trans hclock
    · rw [hm, ht]; exact h₀.memory
  | activated hover hstep hi hm ht =>
    obtain ⟨hinv, hclock, -⟩ := Server.step_sound h₀.inv hstep
    have hsame := (Server.step_frame h₀.inv hstep).2 nofun
    have hactive : (s'.servers r).phase = .active := by
      rw [Server.step] at hstep
      split_ifs at hstep
      rw [← Option.some.inj hstep]
    constructor
    · exact hinv
    · exact Server.step_honest h₀.inv h₀.honest hstep
    · exact Server.step_answers h₀.inv h₀.answers hstep
    · rw [hsame, h₀.clock, hi]
    · exact Or.inr hactive
    · intro hq
      rw [hactive] at hq
      cases hq
    · intro i k id t hv
      exact Server.step_deadline h₀.inv hstep (maxTTL_le r) (h₀.stored i k) hv
    · rw [ht]; exact h₀.started.trans hclock
    · rw [hm, ht]; exact h₀.memory
  | crashed hsrv hi hm ht =>
    constructor
    · rw [hsrv]; exact Server.inv_init _ _ _
    · rw [hsrv]; exact Server.honest_init _
    · rw [hsrv]; exact fun _ => trivial
    · rw [hsrv, hi]; exact h₀.clock
    · rw [hsrv]; exact Or.inl rfl
    · rw [hsrv]; exact fun _ => Server.resting_init _
    · intro i k id t hv
      rw [hsrv] at hv
      have hnone := (Server.resting_init (n := (d.config r).shardCount) (m := d.cleaners)
        (s.servers r).clock).entries i k
      rw [hnone] at hv
      cases hv
    · rw [hsrv, ht]; exact le_refl _
    · intro k id t hmem
      rw [hm] at hmem
      rw [ht]
      unfold State.view at hmem
      split_ifs at hmem
      · exact (h₀.memory k id t hmem).trans (Nat.add_le_add_right h₀.started _)
      · exact h₀.stored _ k id t hmem

/-! ## Entries -/

/-- At the end of its quarantine a server has stored nothing. -/
theorem view_activated {r : Fin d.serverCount} (h : ServerInv C s r)
    (hs : Server.step (d.config r) (d.assign r) (s.servers r) .activate = some (s'.servers r))
    (k : Nat) : (s.servers r).phase = .quarantine ∧ s'.view r k = none := by
  rw [Server.step] at hs
  split_ifs at hs with hq
  refine ⟨hq, ?_⟩
  rw [State.view, ← Option.some.inj hs]
  exact (h.resting hq).entries _ k

/-- **A step changes an entry only as a step of an entry**, which a worker's job can do in its
section or its insertion. The end of a quarantine finds every remembered entry expired. -/
theorem view_step (h : ∀ r, ServerInv C s r) (hs : step C s a = some s') (r : Fin d.serverCount)
    (k : Nat) : ∃ job, EntryStep (d.config r).maxTTL (s.servers r).clock job k (s.view r k)
        (s'.view r k) ∧
      ∀ j, job = some j → ∃ i, ((s.servers r).workers i).acting = some j := by
  have h₀ := h r
  cases step_server (fun r => (h r).clock) hs r with
  | same hsrv hi hm ht =>
    have hview : s'.view r k = s.view r k := by rw [State.view, State.view, hsrv, hm]
    rw [hview]
    exact ⟨none, .same _, nofun⟩
  | stepped b hb hstep hi hm ht =>
    have hphase := (Server.step_frame h₀.inv hstep).1 hb.ne.1 hb.ne.2
    rw [State.view, State.view, hphase, hm]
    split_ifs
    · exact ⟨none, .same _, nofun⟩
    · refine ⟨_, (Server.step_sound h₀.inv hstep).2.2 (d.assign r k) k, fun j hj => ?_⟩
      exact ⟨d.assign r k, Server.worker_acting hj⟩
  | activated hover hstep hi hm ht =>
    obtain ⟨hq, hview⟩ := view_activated h₀ hstep k
    rw [hview, State.view, if_pos hq]
    cases hmem : s.memory r k with
    | none => exact ⟨none, .same _, nofun⟩
    | some e =>
      obtain ⟨id, t⟩ := e
      have hbound : maxTTLMS * millisecond ≤ restartQuarantineDuration := by decide
      refine ⟨none, .expired id t ?_, nofun⟩
      exact (h₀.memory k id t hmem).trans ((Nat.add_le_add_left hbound _).trans hover)
  | crashed hsrv hi hm ht =>
    have hview : s'.view r k = s.view r k := by
      rw [State.view, hsrv, hm]
      rfl
    rw [hview]
    exact ⟨none, .same _, nofun⟩

/-- **A lease ID comes into a store only by an insertion.** -/
theorem view_inserted (h : ∀ r, ServerInv C s r) (hs : step C s a = some s')
    {r : Fin d.serverCount} {k : Nat} {id : LeaseID} {t : Time} (hv : s'.view r k = some (id, t)) :
    (∃ t₀, s.view r k = some (id, t₀)) ∨
      ∃ i pool job, a = .server r (.work i pool) ∧ (s.servers r).workers i = .insert job ∧
        job.op.key = k ∧ job.op.leaseID = id := by
  have h₀ := h r
  cases step_server (fun r => (h r).clock) hs r with
  | same hsrv hi hm ht =>
    rw [State.view, hsrv, hm] at hv
    exact Or.inl ⟨t, hv⟩
  | stepped b hb hstep hi hm ht =>
    have hphase := (Server.step_frame h₀.inv hstep).1 hb.ne.1 hb.ne.2
    rw [State.view, hphase, hm] at hv
    rw [State.view]
    split_ifs at hv ⊢
    · exact Or.inl ⟨t, hv⟩
    · rcases Server.inserted_of_step h₀.inv hstep hv with hold | ⟨pool, job, hwork, hw, hkey, hid⟩
      · exact Or.inl hold
      · subst hwork
        refine Or.inr ⟨_, pool, job, ?_, hw, hkey, hid⟩
        cases hb
        rfl
  | activated hover hstep hi hm ht =>
    rw [(view_activated h₀ hstep k).2] at hv
    cases hv
  | crashed hsrv hi hm ht =>
    rw [State.view, hsrv, hm] at hv
    exact Or.inl ⟨t, hv⟩

/-! ## Promises -/

/-- Up to the time `u` of its clock, server `r` has stored key `k` with this lease ID and a deadline
no earlier than `u`. -/
def Backed (s : State d) (r : Fin d.serverCount) (k : Nat) (id : LeaseID) (u : Time) : Prop :=
  (s.servers r).clock < u → ∃ t, s.view r k = some (id, t) ∧ u ≤ t

theorem Backed.of_le {r : Fin d.serverCount} {k : Nat} {id : LeaseID} {u u' : Time}
    (h : Backed s r k id u') (hu : u ≤ u') : Backed s r k id u := by
  intro hlt
  obtain ⟨t, hv, ht⟩ := h (lt_of_lt_of_le hlt hu)
  exact ⟨t, hv, hu.trans ht⟩

/-- The arithmetic of a promise: `c` and `c'` are readings of the client's clock at two instants, `v`
and `v'` of the server's. -/
theorem lt_of_drift {start c c' v v' ttlMS : Nat} (hstart : start ≤ c) (hmin : safetyMarginMS < ttlMS)
    (hmax : ttlMS ≤ maxTTLMS) (h : c' < start + (ttlMS - safetyMarginMS) * millisecond)
    (hdrift : c' ≤ c + (maxTTLMS - safetyMarginMS) * millisecond →
      v' ≤ v + (c' - c) + safetyMarginMS * millisecond) : v' < v + ttlMS * millisecond := by
  unfold maxTTLMS safetyMarginMS millisecond at *
  have hshort : c' ≤ c + (5000 - 100) * 1000000 := by omega
  have := hdrift hshort
  omega

/-- **From the client's clock to the server's.** A response with this TTL, to a request that was sent
when the client's clock had reached `start`, counts for the client only as long as the server, which
measures the TTL from a later instant, keeps its promise. -/
theorem Clocks.covers {n : Nat} (C : Clocks n) {p : Process} {r : Fin n} {t t' : Nat} {start : Time}
    {ttlMS : Nat} (hstart : start ≤ C.client p t) (hmin : safetyMarginMS < ttlMS)
    (hmax : ttlMS ≤ maxTTLMS)
    (h : C.client p t' < start + (ttlMS - safetyMarginMS) * millisecond) :
    C.server r t' < C.server r t + ttlMS * millisecond := by
  rcases le_total t' t with hle | hle
  · have hpos : 0 < ttlMS * millisecond :=
      Nat.mul_pos (lt_of_le_of_lt (Nat.zero_le _) hmin) (by decide)
    exact lt_of_le_of_lt (C.server_mono r hle) (Nat.lt_add_of_pos_right hpos)
  · exact lt_of_drift hstart hmin hmax h (C.drift p r t t' hle)

section Law

variable {quorumSize : Nat} (law : d.package.Lawful quorumSize)

/-- The lease is given up for good. -/
def Dead (s : State d) (id : LeaseID) : Prop := ∃ l, s.leases id = some l ∧ law.Abandoned l

/-- What the state says about the requests and the replicas of lease `id` on key `k`. -/
def evidence (C : Clocks d.serverCount) (s : State d) (id : LeaseID) (k : Nat) :
    Client.Evidence d.serverCount where
  asked r requestID start :=
    ∃ t, s.issued id.process requestID = some ⟨id, r, t⟩ ∧ start ≤ C.client id.process t
  kept r c := C.client id.process s.instant < c → ¬ Dead law s id →
    ∃ u, (∀ t, C.client id.process t < c → C.server r t < u) ∧ Backed s r k id u
  kept_of_le hle h hlt hdead := by
    obtain ⟨u, hcover, hbacked⟩ := h (lt_of_lt_of_le hlt hle) hdead
    exact ⟨u, fun t ht => hcover t (lt_of_lt_of_le ht hle), hbacked⟩

/-- An operation for server `r` that a lease has sent. -/
structure Genuine (s : State d) (r : Fin d.serverCount) (op : Operation) : Prop where
  issue : ∃ t, s.issued op.leaseID.process op.requestID = some ⟨op.leaseID, r, t⟩
  lease : ∃ l, s.leases op.leaseID = some l ∧ d.package.key l = op.key
  release : op.kind = .release → Dead law s op.leaseID

/-- A response from server `r` to process `p` answers one of its requests, and if it is successful the
server stands by it, with the TTL counted from the instant of the request. -/
def Justified (C : Clocks d.serverCount) (s : State d) (r : Fin d.serverCount) (p : Process)
    (response : Response) : Prop :=
  ∃ id t l, s.issued p response.requestID = some ⟨id, r, t⟩ ∧ s.leases id = some l ∧
    (Client.Successful response → 0 < response.ttlMS → ¬ Dead law s id →
      Backed s r (d.package.key l) id (C.server r t + response.ttlMS * millisecond))

/-- The invariant of the system. -/
structure Inv (C : Clocks d.serverCount) (s : State d) : Prop where
  servers : ∀ r, ServerInv C s r
  requests : ∀ r op, (r, op) ∈ s.requests → Genuine law s r op
  workers : ∀ r i op, ((s.servers r).workers i).operation = some op → Genuine law s r op
  since : ∀ r i job x, ((s.servers r).workers i).job = some job →
    s.issued job.op.leaseID.process job.op.requestID = some x → C.server r x.instant ≤ job.now
  responses : ∀ r p response, (r, p, response) ∈ s.responses → Justified law C s r p response
  issued : ∀ p requestID x, s.issued p requestID = some x →
    requestID < s.nextRequestID p ∧ x.instant ≤ s.instant
  leases : ∀ id l, s.leases id = some l →
    law.Sound (evidence law C s id (d.package.key l)) (C.client id.process s.instant) l

theorem inv_init (C : Clocks d.serverCount) : Inv law C (State.init d C) where
  servers := serverInv_init C
  requests _ _ := nofun
  workers _ _ _ := nofun
  since _ _ _ _ := nofun
  responses _ _ _ := nofun
  issued _ _ _ := nofun
  leases _ _ := nofun

/-! ## What stays true -/

/-- What is known in `s` is known in `s'`. -/
structure Later (s s' : State d) : Prop where
  instant : s.instant ≤ s'.instant
  issued : ∀ {p requestID x}, s.issued p requestID = some x → s'.issued p requestID = some x
  leases : ∀ {id l}, s.leases id = some l → ∃ l', s'.leases id = some l' ∧
    d.package.key l' = d.package.key l ∧ (law.Abandoned l → law.Abandoned l')
  backed : ∀ {r k id u}, ¬ Dead law s' id → Backed s r k id u → Backed s' r k id u

section Later

variable {law} {r : Fin d.serverCount} {id : LeaseID}

theorem Later.dead (h : Later law s s') (hd : Dead law s id) : Dead law s' id := by
  obtain ⟨l, hl, habandoned⟩ := hd
  obtain ⟨l', hl', -, hstill⟩ := h.leases hl
  exact ⟨l', hl', hstill habandoned⟩

theorem Genuine.later {op : Operation} (h : Later law s s') (hg : Genuine law s r op) :
    Genuine law s' r op where
  issue := by
    obtain ⟨t, ht⟩ := hg.issue
    exact ⟨t, h.issued ht⟩
  lease := by
    obtain ⟨l, hl, hkey⟩ := hg.lease
    obtain ⟨l', hl', hkey', -⟩ := h.leases hl
    exact ⟨l', hl', hkey'.trans hkey⟩
  release hkind := h.dead (hg.release hkind)

theorem Justified.later {p : Process} {response : Response} (h : Later law s s')
    (hj : Justified law C s r p response) : Justified law C s' r p response := by
  obtain ⟨id, t, l, hissued, hl, hbacked⟩ := hj
  obtain ⟨l', hl', hkey, -⟩ := h.leases hl
  refine ⟨id, t, l', h.issued hissued, hl', fun hsucc hpos hdead => ?_⟩
  rw [hkey]
  exact h.backed hdead (hbacked hsucc hpos fun hd => hdead (h.dead hd))

theorem Later.evidence (h : Later law s s') (k : Nat) :
    (evidence law C s id k).Le (evidence law C s' id k) where
  asked := by
    rintro r requestID start ⟨t, hissued, hstart⟩
    exact ⟨t, h.issued hissued, hstart⟩
  kept := by
    intro r c hkept hlt hdead
    have hearlier := lt_of_le_of_lt (C.client_mono id.process h.instant) hlt
    obtain ⟨u, hcover, hbacked⟩ := hkept hearlier fun hd => hdead (h.dead hd)
    exact ⟨u, hcover, h.backed hdead hbacked⟩

/-- The clock of a server does not go back. -/
theorem clock_mono (h : ∀ r, ServerInv C s r) (hs : step C s a = some s') (r : Fin d.serverCount) :
    s.instant ≤ s'.instant → (s.servers r).clock ≤ (s'.servers r).clock := by
  intro hi
  rw [(h r).clock, (ServerInv.step h hs r).clock]
  exact C.server_mono r hi

/-- **A promise survives a step** unless the lease is given up. -/
theorem Backed.step {k : Nat} {u : Time} (h : Inv law C s) (hs : step C s a = some s')
    (hinstant : s.instant ≤ s'.instant) (hdead : ¬ Dead law s id) (hb : Backed s r k id u) :
    Backed s' r k id u := by
  intro hu
  have hclock := clock_mono h.servers hs r hinstant
  obtain ⟨t, hv, ht⟩ := hb (lt_of_le_of_lt hclock hu)
  obtain ⟨job, hentry, hjob⟩ := view_step h.servers hs r k
  rw [hv] at hentry
  have hlive : (s.servers r).clock < t := lt_of_lt_of_le (lt_of_le_of_lt hclock hu) ht
  obtain ⟨t', hv', ht'⟩ := hentry.kept hlive fun j hj hrelease => by
    obtain ⟨i, hacting⟩ := hjob j hj
    have hop : ((s.servers r).workers i).operation = some j.op := by
      cases hw : (s.servers r).workers i with
      | lock job' | insert job' => rw [hw] at hacting; cases hacting; rfl
      | _ => rw [hw] at hacting; cases hacting
    have hdead' := (h.workers r i j.op hop).release hrelease.1
    rw [hrelease.2.2] at hdead'
    exact hdead hdead'
  exact ⟨t', hv', ht.trans ht'⟩

theorem instant_mono (hs : step C s a = some s') : s.instant ≤ s'.instant := by
  cases step_network hs with
  | quiet _ hl hi hn hq hp ht => exact ht
  | refused k r op hop hl hi hn hq hp ht => exact ht.ge
  | responded r i job response hw hl hi hn hq hp ht => exact ht.ge
  | acquired id key ttlMS hnew heq =>
    rw [heq]
    exact le_refl _
  | moved id b l l' hl hstep hin hout heq =>
    rw [heq, send_instant, consume_instant]
    exact le_refl _

/-- **Nothing that is known is lost.** -/
theorem later_of_step (h : Inv law C s) (hs : step C s a = some s') : Later law s s' := by
  have hinstant := instant_mono hs
  have hissued : ∀ {p requestID x}, s.issued p requestID = some x →
      s'.issued p requestID = some x := by
    intro p requestID x hx
    cases step_network hs with
    | quiet _ hl hi hn hq hp ht | refused k r op hop hl hi hn hq hp ht
    | responded r i job response hw hl hi hn hq hp ht => rw [hi]; exact hx
    | acquired id key ttlMS hnew heq => rw [heq]; exact hx
    | moved id b l l' hl hstep hin hout heq =>
      rw [heq]
      cases hrequest : d.package.outgoing l b with
      | none => rw [State.send, consume_issued]; exact hx
      | some request =>
        -- a request gets a number that was not used before
        have hfresh := hout request hrequest
        rw [send_issued]
        by_cases hp : p = id.process
        · subst hp
          have hne : requestID ≠ request.requestID :=
            Nat.ne_of_lt (lt_of_lt_of_le (h.issued _ _ _ hx).1 hfresh)
          rw [Function.update_self, Function.update_of_ne hne, consume_issued]
          exact hx
        · rw [Function.update_of_ne hp, consume_issued]
          exact hx
  have hleases : ∀ {id l}, s.leases id = some l → ∃ l', s'.leases id = some l' ∧
      d.package.key l' = d.package.key l ∧ (law.Abandoned l → law.Abandoned l') := by
    intro id l hl
    cases step_network hs with
    | quiet _ hsame hi hn hq hp ht => exact ⟨l, by rw [hsame]; exact hl, rfl, fun hx => hx⟩
    | refused k r op hop hsame hi hn hq hp ht
    | responded r i job response hw hsame hi hn hq hp ht =>
      exact ⟨l, by rw [hsame]; exact hl, rfl, fun hx => hx⟩
    | acquired id' key ttlMS hnew heq =>
      have hne : id ≠ id' := by
        rintro rfl
        rw [hnew] at hl
        cases hl
      refine ⟨l, ?_, rfl, fun hx => hx⟩
      rw [heq]
      exact (Function.update_of_ne hne _ _).trans hl
    | moved id' b l₀ l' hl₀ hstep hin hout heq =>
      have hset : s'.leases = Function.update s.leases id' (some l') := by
        rw [heq, send_leases, consume_leases]
        rfl
      rw [hset]
      by_cases hid : id = id'
      · subst hid
        rw [hl] at hl₀
        cases hl₀
        rw [Function.update_self]
        exact ⟨l', rfl, law.key_step hstep, fun hx => law.abandoned_step hx hstep⟩
      · rw [Function.update_of_ne hid]
        exact ⟨l, hl, rfl, fun hx => hx⟩
  refine ⟨hinstant, hissued, hleases, fun {r k id u} hdead hb => ?_⟩
  refine hb.step h hs hinstant fun hd => hdead ?_
  obtain ⟨l, hl, habandoned⟩ := hd
  obtain ⟨l', hl', -, hstill⟩ := hleases hl
  exact ⟨l', hl', hstill habandoned⟩

/-! ## Steps -/

/-- A worker that is at work on an operation is the worker of an active server. -/
theorem ServerInv.active_of_job {r : Fin d.serverCount} (h : ServerInv C s r)
    {i : Fin (d.config r).shardCount} {job : Server.Job}
    (hjob : ((s.servers r).workers i).job = some job) : (s.servers r).phase = .active := by
  rcases h.phase with hq | hactive
  · rcases (h.resting hq).workers i with hw | ⟨op, hw⟩
    · rw [hw] at hjob; cases hjob
    · rw [hw] at hjob; cases hjob
  · exact hactive

theorem job_operation {w : Server.Worker} {job : Server.Job} (h : w.job = some job) :
    w.operation = some job.op := by
  cases w with
  | idle | dequeued op | admitted op => cases h
  | _ => cases h; rfl

/-- A worker's operation comes from a lease. -/
theorem step_workers (h : Inv law C s) (hs : step C s a = some s') {r : Fin d.serverCount}
    {i : Fin (d.config r).shardCount} {op : Operation}
    (hop : ((s'.servers r).workers i).operation = some op) : Genuine law s r op := by
  have h₀ := h.servers r
  cases step_server (fun r => (h.servers r).clock) hs r with
  | same hsrv hi hm ht =>
    rw [hsrv] at hop
    exact h.workers r i op hop
  | stepped b hb hstep hi hm ht =>
    rcases Server.step_operation h₀.inv hstep hop with hold | hdequeue
    · exact h.workers r i op hold
    · subst hdequeue
      cases hb with
      | own b hlocal => cases hlocal
      | deliver k op' hin => exact h.requests r op hin
  | activated hover hstep hi hm ht =>
    rcases Server.step_operation h₀.inv hstep hop with hold | hdequeue
    · exact h.workers r i op hold
    · cases hdequeue
  | crashed hsrv hi hm ht =>
    rw [hsrv] at hop
    cases hop

/-- `apply` reads the clock after the request was sent. -/
theorem step_since (h : Inv law C s) (hs : step C s a = some s') {r : Fin d.serverCount}
    {i : Fin (d.config r).shardCount} {job : Server.Job} {x : Issue d.serverCount}
    (hjob : ((s'.servers r).workers i).job = some job)
    (hx' : s'.issued job.op.leaseID.process job.op.requestID = some x) :
    C.server r x.instant ≤ job.now := by
  have h₀ := h.servers r
  have hx : s.issued job.op.leaseID.process job.op.requestID = some x := by
    obtain ⟨t, ht⟩ := (step_workers h hs (job_operation hjob)).issue
    rw [(later_of_step h hs).issued ht] at hx'
    rw [ht, hx']
  cases step_server (fun r => (h.servers r).clock) hs r with
  | same hsrv hi hm ht =>
    rw [hsrv] at hjob
    exact h.since r i job x hjob hx
  | stepped b hb hstep hi hm ht =>
    rcases Server.step_job hstep hjob with ⟨job₀, hjob₀, hop, hnow⟩ | ⟨happly, -⟩
    · rw [← hop] at hx
      rw [← hnow]
      exact h.since r i job₀ x hjob₀ hx
    · subst happly
      cases hb with
      | own b hlocal =>
        have hnow : job.now = (s.servers r).clock := by
          simpa only [isLocal, decide_eq_true_eq] using hlocal
        rw [hnow, h₀.clock]
        exact C.server_mono r (h.issued _ _ _ hx).2
  | activated hover hstep hi hm ht =>
    rcases Server.step_job hstep hjob with ⟨job₀, hjob₀, hop, hnow⟩ | ⟨happly, -⟩
    · rw [← hop] at hx
      rw [← hnow]
      exact h.since r i job₀ x hjob₀ hx
    · cases happly
  | crashed hsrv hi hm ht =>
    rw [hsrv] at hjob
    cases hjob

/-- A successful response grants. -/
theorem grants_of_successful {op : Operation} {response : Response}
    (ha : Server.Answers op response) (hs : Client.Successful response)
    (hpos : 0 < response.ttlMS) : Server.Response.Grants op response := by
  have hop := ha.operation
  refine ⟨fun hkind => ?_, ?_, hpos⟩
  · rw [hkind] at hop
    rcases hs with ⟨hacquire, -⟩ | ⟨hrenew, -⟩
    · rw [hop] at hacquire; cases hacquire
    · rw [hop] at hrenew; cases hrenew
  · rcases hs with ⟨-, hstatus⟩ | ⟨-, hstatus⟩
    · simpa [Client.isSuccessfulAcquire] using hstatus
    · exact Or.inl hstatus

/-- What a worker answers is justified. -/
theorem justified_of_reply (h : Inv law C s) {r : Fin d.serverCount}
    {i : Fin (d.config r).shardCount} {job : Server.Job} {response : Response}
    (hw : (s.servers r).workers i = .reply job response) :
    Justified law C s r job.op.leaseID.process response := by
  have h₀ := h.servers r
  have hjob : ((s.servers r).workers i).job = some job := by rw [hw]; rfl
  have hop := job_operation hjob
  have hgenuine := h.workers r i job.op hop
  obtain ⟨t, ht⟩ := hgenuine.issue
  obtain ⟨l, hl, hkey⟩ := hgenuine.lease
  have hanswers := h₀.answers i
  rw [hw] at hanswers
  refine ⟨job.op.leaseID, t, l, ?_, hl, fun hsucc hpos _ => ?_⟩
  · rw [hanswers.requestID]
    exact ht
  · have hhonest := h₀.honest i
    rw [hw] at hhonest
    obtain ⟨-, hbacked⟩ := hhonest (grants_of_successful hanswers hsucc hpos)
    have hsince := h.since r i job _ hjob ht
    have hnow : Backed s r job.op.key job.op.leaseID (job.now + response.ttlMS * millisecond) := by
      intro hu
      obtain ⟨u, hv, hle⟩ := hbacked hu
      refine ⟨u, ?_, hle⟩
      rw [State.view, h₀.active_of_job hjob, if_neg nofun]
      have hhome := h₀.inv.home i job.op hop
      rw [← hhome] at hv
      exact hv
    rw [hkey]
    exact hnow.of_le (Nat.add_le_add_right hsince _)

theorem justified_of_refusal {r : Fin d.serverCount} {op : Operation} (hg : Genuine law s r op) :
    Justified law C s r op.leaseID.process (statusResponse op LeaseStatus.notReady) := by
  obtain ⟨t, ht⟩ := hg.issue
  obtain ⟨l, hl, -⟩ := hg.lease
  have hanswers : Server.Answers op (statusResponse op LeaseStatus.notReady) :=
    Server.answers_statusResponse op (by decide)
  refine ⟨op.leaseID, t, l, by rw [hanswers.requestID]; exact ht, hl, fun _ hpos => ?_⟩
  have hzero : (statusResponse op LeaseStatus.notReady).ttlMS = 0 := by
    unfold statusResponse
    split <;> rfl
  rw [hzero] at hpos
  exact absurd hpos (Nat.lt_irrefl 0)

/-- A justified response is evidence for its candidate. -/
theorem kept_of_justified (h : ∀ p requestID x, s.issued p requestID = some x →
      x.instant ≤ s.instant) {id : LeaseID} {l : d.package.Lease} (hl : s.leases id = some l)
    {r : Fin d.serverCount} {answer : Response} {start : Time}
    (hj : Justified law C s r id.process answer)
    (hasked : (evidence law C s id (d.package.key l)).asked r answer.requestID start)
    (hsucc : Client.Successful answer) :
    (evidence law C s id (d.package.key l)).kept r
      (Client.candidateValidUntil start answer.ttlMS) := by
  obtain ⟨t, hissued, hstart⟩ := hasked
  obtain ⟨id', t', l', hissued', hl', hbacked⟩ := hj
  rw [hissued] at hissued'
  cases hissued'
  rw [hl] at hl'
  cases hl'
  intro hlt hdead
  have hpast : start ≤ C.client id.process s.instant :=
    hstart.trans (C.client_mono _ (h _ _ _ hissued))
  unfold Client.candidateValidUntil at hlt ⊢
  split_ifs at hlt ⊢ with hrange
  · exact absurd hlt (not_lt.mpr hpast)
  · rw [not_or, not_le, not_lt] at hrange
    refine ⟨C.server r t + answer.ttlMS * millisecond, fun t' ht' => ?_, ?_⟩
    · exact C.covers hstart hrange.1 hrange.2 ht'
    · exact hbacked hsucc (lt_of_le_of_lt (Nat.zero_le _) hrange.1) hdead

/-- The request of a lease that takes a step. -/
theorem genuine_of_moved {id : LeaseID} {b : d.package.Act} {l l' : d.package.Lease}
    {request : Client.Request d.serverCount} (h : Inv law C s) (hl : s.leases id = some l)
    (hstep : d.package.step (C.client id.process s.instant) l b = some l')
    (hrequest : d.package.outgoing l b = some request) (hl' : s'.leases id = some l')
    (hissued : s'.issued id.process request.requestID = some ⟨id, request.replica, s.instant⟩) :
    Genuine law s' request.replica (operation id (d.package.key l) request) where
  issue := ⟨s.instant, hissued⟩
  lease := ⟨l', hl', law.key_step hstep⟩
  release hkind := by
    have habandoned := law.abandoned_of_release (h.leases id l hl) hrequest hkind
    exact ⟨l', hl', law.abandoned_step habandoned hstep⟩

/-- Requests in flight come from leases. -/
theorem step_requests (h : Inv law C s) (hs : step C s a = some s') {r : Fin d.serverCount}
    {op : Operation} (hin : (r, op) ∈ s'.requests) : Genuine law s' r op := by
  have hlater := later_of_step h hs
  cases step_network hs with
  | quiet _ hl hi hn hq hp ht | refused k r' op' hop hl hi hn hq hp ht =>
    exact (h.requests r op (hq hin)).later hlater
  | responded r' i job response hw hl hi hn hq hp ht =>
    rw [hq] at hin
    exact (h.requests r op hin).later hlater
  | acquired id key ttlMS hnew heq =>
    rw [heq] at hin
    exact (h.requests r op hin).later hlater
  | moved id b l l' hl hstep hincoming hout heq =>
    obtain ⟨hl', hissued⟩ := moved_fields heq
    rw [heq] at hin
    cases hrequest : d.package.outgoing l b with
    | none =>
      rw [hrequest, State.send, consume_requests] at hin
      exact (h.requests r op hin).later hlater
    | some request =>
      rw [hrequest, send_requests, consume_requests] at hin
      rcases List.mem_append.mp hin with hold | hnew
      · exact (h.requests r op hold).later hlater
      · rw [List.mem_singleton] at hnew
        cases hnew
        exact genuine_of_moved h hl hstep hrequest hl' (hissued request hrequest)

/-- Responses in flight are justified. -/
theorem step_responses (h : Inv law C s) (hs : step C s a = some s') {r : Fin d.serverCount}
    {p : Process} {response : Response} (hin : (r, p, response) ∈ s'.responses) :
    Justified law C s' r p response := by
  refine Justified.later (later_of_step h hs) ?_
  cases step_network hs with
  | quiet _ hl hi hn hq hp ht => exact h.responses _ _ _ (hp hin)
  | refused k r' op hop hl hi hn hq hp ht =>
    rw [hp] at hin
    rcases List.mem_append.mp hin with hold | hnew
    · exact h.responses _ _ _ hold
    · rw [List.mem_singleton] at hnew
      cases hnew
      exact justified_of_refusal (h.requests _ op hop)
  | responded r' i job response' hw hl hi hn hq hp ht =>
    rw [hp] at hin
    rcases List.mem_append.mp hin with hold | hnew
    · exact h.responses _ _ _ hold
    · rw [List.mem_singleton] at hnew
      cases hnew
      exact justified_of_reply h hw
  | acquired id key ttlMS hnew heq =>
    rw [heq] at hin
    exact h.responses _ _ _ hin
  | moved id b l l' hl hstep hincoming hout heq =>
    rw [heq, send_responses] at hin
    exact h.responses _ _ _ (consume_responses (s := s.setLease id l') _ _ hin)

/-- Requests are numbered. -/
theorem step_issued (h : Inv law C s) (hs : step C s a = some s') {p : Process} {requestID : Nat}
    {x : Issue d.serverCount} (hx : s'.issued p requestID = some x) :
    requestID < s'.nextRequestID p ∧ x.instant ≤ s'.instant := by
  have hlater := later_of_step h hs
  have hold : s'.nextRequestID p = s.nextRequestID p → s.issued p requestID = some x →
      requestID < s'.nextRequestID p ∧ x.instant ≤ s'.instant := by
    intro hn hx
    rw [hn]
    exact ⟨(h.issued p requestID x hx).1, (h.issued p requestID x hx).2.trans hlater.instant⟩
  cases step_network hs with
  | quiet _ hl hi hn hq hp ht | refused k r op hop hl hi hn hq hp ht =>
    exact hold (by rw [hn]) (by rw [← hi]; exact hx)
  | responded r i job response hw hl hi hn hq hp ht =>
    exact hold (by rw [hn]) (by rw [← hi]; exact hx)
  | acquired id key ttlMS hnew heq =>
    rw [heq] at hx
    exact hold (by rw [heq]; rfl) hx
  | moved id b l l' hl hstep hincoming hout heq =>
    cases hrequest : d.package.outgoing l b with
    | none =>
      rw [hrequest, State.send] at heq
      rw [heq, consume_issued] at hx
      exact hold (by rw [heq, consume_nextRequestID]; rfl) hx
    | some request =>
      have hfresh := hout request hrequest
      rw [hrequest] at heq
      rw [heq, send_issued, consume_issued] at hx
      by_cases hp : p = id.process
      · subst hp
        have hn : s'.nextRequestID id.process = request.requestID + 1 := by
          rw [heq]
          exact Function.update_self _ _ _
        rw [Function.update_self] at hx
        by_cases hid : requestID = request.requestID
        · subst hid
          rw [Function.update_self] at hx
          cases hx
          rw [hn, consume_instant]
          exact ⟨Nat.lt_succ_self _, hlater.instant⟩
        · rw [Function.update_of_ne hid] at hx
          have hx' := h.issued _ _ x hx
          rw [hn]
          exact ⟨Nat.lt_succ_of_lt (lt_of_lt_of_le hx'.1 hfresh), hx'.2.trans hlater.instant⟩
      · rw [Function.update_of_ne hp] at hx
        refine hold ?_ hx
        rw [heq, send_nextRequestID, Function.update_of_ne hp, consume_nextRequestID]
        rfl

/-- The lease that takes a step stays sound. -/
theorem sound_of_moved {id : LeaseID} {b : d.package.Act} {l l' : d.package.Lease}
    (h : Inv law C s) (hs : step C s (.lease id b) = some s') (hl : s.leases id = some l)
    (hstep : d.package.step (C.client id.process s.instant) l b = some l')
    (hin : ∀ x ∈ d.package.incoming b, (x.1, id.process, x.2) ∈ s.responses)
    (heq : s' = ((s.setLease id l').consume id.process (d.package.incoming b)).send id
      (d.package.key l) (d.package.outgoing l b)) :
    law.Sound (evidence law C s' id (d.package.key l')) (C.client id.process s'.instant) l' := by
  have hlater := later_of_step h hs
  obtain ⟨hl', hissued⟩ := moved_fields heq
  have hinstant : s'.instant = s.instant := by rw [heq, send_instant, consume_instant]; rfl
  have hkey := law.key_step hstep
  rw [hkey, hinstant]
  have hsound := law.sound_mono (hlater.evidence _) (le_refl _) (h.leases id l hl)
  refine law.sound_step hsound ?_ ?_ hstep
  · intro request start hrequest hstart
    exact ⟨s.instant, hissued request hrequest, hstart⟩
  · intro r answer start hanswer hasked hsucc
    have hj := (h.responses _ _ _ (hin _ hanswer)).later hlater
    rw [← hkey] at hasked ⊢
    exact kept_of_justified (fun p i x hx => (step_issued h hs hx).2) hl' hj hasked hsucc

/-- Leases stay sound. -/
theorem step_leases (h : Inv law C s) (hs : step C s a = some s') {id : LeaseID}
    {l : d.package.Lease} (hl : s'.leases id = some l) :
    law.Sound (evidence law C s' id (d.package.key l)) (C.client id.process s'.instant) l := by
  have hlater := later_of_step h hs
  have hold : s.leases id = some l →
      law.Sound (evidence law C s' id (d.package.key l)) (C.client id.process s'.instant) l :=
    fun hl => law.sound_mono (hlater.evidence _) (C.client_mono _ hlater.instant)
      (h.leases id l hl)
  cases step_network hs with
  | quiet _ hsame hi hn hq hp ht | refused k r op hop hsame hi hn hq hp ht
  | responded r i job response hw hsame hi hn hq hp ht => exact hold (by rw [← hsame]; exact hl)
  | acquired id' key ttlMS hnew heq =>
    rw [heq] at hl
    by_cases hid : id = id'
    · subst hid
      cases (Function.update_self id _ s.leases).symm.trans hl
      rw [heq]
      exact law.sound_init _ _ _ _
    · exact hold ((Function.update_of_ne hid _ _).symm.trans hl)
  | moved id' b l₀ l' hl₀ hstep hincoming hout heq =>
    by_cases hid : id = id'
    · subst hid
      rw [(moved_fields heq).1] at hl
      cases hl
      exact sound_of_moved h hs hl₀ hstep hincoming heq
    · rw [heq, send_leases, consume_leases] at hl
      exact hold ((Function.update_of_ne hid _ _).symm.trans hl)

/-- **Every step keeps the invariant.** -/
theorem step_inv (h : Inv law C s) (hs : step C s a = some s') : Inv law C s' where
  servers := ServerInv.step h.servers hs
  requests _ _ := step_requests h hs
  workers _ _ _ hop := (step_workers h hs hop).later (later_of_step h hs)
  since _ _ _ _ := step_since h hs
  responses _ _ _ := step_responses h hs
  issued _ _ _ := step_issued h hs
  leases _ _ := step_leases h hs

end Later

end Law

end RedLease.Cluster

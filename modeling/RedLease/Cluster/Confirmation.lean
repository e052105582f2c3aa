import RedLease.Client.Confirmation
import RedLease.Cluster.Exclusion

/-!
# Confirmations and the servers

What a lease takes as confirmed is what the replica has stored. The invariant of the system carries
the promise of a server to `confirmedUntil` as it carries it to `validUntil`: package `client` is
lawful with the confirmations in `Sound` (`tracedLawful`).

The invariant says that a server keeps a promise for as long as the client's clock can be before
`confirmedUntil`, for clocks that drift as far apart as `Clocks` allows. If the clocks run at one
rate the server keeps it for `safetyMarginMS` longer. This is the same invariant for other clocks:
up to the present a run is one of any clocks that agree with it so far (`exec_congr`), so also of
those that use up the margin in the next instant (`Clocks.stretch`).

* **`confirmation_sound`**: a replica that is not in quarantine has stored what it has confirmed,
  with a deadline `safetyMarginMS` after `confirmedUntil`.
* **`confirmed_by_restarted`**: the answer of a replica can reach the client after the replica has
  restarted, and then it confirms what the replica has not stored any more.
-/

namespace RedLease.Cluster

open Lib

/-! ## Other clocks -/

/-- The clocks run at one rate. -/
def Clocks.SameRate {n : Nat} (C : Clocks n) : Prop :=
  ∀ p r t t', t ≤ t' → C.server r t' + C.client p t = C.server r t + C.client p t'

/-- The clocks agree up to instant `T`. -/
structure Clocks.Agree {n : Nat} (C C' : Clocks n) (T : Nat) : Prop where
  server : ∀ r t, t ≤ T → C'.server r t = C.server r t
  client : ∀ p t, t ≤ T → C'.client p t = C.client p t

/-- The arithmetic of `Clocks.stretch`: `c` and `c'` are readings of a client's clock, `v` and `v'`
of a server's. -/
theorem le_of_sameRate {c c' v v' : Nat} (hrate : v' + c = v + c') (δ margin : Nat) :
    v' + δ + margin ≤ v + (c' + δ - c) + margin := by
  omega

/-- After instant `T` the clocks of the clients advance by `δ` and stop, and those of the servers
advance by the margin more. -/
def Clocks.stretch {n : Nat} (C : Clocks n) (hrate : C.SameRate) (T δ : Nat) : Clocks n where
  server r t := if t ≤ T then C.server r t else C.server r T + δ + safetyMarginMS * millisecond
  client p t := if t ≤ T then C.client p t else C.client p T + δ
  server_mono r t t' h := by
    dsimp only
    split_ifs with ht ht' ht'
    · exact C.server_mono r h
    · exact (C.server_mono r ht).trans ((Nat.le_add_right _ _).trans (Nat.le_add_right _ _))
    · exact absurd (h.trans ht') ht
    · exact le_refl _
  client_mono p t t' h := by
    dsimp only
    split_ifs with ht ht' ht'
    · exact C.client_mono p h
    · exact (C.client_mono p ht).trans (Nat.le_add_right _ _)
    · exact absurd (h.trans ht') ht
    · exact le_refl _
  drift p r t t' h hshort := by
    by_cases ht' : t' ≤ T
    · rw [if_pos ht', if_pos (h.trans ht')] at hshort ⊢
      rw [if_pos ht', if_pos (h.trans ht')]
      exact C.drift p r t t' h hshort
    · rw [if_neg ht', if_neg ht']
      split_ifs with ht
      · exact le_of_sameRate (hrate p r t T ht) δ _
      · exact (Nat.le_add_right _ _).trans (Nat.le_add_right _ _)

theorem Clocks.agree_stretch {n : Nat} (C : Clocks n) (hrate : C.SameRate) (T δ : Nat) :
    C.Agree (C.stretch hrate T δ) T :=
  ⟨fun _ _ ht => if_pos ht, fun _ _ ht => if_pos ht⟩

section Agree

variable {d : Deployment} {C C' : Clocks d.serverCount} {s s' : State d} {a : Act d}

/-- A step looks at the clocks up to the instant it leads to. -/
theorem step_congr (hs : step C s a = some s') (hC : C.Agree C' s'.instant) :
    step C' s a = some s' := by
  have hle := instant_mono hs
  cases a with
  | advance =>
    cases hs
    simp only [step, hC.server _ _ (le_refl _)]
  | acquire id key ttlMS =>
    simp only [step] at hs ⊢
    rw [hC.client _ _ hle]
    exact hs
  | lease id b =>
    simp only [step, stepLease] at hs ⊢
    rw [hC.client _ _ hle]
    exact hs
  | _ => exact hs

theorem Clocks.Agree.of_le {T T' : Nat} (h : C.Agree C' T) (hle : T' ≤ T) : C.Agree C' T' :=
  ⟨fun r t ht => h.server r t (ht.trans hle), fun p t ht => h.client p t (ht.trans hle)⟩

theorem exec_instant {acts : List (Act d)} (h : Trans.exec (step C) s acts = some s') :
    s.instant ≤ s'.instant :=
  Trans.exec_invariant (I := fun s₁ : State d => s.instant ≤ s₁.instant)
    (fun hle hs => hle.trans (instant_mono hs)) (le_refl _) h

/-- **A run is a run for all clocks that agree with it so far.** -/
theorem exec_congr {acts : List (Act d)} (h : Trans.exec (step C) s acts = some s')
    (hC : C.Agree C' s'.instant) : Trans.exec (step C') s acts = some s' := by
  induction acts generalizing s with
  | nil => exact h
  | cons a acts ih =>
    obtain ⟨s₁, hs, hrest⟩ := Trans.exec_cons.mp h
    exact Trans.exec_cons.mpr ⟨s₁, step_congr hs (hC.of_le (exec_instant hrest)), ih hrest⟩

theorem init_congr {T : Nat} (hC : C.Agree C' T) : State.init d C' = State.init d C := by
  unfold State.init
  simp only [hC.server _ _ (Nat.zero_le _)]

theorem stretch_lt {now c : Nat} (hlt : now < c) : now + (c - 1 - now) < c := by
  omega

/-- The arithmetic of the margin: `u` is after the reading of the server's clock that is the margin
ahead when the client's, at `now`, has advanced to just before `c`. -/
theorem le_of_stretch {now v c u margin : Nat} (hlt : now < c)
    (h : v + (c - 1 - now) + margin < u) : c + margin + v ≤ u + now := by
  omega

theorem lt_of_margin {now v c u margin : Nat} (hlt : now < c) (h : c + margin + v ≤ u + now) :
    v < u := by
  omega

/-- **The margin is the server's.** With clocks that run at one rate, a server keeps for the margin
longer what it keeps for all clocks. -/
theorem backed_of_kept {quorumSize : Nat} {law : d.package.Lawful quorumSize} (hrate : C.SameRate)
    {acts : List (Act d)} (h : Trans.exec (step C) (State.init d C) acts = some s) {id : LeaseID}
    {key : Nat} {r : Fin d.serverCount} {c : Time}
    (hkept : ∀ C', Inv law C' s → (evidence law C' s id key).kept r c) (hdead : ¬ Dead law s id)
    (hlt : C.client id.process s.instant < c) :
    ∃ u, Backed s r key id u ∧
      c + safetyMarginMS * millisecond + C.server r s.instant ≤
        u + C.client id.process s.instant := by
  -- the same run with the clocks stretched to just before `c`
  let δ := c - 1 - C.client id.process s.instant
  have hagree := C.agree_stretch hrate s.instant δ
  have h' : Trans.exec (step (C.stretch hrate s.instant δ))
      (State.init d (C.stretch hrate s.instant δ)) acts = some s := by
    rw [init_congr hagree]
    exact exec_congr h hagree
  have hnow : (C.stretch hrate s.instant δ).client id.process s.instant < c := by
    rw [hagree.client _ _ (le_refl _)]
    exact hlt
  obtain ⟨u, hcover, hbacked⟩ := hkept _ (inv_of_exec law h') hnow hdead
  have hlater : ¬ s.instant + 1 ≤ s.instant := Nat.not_succ_le_self _
  have hclient : (C.stretch hrate s.instant δ).client id.process (s.instant + 1) < c := by
    show (if s.instant + 1 ≤ s.instant then _ else _) < c
    rw [if_neg hlater]
    exact stretch_lt hlt
  have hserver : C.server r s.instant + δ + safetyMarginMS * millisecond < u := by
    have hu := hcover (s.instant + 1) hclient
    change (if s.instant + 1 ≤ s.instant then _ else _) < u at hu
    rw [if_neg hlater] at hu
    exact hu
  exact ⟨u, hbacked, le_of_stretch hlt hserver⟩

theorem stored_of_view {r : Fin d.serverCount} {k : Nat} {entry : LeaseID × Time}
    (hup : (s.servers r).phase ≠ .quarantine) (h : s.view r k = some entry) :
    (s.servers r).stored (d.assign r) k = some entry := by
  rw [State.view, if_neg hup] at h
  exact h

end Agree

/-! ## Confirmations -/

theorem incoming_of_result {n m : Nat} {a : Client.LeaseAct n m} {who : Option (Fin m)} {r : Fin n}
    {answer : Response} (h : a.result = some (who, r, some answer)) :
    a.incoming = some (r, answer) := by
  cases a with
  | receive r' response mark pause =>
    cases h
    rfl
  | task j b =>
    cases b with
    | receive r' response mark =>
      cases h
      rfl
    | _ => cases h
  | _ => cases h

/-- `client.Client` is lawful, with what its confirmations rest on. -/
def tracedLawful (q : Client.Quorum) (slots : Nat) : (universal q slots).Lawful q.size where
  Sound e now l := (universalLawful q slots).Sound e now l ∧ Client.Lease.Traced e now l
  Abandoned := Client.Lease.Abandoned
  key_init := (universalLawful q slots).key_init
  key_step := (universalLawful q slots).key_step
  sound_init e key ttlMS now :=
    ⟨(universalLawful q slots).sound_init e key ttlMS now, Client.Lease.traced_init key ttlMS now⟩
  sound_mono hle hnow h :=
    ⟨(universalLawful q slots).sound_mono hle hnow h.1, h.2.mono hle hnow⟩
  sound_step := by
    rintro e now l a l' ⟨hsound, htraced⟩ hasked hkept hs
    refine ⟨(universalLawful q slots).sound_step hsound hasked hkept hs,
      htraced.step hasked (fun who r answer start hresult => ?_) hs⟩
    exact hkept r answer start (incoming_of_result hresult)
  kept h := (universalLawful q slots).kept h.1
  abandoned_step := (universalLawful q slots).abandoned_step
  abandoned_not_valid h := (universalLawful q slots).abandoned_not_valid h.1
  abandoned_of_release h := (universalLawful q slots).abandoned_of_release h.1

/-- **What a replica has confirmed is stored.** With clocks that run at one rate, in every reachable
state and for every lease that `Acquire` has returned and that is not released: while the client's
clock is before `confirmedUntil[r]`, replica `r` has stored the lease ID for the key, with a
deadline at least `safetyMarginMS` after `confirmedUntil[r]`, unless it is in the quarantine after a
restart. -/
theorem confirmation_sound (q : Client.Quorum) (config : Fin q.serverCount → Server.Config)
    (assign : (r : Fin q.serverCount) → Nat → Fin (config r).shardCount) (cleaners slots : Nat)
    (C : Clocks q.serverCount) (hrate : C.SameRate)
    (acts : List (Act (Deployment.universal q config assign cleaners slots)))
    {s : State (Deployment.universal q config assign cleaners slots)}
    (h : Trans.exec (step C) (State.init _ C) acts = some s) (id : LeaseID)
    (l : Client.Lease q.serverCount slots) (hl : s.leases id = some l)
    (howned : l.main.owned = true) (hactive : l.lifecycle = .active) (r : Fin q.serverCount)
    (hlt : C.client id.process s.instant < l.confirmedUntil r)
    (hup : (s.servers r).phase ≠ .quarantine) :
    ∃ deadline, (s.servers r).stored (assign r) l.key = some (id, deadline) ∧
      l.confirmedUntil r + safetyMarginMS * millisecond + C.server r s.instant ≤
        deadline + C.client id.process s.instant := by
  have hinv := inv_of_exec (d := Deployment.universal q config assign cleaners slots)
    (tracedLawful q slots) h
  have hdead : ¬ Dead (d := Deployment.universal q config assign cleaners slots)
      (tracedLawful q slots) s id := by
    rintro ⟨l', hl', habandoned⟩
    rw [hl] at hl'
    cases hl'
    rcases habandoned with hreleased | hgaveUp
    · rw [hactive] at hreleased
      cases hreleased
    · rw [Client.Lease.gaveUp_not_owned hgaveUp] at howned
      cases howned
  have hkept : ∀ C', Inv (d := Deployment.universal q config assign cleaners slots)
      (tracedLawful q slots) C' s →
      (evidence (d := Deployment.universal q config assign cleaners slots) (tracedLawful q slots) C'
        s id l.key).kept r (l.confirmedUntil r) := by
    intro C' hinv'
    exact (hinv'.leases id l hl).2.confirmed r (Nat.lt_of_le_of_lt (Nat.zero_le _) hlt)
  obtain ⟨u, hbacked, hu⟩ := backed_of_kept hrate h hkept hdead hlt
  have hclock : (s.servers r).clock < u := by
    rw [(hinv.servers r).clock]
    exact lt_of_margin hlt hu
  obtain ⟨deadline, hview, hle⟩ := hbacked hclock
  exact ⟨deadline, stored_of_view hup hview, hu.trans (Nat.add_le_add_right hle _)⟩

theorem secondClocks_sameRate (n : Nat) : (secondClocks n).SameRate :=
  fun _ _ _ _ _ => Nat.add_comm _ _

/-- A lease of the runs below. -/
def universalLease (s : State threeServers) (id : LeaseID) : Option (Client.Lease 3 1) := s.leases id

theorem confirmation_sound_grantedActs :
    ∃ s l, Trans.exec (step (secondClocks _)) (State.init threeServers (secondClocks _))
        grantedActs = some s ∧ s.leases ⟨1, 1, 1⟩ = some l ∧
      ∃ deadline, (s.servers (1 : Fin 3)).stored tinyAssign 0 = some (⟨1, 1, 1⟩, deadline) := by
  obtain ⟨s, he, hup, l, hl, hkey, howned, hactive, hlt⟩ : ∃ s, Trans.exec (step (secondClocks _))
      (State.init threeServers (secondClocks _)) grantedActs = some s ∧
        (s.servers (1 : Fin 3)).phase ≠ .quarantine ∧
        ∃ l, universalLease s ⟨1, 1, 1⟩ = some l ∧ l.key = 0 ∧ l.main.owned = true ∧
          l.lifecycle = .active ∧ (secondClocks 3).client ⟨1, 1⟩ s.instant < l.confirmedUntil 1 := by
    decide +kernel
  obtain ⟨deadline, hstored, -⟩ := confirmation_sound .quorum2Of3 (fun _ => Server.tinyConfig)
    (fun _ => tinyAssign) 0 1 (secondClocks 3) (secondClocks_sameRate 3) grantedActs he ⟨1, 1, 1⟩ l
    hl howned hactive (1 : Fin 3) hlt hup
  rw [hkey] at hstored
  exact ⟨s, l, he, hl, deadline, hstored⟩

/-- Two of three servers answer, and the first of them crashes before its answer is received. -/
def answeredActs : List (Act threeServers) :=
  List.replicate 6 .advance ++ [.activate (0 : Fin 3), .activate (1 : Fin 3),
    .acquire ⟨1, 1, 1⟩ 0 5000,
    .lease ⟨1, 1, 1⟩ (.submit 1 true), .lease ⟨1, 1, 1⟩ (.submit 2 true),
    .lease ⟨1, 1, 1⟩ (.submit 3 true), .lease ⟨1, 1, 1⟩ (.check false)] ++
  serveActs 0 0 6000000000 ++ serveActs 1 0 6000000000 ++ [.crash (0 : Fin 3)]

/-- The client receives the two answers. -/
def receivedActs : List (Act threeServers) :=
  [.lease ⟨1, 1, 1⟩ (.receive (0 : Fin 3) (some (acquireResponse 1 LeaseStatus.ok 5000)) 0 0),
    .lease ⟨1, 1, 1⟩ (.receive (1 : Fin 3) (some (acquireResponse 2 LeaseStatus.ok 5000)) 0 0),
    .lease ⟨1, 1, 1⟩ (.commit false 0)]

/-- **A confirmation can come from before a restart.** The first server restarts before the client
receives its answer, so that it is not confirmed at that moment. It does not restart after the
client has taken it as confirmed, and it has not stored the lease. -/
theorem confirmed_by_restarted :
    ∃ s s' : State threeServers, ∃ l l' : Client.Lease 3 1,
      Trans.exec (step (secondClocks _)) (State.init threeServers (secondClocks _)) answeredActs =
        some s ∧ s.leases ⟨1, 1, 1⟩ = some l ∧ l.confirmedUntil 0 = 0 ∧
      Trans.exec (step (secondClocks _)) s receivedActs = some s' ∧
      s'.leases ⟨1, 1, 1⟩ = some l' ∧ l'.main = .returned .acquired ∧ l'.lifecycle = .active ∧
      (secondClocks 3).client ⟨1, 1⟩ s'.instant < l'.confirmedUntil 0 ∧
      (s'.servers (0 : Fin 3)).stored tinyAssign 0 = none := by
  obtain ⟨s, he, l, hl, hzero, s', he', l', hl', hend⟩ : ∃ s, Trans.exec (step (secondClocks _))
      (State.init threeServers (secondClocks _)) answeredActs = some s ∧
        ∃ l, universalLease s ⟨1, 1, 1⟩ = some l ∧ l.confirmedUntil 0 = 0 ∧
        ∃ s', Trans.exec (step (secondClocks _)) s receivedActs = some s' ∧
        ∃ l', universalLease s' ⟨1, 1, 1⟩ = some l' ∧ l'.main = .returned .acquired ∧
          l'.lifecycle = .active ∧
          (secondClocks 3).client ⟨1, 1⟩ s'.instant < l'.confirmedUntil 0 ∧
          (s'.servers (0 : Fin 3)).stored tinyAssign 0 = none := by decide +kernel
  exact ⟨s, s', l, l', he, hl, hzero, he', hl', hend⟩

end RedLease.Cluster

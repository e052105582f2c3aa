import RedLease.Cluster.Invariant

/-!
# Mutual exclusion

A lease that is locally valid has a quorum of servers that have stored its key with its ID at this
instant. Two quorums have a server in common, and a server has one entry for a key.

* `Valid.stored`: the quorum of a valid lease, for any lawful client package.
* `universal` and `universalLawful`: package `client` in the system.
* **`mutual_exclusion`**: in every reachable state a key has at most one valid lease.
-/

namespace RedLease

open Lib

/-- The response that a step of a lease receives, and the replica it is from. -/
def Client.LeaseAct.incoming {n m : Nat} : Client.LeaseAct n m → Option (Fin n × Response)
  | .receive r (some response) _ _ => some (r, response)
  | .task _ (.receive r (some response) _) => some (r, response)
  | _ => none

namespace Cluster

section Law

variable {d : Deployment} {C : Clocks d.serverCount} {s : State d} {quorumSize : Nat}
  {law : d.package.Lawful quorumSize} {id : LeaseID} {key : Nat}

theorem Valid.not_dead (h : Inv law C s) (hv : Valid C s id key) : ¬ Dead law s id := by
  rintro ⟨l, hl, habandoned⟩
  obtain ⟨l', hl', -, hvalid⟩ := hv
  rw [Option.mem_def, hl] at hl'
  cases hl'
  exact law.abandoned_not_valid (h.leases id l hl) habandoned hvalid

/-- **Evidence is what the servers have stored**: a quorum that keeps the lease until a time which
the client's clock has not reached has stored its ID, unexpired. -/
theorem stored_of_quorumKept (h : Inv law C s) (hdead : ¬ Dead law s id) {v : Time}
    (hkept : (evidence law C s id key).QuorumKept quorumSize v)
    (hlt : C.client id.process s.instant < v) :
    ∃ A : Finset (Fin d.serverCount), quorumSize ≤ A.card ∧
      ∀ r ∈ A, ∃ t, s.view r key = some (id, t) ∧ (s.servers r).clock < t := by
  obtain ⟨A, hcard, hkept⟩ := hkept
  refine ⟨A, hcard, fun r hr => ?_⟩
  obtain ⟨u, hcover, hbacked⟩ := hkept r hr hlt hdead
  have hu : (s.servers r).clock < u := by
    rw [(h.servers r).clock]
    exact hcover s.instant hlt
  obtain ⟨t, hview, ht⟩ := hbacked hu
  exact ⟨t, hview, lt_of_lt_of_le hu ht⟩

/-- **A quorum has stored the key of a valid lease with its ID.** -/
theorem Valid.stored (h : Inv law C s) (hv : Valid C s id key) :
    ∃ A : Finset (Fin d.serverCount), quorumSize ≤ A.card ∧
      ∀ r ∈ A, ∃ t, s.view r key = some (id, t) ∧ (s.servers r).clock < t := by
  have hdead := hv.not_dead h
  obtain ⟨l, hl, rfl, hactive, hlt⟩ := hv
  exact stored_of_quorumKept h hdead (law.kept (h.leases id l hl) hactive hlt) hlt

/-- Two valid leases on a key are one, if any two quorums have a server in common. -/
theorem Valid.unique (h : Inv law C s) {id' : LeaseID}
    (hinter : ∀ {A B : Finset (Fin d.serverCount)}, quorumSize ≤ A.card → quorumSize ≤ B.card →
      ∃ r, r ∈ A ∧ r ∈ B)
    (hv : Valid C s id key) (hv' : Valid C s id' key) : id = id' := by
  obtain ⟨A, hA, hstored⟩ := hv.stored h
  obtain ⟨B, hB, hstored'⟩ := hv'.stored h
  obtain ⟨r, hrA, hrB⟩ := hinter hA hB
  obtain ⟨t, hview, -⟩ := hstored r hrA
  obtain ⟨t', hview', -⟩ := hstored' r hrB
  rw [hview] at hview'
  exact congrArg Prod.fst (Option.some.inj hview')

theorem inv_of_exec (law : d.package.Lawful quorumSize) {acts : List (Act d)}
    (h : Trans.exec (step C) (State.init d C) acts = some s) : Inv law C s :=
  Trans.exec_invariant (fun hi hs => step_inv hi hs) (inv_init law C) h

end Law

/-! ## Package `client` -/

/-- Package `client` with this quorum; at most `slots` background goroutines of a lease run at a
time. -/
def universal (q : Client.Quorum) (slots : Nat) : Package q.serverCount where
  Lease := Client.Lease q.serverCount slots
  Act := Client.LeaseAct q.serverCount slots
  init := Client.Lease.init
  key := Client.Lease.key
  lifecycle := Client.Lease.lifecycle
  validUntil := Client.Lease.validUntil
  step now l a := l.step q.size now a
  outgoing := Client.Lease.outgoing
  incoming := Client.LeaseAct.incoming

/-- `client.Client` is lawful: the validity of a lease rests on evidence, and its Releases come when
it is given up. -/
def universalLawful (q : Client.Quorum) (slots : Nat) : (universal q slots).Lawful q.size where
  Sound e now l := Client.Lease.Inv l ∧ Client.Lease.Early l ∧ Client.Lease.Covered e q.size now l
  Abandoned := Client.Lease.Abandoned
  key_init _ _ _ := rfl
  key_step hs := Client.Lease.step_key hs
  sound_init _ _ _ _ := ⟨Client.Lease.inv_init _ _ _, fun _ => rfl,
    ⟨⟨le_refl _, nofun⟩, fun hpos => absurd hpos (Nat.lt_irrefl 0)⟩⟩
  sound_mono hle hnow h := ⟨h.1, h.2.1, h.2.2.mono hle hnow⟩
  sound_step := by
    rintro e now l a l' ⟨hinv, hearly, hcovered⟩ hasked hkept hs
    have hq : 0 < q.size := by cases q <;> decide
    refine ⟨Client.Lease.step_inv hinv hs, hearly.step hs,
      Client.Lease.step_covered hq hcovered hasked ?_ hs⟩
    rintro r answer mark pause start rfl
    exact hkept r answer start rfl
  kept h _ hlt := h.2.2.valid (lt_of_le_of_lt (Nat.zero_le _) hlt)
  abandoned_step h hs := h.step hs
  abandoned_not_valid h habandoned := habandoned.not_valid h.2.1
  abandoned_of_release h hout hkind := Client.Lease.abandoned_of_release h.1 hout hkind

/-- All clients use package `client`, with the same servers and the same quorum. -/
def Deployment.universal (q : Client.Quorum) (config : Fin q.serverCount → Server.Config)
    (assign : (r : Fin q.serverCount) → Nat → Fin (config r).shardCount)
    (cleaners slots : Nat) : Deployment where
  serverCount := q.serverCount
  config
  assign
  cleaners
  package := Cluster.universal q slots

/-- **Mutual exclusion.** Whatever the servers, the clients, their clocks and the network do, with
messages delayed, reordered and lost, and servers that crash and come back in quarantine: in every
reachable state a key has at most one valid lease. -/
theorem mutual_exclusion (q : Client.Quorum) (config : Fin q.serverCount → Server.Config)
    (assign : (r : Fin q.serverCount) → Nat → Fin (config r).shardCount) (cleaners slots : Nat)
    (C : Clocks q.serverCount)
    (acts : List (Act (Deployment.universal q config assign cleaners slots)))
    {s : State (Deployment.universal q config assign cleaners slots)}
    (h : Trans.exec (step C) (State.init _ C) acts = some s) (key : Nat) (id id' : LeaseID)
    (hv : Valid C s id key) (hv' : Valid C s id' key) : id = id' :=
  Valid.unique (inv_of_exec (universalLawful q slots) h) q.inter hv hv'

/-- Every clock advances by a second in an instant. -/
def secondClocks (n : Nat) : Clocks n where
  server _ t := t * 1000 * millisecond
  client _ t := t * 1000 * millisecond
  server_mono _ _ _ h := Nat.mul_le_mul_right _ (Nat.mul_le_mul_right _ h)
  client_mono _ _ _ h := Nat.mul_le_mul_right _ (Nat.mul_le_mul_right _ h)
  drift _ _ t t' h _ := by
    have hle := Nat.mul_le_mul_right millisecond (Nat.mul_le_mul_right 1000 h)
    rw [← Nat.add_sub_assoc hle, Nat.add_sub_cancel_left]
    exact Nat.le_add_right _ _

/-- Even keys are on the first shard, odd keys on the second. -/
def tinyAssign : Nat → Fin Server.tinyConfig.shardCount := Fin.ofNat 2

/-- Three servers with two shards each. -/
abbrev threeServers : Deployment :=
  .universal .quorum2Of3 (fun _ => Server.tinyConfig) (fun _ => tinyAssign) 0 1

/-- Server `r` grants the first request in flight, on a key of shard `i`. -/
def serveActs (r : Fin 3) (i : Fin 2) (now : Time) : List (Act threeServers) :=
  [.deliver 0, .server r (.check i), .server r (.apply i now), .server r (.work i .fresh),
    .server r (.work i .fresh), .server r (.work i .fresh), .server r (.work i .fresh),
    .respond r i]

/-- The lease of a client is granted by two of three servers, one of which then crashes. -/
def grantedActs : List (Act threeServers) :=
  List.replicate 6 .advance ++ [.activate (0 : Fin 3), .activate (1 : Fin 3),
    .acquire ⟨1, 1, 1⟩ 0 5000,
    .lease ⟨1, 1, 1⟩ (.submit 1 true), .lease ⟨1, 1, 1⟩ (.submit 2 true),
    .lease ⟨1, 1, 1⟩ (.submit 3 true), .lease ⟨1, 1, 1⟩ (.check false)] ++
  serveActs 0 0 6000000000 ++ serveActs 1 0 6000000000 ++
  [.lease ⟨1, 1, 1⟩ (.receive (0 : Fin 3) (some (acquireResponse 1 LeaseStatus.ok 5000)) 0 0),
    .lease ⟨1, 1, 1⟩ (.receive (1 : Fin 3) (some (acquireResponse 2 LeaseStatus.ok 5000)) 0 0),
    .lease ⟨1, 1, 1⟩ (.commit false 0), .crash (0 : Fin 3), .advance]

theorem mutual_exclusion_grantedActs :
    ∃ s, Trans.exec (step (secondClocks _)) (State.init threeServers (secondClocks _)) grantedActs =
        some s ∧ Valid (secondClocks _) s ⟨1, 1, 1⟩ 0 ∧
      ∀ id, Valid (secondClocks _) s id 0 → id = ⟨1, 1, 1⟩ := by
  obtain ⟨s, he, hv⟩ : ∃ s, Trans.exec (step (secondClocks _))
      (State.init threeServers (secondClocks _)) grantedActs = some s ∧
        Valid (secondClocks _) s ⟨1, 1, 1⟩ 0 := by decide +kernel
  exact ⟨s, he, hv, fun id hid => mutual_exclusion _ _ _ _ _ _ grantedActs he 0 _ _ hid hv⟩

end Cluster

end RedLease

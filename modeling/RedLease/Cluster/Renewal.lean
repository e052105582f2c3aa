import RedLease.Cluster.Exclusion

/-!
# Renew and the leases in between

`Renew` extends a lease without asking whether its validity has lapsed in the meantime; it relies on
the servers, which do not renew what they have let go. But background healing sends an Acquire with
the lease's ID, and one that is delayed can put the lease back into the store of a server after the
key had another owner. Then `Renew` succeeds (`renew_resurrects`).

It cannot as long as servers do not insert a lease whose validity has lapsed, and `Renew` does not
linger between the quorum and its return (`Prompt`). Then a lapsed lease is `Lost`: on the servers of
the other owner's quorum its ID is gone for good.

* **`renew_uninterrupted`**: with prompt steps, a successful `Renew` means that nobody else had the
  key since `Acquire`.
-/

namespace RedLease

open Lib

/-- The quorum time that a `Renew` has found and not yet returned. -/
def Client.Main.renewing {n : Nat} : Client.Main n → Option Time
  | .renewQuorum _ _ validUntil => some validUntil
  | _ => none

/-- The job of a worker that is about to insert an entry. -/
def Server.Worker.inserting : Server.Worker → Option Server.Job
  | .insert job => some job
  | _ => none

/-- The label is the return of a successful `Acquire` or `Renew`. -/
def Client.LeaseAct.commits {n m : Nat} : Client.LeaseAct n m → Bool
  | .commit false _ => true
  | _ => false

namespace Cluster

variable {q : Client.Quorum} {config : Fin q.serverCount → Server.Config}
  {assign : (r : Fin q.serverCount) → Nat → Fin (config r).shardCount} {cleaners slots : Nat}
  {C : Clocks q.serverCount} {s s' : State (.universal q config assign cleaners slots)}
  {a : Act (.universal q config assign cleaners slots)} {id : LeaseID} {key : Nat}

/-- The leases of the system, with their type. -/
def leaseOf (s : State (.universal q config assign cleaners slots)) (id : LeaseID) :
    Option (Client.Lease q.serverCount slots) := s.leases id

/-- `Acquire` has returned this lease on `key`. -/
def Returned (s : State (.universal q config assign cleaners slots)) (id : LeaseID) (key : Nat) :
    Prop :=
  ∃ l ∈ leaseOf s id, l.key = key ∧ l.main.owned = true

/-- `Renew` of this lease has found a quorum, and returns without an error if it is not canceled. -/
def Renewing (s : State (.universal q config assign cleaners slots)) (id : LeaseID) : Prop :=
  ∃ l ∈ leaseOf s id, l.main.renewing.isSome

instance (s : State (.universal q config assign cleaners slots)) (id : LeaseID) (key : Nat) :
    Decidable (Returned s id key) := inferInstanceAs (Decidable (∃ _ ∈ _, _))

instance (s : State (.universal q config assign cleaners slots)) (id : LeaseID) :
    Decidable (Renewing s id) := inferInstanceAs (Decidable (∃ _ ∈ _, _))

/-- `Acquire` has returned the lease, it has not been released, and its validity is over. -/
def Lapsed (C : Clocks q.serverCount) (s : State (.universal q config assign cleaners slots))
    (id : LeaseID) : Prop :=
  ∃ l ∈ leaseOf s id, l.main.owned = true ∧ l.lifecycle = .active ∧
    l.validUntil ≤ C.client id.process s.instant

instance (C : Clocks q.serverCount) (s : State (.universal q config assign cleaners slots))
    (id : LeaseID) : Decidable (Lapsed C s id) := inferInstanceAs (Decidable (∃ _ ∈ _, _))

/-- No server inserts a lease whose validity is over, and no `Renew` returns a quorum time that has
passed. -/
def Prompt (C : Clocks q.serverCount) (s : State (.universal q config assign cleaners slots)) :
    Act (.universal q config assign cleaners slots) → Prop
  | .server r (.work i _) =>
    ∀ job ∈ ((s.servers r).workers i).inserting, ¬ Lapsed C s job.op.leaseID
  | .lease id b => ∀ l ∈ leaseOf s id, ∀ v ∈ l.main.renewing,
      Client.LeaseAct.commits b = true → C.client id.process s.instant < v
  | _ => True

instance (C : Clocks q.serverCount) (s : State (.universal q config assign cleaners slots)) :
    (a : Act (.universal q config assign cleaners slots)) → Decidable (Prompt C s a)
  | .server _ (.work _ _) => inferInstanceAs (Decidable (∀ _ ∈ _, ¬ _))
  | .lease _ _ => inferInstanceAs (Decidable (∀ _ ∈ _, ∀ _ ∈ _, _ → _))
  | .server _ (.tick _) | .server _ (.dequeue _ _) | .server _ (.check _) | .server _ (.apply _ _)
  | .server _ (.respond _) | .server _ (.sweep _) | .server _ (.start _ _) | .server _ (.pass _)
  | .server _ .activate | .server _ .close | .advance | .deliver _ | .refuse _ | .respond _ _
  | .activate _ | .crash _ | .loseRequest _ | .loseResponse _ | .acquire _ _ _ =>
    inferInstanceAs (Decidable True)

/-! ## Leases along a run -/

/-- What a step does to a lease that exists. -/
theorem step_lease {l : Client.Lease q.serverCount slots} (hs : step C s a = some s')
    (hl : leaseOf s id = some l) : leaseOf s' id = some l ∨
      ∃ b l', a = .lease id b ∧ leaseOf s' id = some l' ∧
        l.step q.size (C.client id.process s.instant) b = some l' :=
  lease_of_step hs hl

theorem Returned.step (hs : step C s a = some s') (h : Returned s id key) :
    Returned s' id key := by
  obtain ⟨l, hl, hkey, howned⟩ := h
  rcases step_lease hs hl with hsame | ⟨b, l', -, hl', hstep⟩
  · exact ⟨l, hsame, hkey, howned⟩
  · exact ⟨l', hl', (Client.Lease.step_key hstep).trans hkey, Client.Lease.owned_step howned hstep⟩

/-- The validity of the lease is over, and its ID is on none of the servers `A`. -/
def Lost (C : Clocks q.serverCount) (s : State (.universal q config assign cleaners slots))
    (id : LeaseID) (key : Nat) (A : Finset (Fin q.serverCount)) : Prop :=
  ∃ l, leaseOf s id = some l ∧ l.key = key ∧ l.main.owned = true ∧
    (l.lifecycle = .active → l.validUntil ≤ C.client id.process s.instant ∧
      ∀ r ∈ A, ∀ t, s.view r key ≠ some (id, t))

/-- The `Renew` of a lost lease has no quorum in time. -/
theorem Lost.not_renewed (h : Inv (universalLawful q slots) C s) {A : Finset (Fin q.serverCount)}
    (hA : q.size ≤ A.card) (hlost : Lost C s id key A) {l : Client.Lease q.serverCount slots}
    (hl : leaseOf s id = some l) {v : Time} (hm : l.main.renewing = some v) :
    ¬ C.client id.process s.instant < v := by
  intro hlt
  obtain ⟨start, waits, hmain⟩ : ∃ start waits, l.main = .renewQuorum start waits v := by
    cases hmain : l.main with
    | renewQuorum start waits v' =>
      rw [hmain] at hm
      cases hm
      exact ⟨start, waits, rfl⟩
    | _ => rw [hmain] at hm; cases hm
  obtain ⟨hinv, -, hcovered⟩ := h.leases id l hl
  have hactive : l.lifecycle = .active := by
    have hstage := hinv.stage
    rw [Client.Lease.stage_calling (by rw [hmain]; trivial)] at hstage
    exact hstage.1
  have hdead : ¬ Dead (universalLawful q slots) s id := by
    rintro ⟨l', hl', habandoned⟩
    cases hl'.symm.trans hl
    rcases habandoned with hreleased | hgave
    · rw [hactive] at hreleased; cases hreleased
    · rw [hmain] at hgave; cases hgave
  have hkept := hcovered.main
  rw [hmain] at hkept
  obtain ⟨B, hB, hstored⟩ := stored_of_quorumKept h hdead hkept hlt
  obtain ⟨r, hrA, hrB⟩ := q.inter hA hB
  obtain ⟨l', hl', hkey, -, hgone⟩ := hlost
  cases hl'.symm.trans hl
  obtain ⟨t, hview, -⟩ := hstored r hrB
  exact (hgone hactive).2 r hrA t (hkey ▸ hview)

/-- **A lost lease stays lost** as long as the steps are prompt. -/
theorem Lost.step (h : Inv (universalLawful q slots) C s) {A : Finset (Fin q.serverCount)}
    (hA : q.size ≤ A.card) (hlost : Lost C s id key A) (hprompt : Prompt C s a)
    (hs : step C s a = some s') : Lost C s' id key A := by
  have hnever := fun {l v} => Lost.not_renewed (l := l) (v := v) h hA hlost
  obtain ⟨l, hl, hkey, howned, hgone⟩ := hlost
  have hinstant := (later_of_step h hs).instant
  have habsent : l.lifecycle = .active → ∀ r ∈ A, ∀ t, s'.view r key ≠ some (id, t) := by
    intro hactive r hr t hview
    obtain ⟨hlapsed, hnone⟩ := hgone hactive
    rcases view_inserted h.servers hs hview with ⟨t₀, hold⟩ | ⟨i, pool, job, rfl, hw, -, rfl⟩
    · exact hnone r hr t₀ hold
    · exact hprompt job (by rw [hw]; rfl) ⟨l, hl, howned, hactive, hlapsed⟩
  have hclock : l.lifecycle = .active → l.validUntil ≤ C.client id.process s'.instant :=
    fun hactive => (hgone hactive).1.trans (C.client_mono _ hinstant)
  rcases step_lease hs hl with hsame | ⟨b, l', rfl, hl', hstep⟩
  · exact ⟨l, hsame, hkey, howned, fun hactive => ⟨hclock hactive, habsent hactive⟩⟩
  · refine ⟨l', hl', (Client.Lease.step_key hstep).trans hkey,
      Client.Lease.owned_step howned hstep, ?_⟩
    cases Client.Lease.step_validity hstep with
    | same hv hlife ho hg =>
      rw [hv, hlife]
      exact fun hactive => ⟨hclock hactive, habsent hactive⟩
    | acquired j start waits v ha hm hv hlife ho =>
      rw [hm] at howned
      cases howned
    | renewed j start waits v ha hm hv hlife ho =>
      -- the quorum of the `Renew` would meet the servers that have lost the lease
      subst ha
      have hrenewing : l.main.renewing = some v := by rw [hm]; rfl
      exact absurd (hprompt l hl v hrenewing rfl) (hnever hl hrenewing)
    | released ho hlife hv ho' =>
      rw [hlife]
      nofun

theorem lost_of_exec (h : Inv (universalLawful q slots) C s) {A : Finset (Fin q.serverCount)}
    (hA : q.size ≤ A.card) (hlost : Lost C s id key A)
    {acts : List (Act (.universal q config assign cleaners slots))}
    (hprompt : Trans.Along (step C) (Prompt C) s acts)
    (he : Trans.exec (step C) s acts = some s') :
    Inv (universalLawful q slots) C s' ∧ Lost C s' id key A := by
  have hstep : ∀ {s : State (.universal q config assign cleaners slots)} {a s'},
      Inv (universalLawful q slots) C s ∧ Lost C s id key A → Prompt C s a →
      step C s a = some s' → Inv (universalLawful q slots) C s' ∧ Lost C s' id key A :=
    fun hi hp hs => ⟨step_inv hi.1 hs, hi.2.step hi.1 hA hp hs⟩
  exact Trans.exec_along hstep ⟨h, hlost⟩ hprompt he

/-- Another valid lease on its key means that a lease is lost on the other's servers. -/
theorem Returned.lost (h : Inv (universalLawful q slots) C s) (hreturned : Returned s id key)
    {id' : LeaseID} (hne : id' ≠ id) (hv : Valid C s id' key) :
    ∃ A : Finset (Fin q.serverCount), q.size ≤ A.card ∧ Lost C s id key A := by
  obtain ⟨A, hA, hstored⟩ := hv.stored h
  obtain ⟨l, hl, hkey, howned⟩ := hreturned
  refine ⟨A, hA, l, hl, hkey, howned, fun hactive => ⟨not_lt.mp fun hlt => hne ?_, ?_⟩⟩
  · exact Valid.unique h q.inter hv ⟨l, hl, hkey, hactive, hlt⟩
  · intro r hr t hview
    obtain ⟨t', hview', -⟩ := hstored r hr
    rw [hview] at hview'
    cases hview'
    exact hne rfl

/-- **`Renew` does not resurrect, with prompt steps.** If `Acquire` returned a lease and a later
`Renew` of it returns without an error, then no other lease on the key was valid in between. -/
theorem renew_uninterrupted (q : Client.Quorum) (config : Fin q.serverCount → Server.Config)
    (assign : (r : Fin q.serverCount) → Nat → Fin (config r).shardCount) (cleaners slots : Nat)
    (C : Clocks q.serverCount)
    (before between rest : List (Act (.universal q config assign cleaners slots)))
    (id : LeaseID) (key : Nat) (j : Fin slots)
    {s₀ s₁ s₂ s₃ : State (.universal q config assign cleaners slots)}
    (h₀ : Trans.exec (step C) (State.init _ C) before = some s₀) (hreturned : Returned s₀ id key)
    (h₁ : Trans.exec (step C) s₀ between = some s₁) (h₂ : Trans.exec (step C) s₁ rest = some s₂)
    (hrenewing : Renewing s₂ id) (_h₃ : step C s₂ (.lease id (.commit false j)) = some s₃)
    (hprompt : Trans.Along (step C) (Prompt C) (State.init _ C)
      (before ++ between ++ rest ++ [.lease id (.commit false j)]))
    (id' : LeaseID) (hne : id' ≠ id) : ¬ Valid C s₁ id' key := by
  intro hv
  have hinv₁ : Inv (universalLawful q slots) C s₁ :=
    inv_of_exec _ (Trans.exec_append.mpr ⟨s₀, h₀, h₁⟩)
  have hreturned₁ : Returned s₁ id key :=
    Trans.exec_invariant (I := fun s => Returned s id key) (fun hr hs => hr.step hs) hreturned h₁
  obtain ⟨A, hA, hlost⟩ := hreturned₁.lost hinv₁ hne hv
  have hrest : Trans.Along (step C) (Prompt C) s₁ (rest ++ [.lease id (.commit false j)]) := by
    rw [List.append_assoc, List.append_assoc] at hprompt
    exact Trans.along_append (Trans.along_append hprompt h₀) h₁
  obtain ⟨hinv₂, hlost₂⟩ : Inv (universalLawful q slots) C s₂ ∧ Lost C s₂ id key A :=
    lost_of_exec hinv₁ hA hlost (Trans.along_left hrest) h₂
  obtain ⟨l, hl, hsome⟩ := hrenewing
  obtain ⟨v, hm⟩ := Option.isSome_iff_exists.mp hsome
  have hlast := (Trans.along_append hrest h₂).1
  exact hlost₂.not_renewed hinv₂ hA hl hm (hlast l hl v hm rfl)

/-! ## Two runs -/

/-- One server with two shards. -/
abbrev oneServer : Deployment :=
  .universal .quorum1Of1 (fun _ => Server.tinyConfig) (fun _ => tinyAssign) 0 2

/-- Steps of one lease. -/
def leaseActs (id : LeaseID) (acts : List (Client.LeaseAct 1 2)) : List (Act oneServer) :=
  acts.map (.lease id)

/-- The server receives request `k` in flight, on a key of its first shard, and answers it. -/
def applyActs (k : Nat) (now : Time) (works : Nat) : List (Act oneServer) :=
  let server (a : Server.Act 2 0) : Act oneServer := .server (0 : Fin 1) a
  [.deliver k, server (.check 0), server (.apply 0 now)] ++
    List.replicate works (server (.work 0 .fresh)) ++ [.respond (0 : Fin 1) (0 : Fin 2)]

/-- At 6 s a client acquires key 0 for 5 s. -/
def acquiredActs : List (Act oneServer) :=
  List.replicate 6 .advance ++ [.activate (0 : Fin 1), .acquire ⟨1, 1, 1⟩ 0 5000] ++
  leaseActs ⟨1, 1, 1⟩ [.submit 1 true, .check false] ++ applyActs 0 6000000000 4 ++
  leaseActs ⟨1, 1, 1⟩ [.receive 0 (some (acquireResponse 1 LeaseStatus.ok 5000)) 0 0,
    .commit false 0]

/-- A second later it renews the lease. -/
def renewedActs : List (Act oneServer) :=
  leaseActs ⟨1, 1, 1⟩ [.renew 5000, .submit 2 true, .check false] ++ applyActs 0 7000000000 1 ++
  leaseActs ⟨1, 1, 1⟩ [.receive 0 (some (renewResponse 2 LeaseStatus.ok 5000)) 0 0]

theorem renew_uninterrupted_renewedActs :
    ∃ s₁, Trans.exec (step (secondClocks _)) (State.init oneServer (secondClocks _))
        (acquiredActs ++ [.advance]) = some s₁ ∧ Valid (secondClocks _) s₁ ⟨1, 1, 1⟩ 0 ∧
      ∀ id, id ≠ ⟨1, 1, 1⟩ → ¬ Valid (secondClocks _) s₁ id 0 := by
  obtain ⟨s₀, h₀, hreturned, s₁, h₁, hv, s₂, h₂, hrenewing, s₃, h₃, -⟩ :
      ∃ s₀, Trans.exec (step (secondClocks _)) (State.init oneServer (secondClocks _)) acquiredActs =
        some s₀ ∧ Returned s₀ ⟨1, 1, 1⟩ 0 ∧
      ∃ s₁, Trans.exec (step (secondClocks _)) s₀ [.advance] = some s₁ ∧
        Valid (secondClocks _) s₁ ⟨1, 1, 1⟩ 0 ∧
      ∃ s₂, Trans.exec (step (secondClocks _)) s₁ renewedActs = some s₂ ∧ Renewing s₂ ⟨1, 1, 1⟩ ∧
      ∃ s₃, step (secondClocks _) s₂ (.lease ⟨1, 1, 1⟩ (.commit false 1)) = some s₃ ∧ True := by
    decide +kernel
  have hprompt : Trans.Along (step (secondClocks _)) (Prompt (secondClocks _))
      (State.init oneServer (secondClocks _)) (acquiredActs ++ [.advance] ++ renewedActs ++
        [.lease ⟨1, 1, 1⟩ (.commit false 1)]) := by decide +kernel
  exact ⟨s₁, Trans.exec_append.mpr ⟨s₀, h₀, h₁⟩, hv, renew_uninterrupted .quorum1Of1 _ _ 0 2
    (secondClocks _) acquiredActs [.advance] renewedActs ⟨1, 1, 1⟩ 0 1 h₀ hreturned h₁ h₂ hrenewing
    h₃ hprompt⟩

/-- A first `Renew` fails at 7 s because its request is not accepted, and the healer sends an Acquire
that is delayed. The lease lapses, and at 11 s another client acquires the key for a second. -/
def rivalActs : List (Act oneServer) :=
  leaseActs ⟨1, 1, 1⟩ [.task 0 (.go true), .task 0 (.go true)] ++ [.advance] ++
  leaseActs ⟨1, 1, 1⟩ ([.renew 5000, .submit 2 false, .check false, .giveUp, .fail 0] ++
    List.replicate 6 (.task 0 (.go true)) ++ [.task 0 (.submit 2 true), .task 0 (.go true)]) ++
  List.replicate 4 .advance ++ [.acquire ⟨2, 1, 1⟩ 0 1000] ++
  leaseActs ⟨2, 1, 1⟩ [.submit 1 true, .check false] ++ applyActs 1 11000000000 6 ++
  leaseActs ⟨2, 1, 1⟩ [.receive 0 (some (acquireResponse 1 LeaseStatus.ok 1000)) 0 0,
    .commit false 0]

/-- At 12 s that lease has expired, the delayed Acquire arrives and puts the old one back, and `Renew`
finds it there. -/
def revivedActs : List (Act oneServer) :=
  [.advance] ++ applyActs 0 12000000000 6 ++
  leaseActs ⟨1, 1, 1⟩ [.renew 5000, .submit 3 true, .check false] ++ applyActs 0 12000000000 1 ++
  leaseActs ⟨1, 1, 1⟩ [.receive 0 (some (renewResponse 3 LeaseStatus.ok 5000)) 0 0]

/-- **`Renew` resurrects a lease**: another client had the key between `Acquire` and a `Renew` that
returns without an error. -/
theorem renew_resurrects :
    ∃ s₀ s₁ s₂ s₃, Trans.exec (step (secondClocks _)) (State.init oneServer (secondClocks _))
        acquiredActs = some s₀ ∧ Returned s₀ ⟨1, 1, 1⟩ 0 ∧
      Trans.exec (step (secondClocks _)) s₀ rivalActs = some s₁ ∧
      Valid (secondClocks _) s₁ ⟨2, 1, 1⟩ 0 ∧
      Trans.exec (step (secondClocks _)) s₁ revivedActs = some s₂ ∧ Renewing s₂ ⟨1, 1, 1⟩ ∧
      step (secondClocks _) s₂ (.lease ⟨1, 1, 1⟩ (.commit false 1)) = some s₃ := by
  obtain ⟨s₀, h₀, hreturned, s₁, h₁, hv, s₂, h₂, hrenewing, s₃, h₃, -⟩ :
      ∃ s₀, Trans.exec (step (secondClocks _)) (State.init oneServer (secondClocks _)) acquiredActs =
        some s₀ ∧ Returned s₀ ⟨1, 1, 1⟩ 0 ∧
      ∃ s₁, Trans.exec (step (secondClocks _)) s₀ rivalActs = some s₁ ∧
        Valid (secondClocks _) s₁ ⟨2, 1, 1⟩ 0 ∧
      ∃ s₂, Trans.exec (step (secondClocks _)) s₁ revivedActs = some s₂ ∧ Renewing s₂ ⟨1, 1, 1⟩ ∧
      ∃ s₃, step (secondClocks _) s₂ (.lease ⟨1, 1, 1⟩ (.commit false 1)) = some s₃ ∧ True := by
    decide +kernel
  exact ⟨s₀, s₁, s₂, s₃, h₀, hreturned, h₁, hv, h₂, hrenewing, h₃⟩

end Cluster

end RedLease

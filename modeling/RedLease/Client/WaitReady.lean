import Mathlib.Data.Fintype.Card
import RedLease.Client.Quorum
import RedLease.Lib.Broadcast
import RedLease.Lib.Trans

/-!
# WaitReady

`Client.WaitReady` (`client/client.go`) beside the state changes of the replicas (`publish`, `clear`
and `markClosed` of `client/replica_conn.go`). A round samples the replicas one after the other, and
between any two steps of it any replica may change, the context of the caller may end and the client
may be closed. The changes are not restricted to those that `manage` and `Close` make.

* **`Inv.not_ready`**: a call that is blocked in its select, with no case ready, has not missed a
  change: fewer than a quorum of replicas are ready.
* **`History.after_step`**: each sample of a round was true when it was taken, in the same round.
-/

namespace RedLease.WaitReady

open Client Lib.Broadcast Lib.Trans

/-- The part of a `replicaConn` that `stateMu` guards. -/
structure Conn where
  generation : Option Nat
  closed : Bool
  deriving DecidableEq

/-- `readiness`, the first result. -/
def Conn.ready (c : Conn) : Bool := c.generation.isSome && !c.closed

/-- How a call ends: `nil`, `ctx.Err()` or `ErrClientClosed`. -/
inductive Result where
  | nil
  | ctxErr
  | clientClosed
  deriving DecidableEq

/-- Where the call stands. The list has, for each replica sampled in this round, its readiness and
its channel. -/
inductive Pc where
  /-- At the head of the loop, before `ctx.Err()`. -/
  | start
  /-- Before `c.ctx.Err()`. -/
  | ctxChecked
  /-- In the loop over the replicas, or behind it. -/
  | sampling (seen : List (Bool × Nat))
  /-- In `reflect.Select`. -/
  | blocked (seen : List (Bool × Nat))
  | returned (result : Result)
  deriving DecidableEq

/-- The connections of the replicas, the two contexts, and the call. -/
structure State (q : Quorum) where
  conns : Cells (Fin q.serverCount) Conn
  /-- `ctx.Done()` is closed. -/
  ctxDone : Bool
  /-- `c.ctx.Done()` is closed. -/
  clientDone : Bool
  pc : Pc

variable {q : Quorum}

/-- A new client, before the call. -/
def State.init (q : Quorum) : State q where
  conns := {
    value _ := ⟨none, false⟩
    changed i := i.val
    isClosed _ := false
    allocated := q.serverCount
    panicked := false }
  ctxDone := false
  clientDone := false
  pc := .start

/-- The replica is ready. -/
def State.ready (s : State q) (r : Fin q.serverCount) : Bool := (s.conns.value r).ready

/-- `publish`. -/
def publish (c : Cells (Fin q.serverCount) Conn) (r : Fin q.serverCount) (generation : Nat) :
    Cells (Fin q.serverCount) Conn :=
  if (c.value r).closed then c else c.set r { c.value r with generation := some generation }

/-- `clear`. -/
def clear (c : Cells (Fin q.serverCount) Conn) (r : Fin q.serverCount) (generation : Nat) :
    Cells (Fin q.serverCount) Conn :=
  if (c.value r).generation ≠ some generation then c
  else c.set r { c.value r with generation := none }

/-- `markClosed`. -/
def markClosed (c : Cells (Fin q.serverCount) Conn) (r : Fin q.serverCount) :
    Cells (Fin q.serverCount) Conn :=
  c.set r ⟨none, true⟩

/-- A change of a connection or of a context, or the next step of the call. -/
inductive Act (q : Quorum) where
  | publish (r : Fin q.serverCount) (generation : Nat)
  | clear (r : Fin q.serverCount) (generation : Nat)
  | markClosed (r : Fin q.serverCount)
  /-- The context of the caller ends. -/
  | cancelCtx
  /-- The client is closed. -/
  | cancelClient
  | checkCtx
  /-- The second check, after which a round of samples begins. -/
  | checkClient
  /-- `readiness` of the next replica. -/
  | readiness
  /-- `ready >= c.quorum.size()`. -/
  | decide
  /-- The select takes a case: the context, the client, or a replica. -/
  | select (chosen : Nat)
  deriving DecidableEq

/-- The case that the select takes has to be ready. -/
def select (s : State q) (seen : List (Bool × Nat)) : Nat → Option (State q)
  | 0 => if s.ctxDone then some { s with pc := .returned .ctxErr } else none
  | 1 => if s.clientDone then some { s with pc := .returned .clientClosed } else none
  | replica + 2 =>
    match seen[replica]? with
    | none => none
    | some (_, changed) => if s.conns.isClosed changed then some { s with pc := .start } else none

/-- One step of a connection, of a context or of the call. -/
def step (s : State q) : Act q → Option (State q)
  | .publish r generation => some { s with conns := publish s.conns r generation }
  | .clear r generation => some { s with conns := clear s.conns r generation }
  | .markClosed r => some { s with conns := markClosed s.conns r }
  | .cancelCtx => some { s with ctxDone := true }
  | .cancelClient => some { s with clientDone := true }
  | .checkCtx =>
    match s.pc with
    | .start => some { s with pc := if s.ctxDone then .returned .ctxErr else .ctxChecked }
    | _ => none
  | .checkClient =>
    match s.pc with
    | .ctxChecked =>
      some { s with pc := if s.clientDone then .returned .clientClosed else .sampling [] }
    | _ => none
  | .readiness =>
    match s.pc with
    | .sampling seen =>
      if h : seen.length < q.serverCount then
        some { s with
          pc := .sampling (seen ++ [(s.ready ⟨seen.length, h⟩, s.conns.changed ⟨seen.length, h⟩)]) }
      else none
    | _ => none
  | .decide =>
    match s.pc with
    | .sampling seen =>
      if seen.length = q.serverCount then
        some { s with
          pc := if q.size ≤ seen.countP (·.1) then .returned .nil else .blocked seen }
      else none
    | _ => none
  | .select chosen =>
    match s.pc with
    | .blocked seen => select s seen chosen
    | _ => none

/-! ## What a step can do -/

/-- All that a step can do. -/
inductive Step (s : State q) : Act q → State q → Prop
  /-- Something changes around the call. -/
  | outside (a : Act q) (conns : Cells (Fin q.serverCount) Conn) (ctxDone clientDone : Bool)
      (ha : a ≠ .checkClient)
      (hconns : conns = s.conns ∨ ∃ r v, conns = s.conns.set r v) :
      Step s a { s with conns, ctxDone, clientDone }
  | checked (hpc : s.pc = .start) : Step s .checkCtx { s with pc := .ctxChecked }
  | began (hpc : s.pc = .ctxChecked) : Step s .checkClient { s with pc := .sampling [] }
  | sampled (seen : List (Bool × Nat)) (h : seen.length < q.serverCount)
      (hpc : s.pc = .sampling seen) :
      Step s .readiness { s with
        pc := .sampling (seen ++ [(s.ready ⟨seen.length, h⟩, s.conns.changed ⟨seen.length, h⟩)]) }
  | succeeded (seen : List (Bool × Nat)) (hpc : s.pc = .sampling seen)
      (hlen : seen.length = q.serverCount) (hready : q.size ≤ seen.countP (·.1)) :
      Step s .decide { s with pc := .returned .nil }
  | blocked (seen : List (Bool × Nat)) (hpc : s.pc = .sampling seen)
      (hlen : seen.length = q.serverCount) (hready : seen.countP (·.1) < q.size) :
      Step s .decide { s with pc := .blocked seen }
  | woken (a : Act q) : Step s a { s with pc := .start }
  | failed (a : Act q) (result : Result) (hresult : result ≠ .nil) :
      Step s a { s with pc := .returned result }

theorem select_cases {s s' : State q} {seen : List (Bool × Nat)} {chosen : Nat}
    (h : select s seen chosen = some s') : Step s (.select chosen) s' := by
  unfold select at h
  split at h
  · split_ifs at h
    cases h
    exact .failed _ .ctxErr (by decide)
  · split_ifs at h
    cases h
    exact .failed _ .clientClosed (by decide)
  · split at h
    · cases h
    · split_ifs at h
      cases h
      exact .woken _

theorem step_cases {s s' : State q} {a : Act q} (h : step s a = some s') : Step s a s' := by
  cases a with
  | publish r generation =>
    cases h
    refine .outside _ _ _ _ (by nofun) ?_
    unfold publish
    split_ifs
    · exact Or.inl rfl
    · exact Or.inr ⟨r, _, rfl⟩
  | clear r generation =>
    cases h
    refine .outside _ _ _ _ (by nofun) ?_
    unfold clear
    split_ifs
    · exact Or.inl rfl
    · exact Or.inr ⟨r, _, rfl⟩
  | markClosed r =>
    cases h
    exact .outside _ _ _ _ (by nofun) (Or.inr ⟨r, _, rfl⟩)
  | cancelCtx | cancelClient =>
    cases h
    exact .outside _ _ _ _ (by nofun) (Or.inl rfl)
  | checkCtx =>
    simp only [step] at h
    split at h
    · rename_i hpc
      cases h
      split_ifs
      · exact .failed _ .ctxErr (by decide)
      · exact .checked hpc
    · cases h
  | checkClient =>
    simp only [step] at h
    split at h
    · rename_i hpc
      cases h
      split_ifs
      · exact .failed _ .clientClosed (by decide)
      · exact .began hpc
    · cases h
  | readiness =>
    simp only [step] at h
    split at h
    · rename_i seen hpc
      split_ifs at h with hlen
      cases h
      exact .sampled seen hlen hpc
    · cases h
  | decide =>
    simp only [step] at h
    split at h
    · rename_i seen hpc
      by_cases hlen : seen.length = q.serverCount
      · rw [if_pos hlen] at h
        cases h
        split_ifs with hready
        · exact .succeeded seen hpc hlen hready
        · exact .blocked seen hpc hlen (not_le.mp hready)
      · rw [if_neg hlen] at h
        cases h
    · cases h
  | select chosen =>
    simp only [step] at h
    split at h
    · exact select_cases h
    · cases h

/-! ## No change is missed -/

/-- What the samples of a round are worth: those whose channel is open are current. -/
def Current (s : State q) (seen : List (Bool × Nat)) : Prop :=
  ∀ r : Fin q.serverCount, ∀ e, seen[r.val]? = some e →
    ∃ conn, Conn.ready conn = e.1 ∧ Seen s.conns r conn e.2

/-- A sample whose channel is open is current, and who is blocked has not seen a quorum. -/
structure Inv (s : State q) : Prop where
  valid : Valid s.conns
  sampling : ∀ seen, s.pc = .sampling seen → seen.length ≤ q.serverCount ∧ Current s seen
  blocked : ∀ seen, s.pc = .blocked seen →
    seen.length = q.serverCount ∧ seen.countP (·.1) < q.size ∧ Current s seen

theorem Inv.init : Inv (State.init q) where
  valid := {
    isOpen _ := rfl
    made i := i.isLt
    own _ _ h := Fin.ext h
    unmade _ _ := rfl
    safe := rfl }
  sampling := by nofun
  blocked := by nofun

theorem Current.sample {s : State q} {seen : List (Bool × Nat)} (h : Current s seen)
    (hlen : seen.length < q.serverCount) : Current s (seen ++
      [(s.ready ⟨seen.length, hlen⟩, s.conns.changed ⟨seen.length, hlen⟩)]) := by
  intro r e he
  rw [List.getElem?_append] at he
  split_ifs at he with hr
  · exact h r e he
  · have hr' : r.val = seen.length := by
      obtain ⟨hlt, -⟩ := List.getElem?_eq_some_iff.mp he
      simp only [List.length_cons, List.length_nil] at hlt
      omega
    obtain rfl : r = ⟨seen.length, hlen⟩ := Fin.ext hr'
    simp only [Nat.sub_self, List.getElem?_cons_zero, Option.some.injEq] at he
    subst he
    exact ⟨_, rfl, Seen.read⟩

/-- **A change outside the call** closes the channel of the sample that it outdates. -/
theorem Current.outside {s : State q} {seen : List (Bool × Nat)} (h : Current s seen)
    {conns : Cells (Fin q.serverCount) Conn} (ctxDone clientDone : Bool)
    (hconns : conns = s.conns ∨ ∃ r v, conns = s.conns.set r v) :
    Current { s with conns, ctxDone, clientDone } seen := by
  intro r e he
  obtain ⟨conn, hready, hseen⟩ := h r e he
  refine ⟨conn, hready, ?_⟩
  obtain rfl | ⟨r', v, rfl⟩ := hconns
  · exact hseen
  · exact hseen.set

theorem Inv.after_step {s s' : State q} {a : Act q} (h : Inv s) (hs : step s a = some s') :
    Inv s' := by
  cases step_cases hs with
  | outside _ conns ctxDone clientDone _ hconns =>
    refine ⟨?_, fun seen hpc => ?_, fun seen hpc => ?_⟩
    · obtain rfl | ⟨r, v, rfl⟩ := hconns
      · exact h.valid
      · exact h.valid.set
    · obtain ⟨hlen, hcurrent⟩ := h.sampling seen hpc
      exact ⟨hlen, hcurrent.outside ctxDone clientDone hconns⟩
    · obtain ⟨hlen, hfew, hcurrent⟩ := h.blocked seen hpc
      exact ⟨hlen, hfew, hcurrent.outside ctxDone clientDone hconns⟩
  | checked hpc => exact ⟨h.valid, by nofun, by nofun⟩
  | began hpc =>
    refine ⟨h.valid, fun seen hpc' => ?_, by nofun⟩
    cases hpc'
    exact ⟨Nat.zero_le _, by nofun⟩
  | sampled seen hlen hpc =>
    refine ⟨h.valid, fun seen' hpc' => ?_, by nofun⟩
    cases hpc'
    refine ⟨?_, (h.sampling seen hpc).2.sample hlen⟩
    rw [List.length_append, List.length_singleton]
    exact hlen
  | succeeded seen hpc hlen hready => exact ⟨h.valid, by nofun, by nofun⟩
  | blocked seen hpc hlen hready =>
    refine ⟨h.valid, by nofun, fun seen' hpc' => ?_⟩
    cases hpc'
    exact ⟨hlen, hready, (h.sampling seen hpc).2⟩
  | woken | failed result hresult => exact ⟨h.valid, by nofun, by nofun⟩

/-- A list of samples has the replica as ready. -/
def sampledReady (seen : List (Bool × Nat)) (r : Fin q.serverCount) : Bool :=
  (seen[r.val]?).any fun e => e.1

theorem card_sampledReady {seen : List (Bool × Nat)} (hlen : seen.length = q.serverCount) :
    (Finset.univ.filter fun r : Fin q.serverCount => sampledReady seen r = true).card =
      seen.countP (·.1) := by
  have hlist : (List.finRange q.serverCount).map (sampledReady seen) = seen.map (·.1) := by
    refine List.ext_getElem (by simp [hlen]) fun i _ hi => ?_
    rw [List.length_map] at hi
    simp [sampledReady, List.getElem?_eq_getElem hi]
  calc (Finset.univ.filter fun r : Fin q.serverCount => sampledReady seen r = true).card
      = ((List.finRange q.serverCount).map (sampledReady seen)).countP id := by
        rw [← countP_finRange, List.countP_map]
        rfl
    _ = seen.countP (·.1) := by
        rw [hlist, List.countP_map]
        rfl

theorem sampledReady_append {seen : List (Bool × Nat)} {e : Bool × Nat} {r : Fin q.serverCount}
    (h : sampledReady (seen ++ [e]) r = true) :
    sampledReady seen r = true ∨ r.val = seen.length ∧ e.1 = true := by
  unfold sampledReady at h ⊢
  rw [List.getElem?_append] at h
  split_ifs at h with hr
  · exact Or.inl h
  · rcases Nat.eq_or_lt_of_le (not_lt.mp hr) with heq | hlt
    · refine Or.inr ⟨heq.symm, ?_⟩
      simpa [heq] using h
    · have hnone : [e][r.val - seen.length]? = none := List.getElem?_eq_none (by
        rw [List.length_singleton]
        omega)
      simp [hnone] at h

/-- No case of the select is ready. -/
def State.Asleep (s : State q) : Prop := ∀ chosen, step s (.select chosen) = none

/-- **A call that sleeps has not missed a change.** -/
theorem Inv.not_ready {s : State q} (h : Inv s) {seen : List (Bool × Nat)}
    (hpc : s.pc = .blocked seen) (hasleep : s.Asleep) :
    (Finset.univ.filter fun r => s.ready r = true).card < q.size ∧ s.ctxDone = false ∧
      s.clientDone = false := by
  obtain ⟨hlen, hfew, hcurrent⟩ := h.blocked seen hpc
  have hselect : ∀ chosen, select s seen chosen = none := fun chosen => by
    simpa only [step, hpc] using hasleep chosen
  refine ⟨?_, by simpa [select] using hselect 0, by simpa [select] using hselect 1⟩
  rw [← card_sampledReady hlen] at hfew
  refine lt_of_le_of_lt (Finset.card_le_card fun r hr => ?_) hfew
  have hlt : r.val < seen.length := hlen.symm ▸ r.isLt
  have hget := List.getElem?_eq_getElem hlt
  -- the channel of this sample is open, so the sample is the state of the replica now
  have hopen : s.conns.isClosed seen[r.val].2 = false := by
    simpa [select, hget] using hselect (r.val + 2)
  obtain ⟨conn, hready, hseen⟩ := hcurrent r _ hget
  have hnow : s.conns.value r = conn := (hseen hopen).2
  refine Finset.mem_filter.mpr ⟨Finset.mem_univ r, ?_⟩
  rw [sampledReady, hget, Option.any_some, ← hready, ← hnow]
  exact (Finset.mem_filter.mp hr).2

/-! ## The last round -/

/-- The replica is ready at some instant of the run `acts` from `s`. -/
def ReadyDuring (s : State q) (acts : List (Act q)) (r : Fin q.serverCount) : Prop :=
  ∃ before after s', acts = before ++ after ∧ exec step s before = some s' ∧ s'.ready r = true

theorem ReadyDuring.append {s : State q} {acts : List (Act q)} {r : Fin q.serverCount}
    (h : ReadyDuring s acts r) (a : Act q) : ReadyDuring s (acts ++ [a]) r := by
  obtain ⟨before, after, s', rfl, hrun, hready⟩ := h
  exact ⟨before, after ++ [a], s', by rw [List.append_assoc], hrun, hready⟩

/-- The run `acts` from `s` ends in a round whose samples so far are `seen`. -/
structure Round (acts : List (Act q)) (s : State q) (seen : List (Bool × Nat))
    (before round : List (Act q)) (s₀ : State q) : Prop where
  acts_eq : acts = before ++ .checkClient :: round
  last : .checkClient ∉ round
  begun : exec step (State.init q) (before ++ [.checkClient]) = some s₀
  run : exec step s₀ round = some s
  true_once : ∀ r, sampledReady seen r = true → ReadyDuring s₀ round r

/-- In the last round of the run, a quorum of replicas were ready, each at some instant. -/
def QuorumInLastRound (acts : List (Act q)) : Prop :=
  ∃ before round after s₀, acts = before ++ .checkClient :: (round ++ .decide :: after) ∧
    .checkClient ∉ round ++ .decide :: after ∧
    exec step (State.init q) (before ++ [.checkClient]) = some s₀ ∧
    ∃ A : Finset (Fin q.serverCount), q.size ≤ A.card ∧ ∀ r ∈ A, ReadyDuring s₀ round r

/-- How the call came to where it stands. -/
structure History (acts : List (Act q)) (s : State q) : Prop where
  sampling : ∀ seen, s.pc = .sampling seen → ∃ before round s₀, Round acts s seen before round s₀
  returned : s.pc = .returned .nil → QuorumInLastRound acts

theorem Round.append {acts before round : List (Act q)} {s s' s₀ : State q}
    {seen : List (Bool × Nat)} {a : Act q} (h : Round acts s seen before round s₀)
    (ha : a ≠ .checkClient) (hs : step s a = some s') :
    Round (acts ++ [a]) s' seen before (round ++ [a]) s₀ where
  acts_eq := by rw [h.acts_eq, List.append_assoc, List.cons_append]
  last := by
    rw [List.mem_append, List.mem_singleton]
    exact fun hmem => hmem.elim h.last fun heq => ha heq.symm
  begun := h.begun
  run := exec_append.mpr ⟨s, h.run, exec_cons.mpr ⟨s', hs, rfl⟩⟩
  true_once r hr := (h.true_once r hr).append a

theorem History.after_step {acts : List (Act q)} {s s' : State q} {a : Act q}
    (hrun : exec step (State.init q) acts = some s) (h : History acts s)
    (hs : step s a = some s') : History (acts ++ [a]) s' := by
  cases step_cases hs with
  | outside _ conns ctxDone clientDone ha hconns =>
    refine ⟨fun seen hpc => ?_, fun hpc => ?_⟩
    · obtain ⟨before, round, s₀, hround⟩ := h.sampling seen hpc
      exact ⟨before, round ++ [a], s₀, hround.append ha hs⟩
    · obtain ⟨before, round, after, s₀, rfl, hlast, hbegun, A, hA, hready⟩ := h.returned hpc
      refine ⟨before, round, after ++ [a], s₀, by simp, ?_, hbegun, A, hA, hready⟩
      rw [← List.cons_append, ← List.append_assoc, List.mem_append, List.mem_singleton]
      exact fun hmem => hmem.elim hlast fun heq => ha heq.symm
  | checked hpc => exact ⟨by nofun, by nofun⟩
  | began hpc =>
    refine ⟨fun seen hpc' => ?_, by nofun⟩
    cases hpc'
    have hbegun := exec_append.mpr ⟨s, hrun, exec_cons.mpr ⟨_, hs, exec_nil _⟩⟩
    exact ⟨acts, [], _, rfl, List.not_mem_nil, hbegun, rfl, by nofun⟩
  | sampled seen hlen hpc =>
    refine ⟨fun seen' hpc' => ?_, by nofun⟩
    cases hpc'
    obtain ⟨before, round, s₀, hround⟩ := h.sampling seen hpc
    refine ⟨before, round ++ [.readiness], s₀,
      { hround.append (by nofun) hs with true_once := fun r hr => ?_ }⟩
    rcases sampledReady_append hr with hr | ⟨hr, hnow⟩
    · exact (hround.true_once r hr).append _
    · obtain rfl : r = ⟨seen.length, hlen⟩ := Fin.ext hr
      exact ⟨round, [.readiness], s, rfl, hround.run, hnow⟩
  | succeeded seen hpc hlen hready =>
    refine ⟨by nofun, fun _ => ?_⟩
    obtain ⟨before, round, s₀, hround⟩ := h.sampling seen hpc
    refine ⟨before, round, [], s₀, by simp [hround.acts_eq], ?_, hround.begun, _,
      (card_sampledReady hlen).symm ▸ hready, fun r hr =>
        hround.true_once r (Finset.mem_filter.mp hr).2⟩
    exact (hround.append (a := .decide) (by nofun) hs).last
  | blocked seen hpc hlen hready | woken => exact ⟨by nofun, by nofun⟩
  | failed _ result hresult => exact ⟨by nofun, fun hpc => absurd (by cases hpc; rfl) hresult⟩

/-- **`WaitReady` never sleeps through readiness.** Whatever the replicas do between its steps, while
the call is blocked with no case ready, fewer than a quorum of replicas are ready and neither context
is done. When it has returned `nil`, each replica of some quorum was ready at an instant of its last
round. -/
theorem waitReady_correct {acts : List (Act q)} {s : State q}
    (hrun : exec step (State.init q) acts = some s) :
    (∀ seen, s.pc = .blocked seen → s.Asleep →
      (Finset.univ.filter fun r => s.ready r = true).card < q.size ∧ s.ctxDone = false ∧
        s.clientDone = false) ∧
    (s.pc = .returned .nil → QuorumInLastRound acts) ∧ s.conns.panicked = false := by
  have hinv : Inv s := exec_invariant (I := Inv) Inv.after_step Inv.init hrun
  have hhistory : History acts s :=
    exec_history (I := History) ⟨by nofun, by nofun⟩ History.after_step hrun
  exact ⟨fun seen hpc hasleep => hinv.not_ready hpc hasleep, hhistory.returned, hinv.valid.safe⟩

/-- One of three replicas is connected before the round, a second one after its sample. -/
def roundActs : List (Act .quorum2Of3) :=
  [.publish ⟨1, by decide⟩ 1, .checkCtx, .checkClient, .readiness, .publish ⟨0, by decide⟩ 2,
    .readiness, .readiness, .decide]

/-- The second one wakes the call, which samples again. -/
def wakeActs : List (Act .quorum2Of3) :=
  [.select 2, .checkCtx, .checkClient, .readiness, .readiness, .readiness, .decide]

/-- The second one is lost again before the next round. -/
def sleepActs : List (Act .quorum2Of3) := roundActs ++ .clear ⟨0, by decide⟩ 2 :: wakeActs

theorem waitReady_correct_roundActs :
    (∃ s, exec step (State.init .quorum2Of3) sleepActs = some s ∧
      (∃ seen, s.pc = .blocked seen) ∧ s.Asleep ∧
      (Finset.univ.filter fun r => s.ready r = true).card < 2) ∧
    ∃ s, exec step (State.init .quorum2Of3) (roundActs ++ wakeActs) = some s ∧
      s.pc = .returned .nil ∧ QuorumInLastRound (roundActs ++ wakeActs) := by
  constructor
  · obtain ⟨s, hrun, ⟨seen, hpc⟩, hasleep⟩ : ∃ s,
        exec step (State.init .quorum2Of3) sleepActs = some s ∧
        (∃ seen, s.pc = .blocked seen) ∧ s.Asleep := by
      refine ⟨_, rfl, ?_, fun chosen => ?_⟩
      · exact ⟨_, rfl⟩
      · match chosen with
        | 0 | 1 | 2 | 3 | 4 | _ + 5 => rfl
    exact ⟨s, hrun, ⟨seen, hpc⟩, hasleep, ((waitReady_correct hrun).1 seen hpc hasleep).1⟩
  · exact ⟨_, rfl, rfl, (waitReady_correct rfl).2.1 rfl⟩

end RedLease.WaitReady

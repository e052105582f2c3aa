import RedLease.Server.Steps

/-!
# Pending operations

`connectionSession.pending` counts the operations of a session that are with a shard: the one that
its reader is about to dispatch, those in the queues, and those that workers have taken. So it is zero
exactly when none is left, which is what `responsesDone` and the end of `Close` rely on.

* **`System.Pending.after_step`**: every step keeps the count, in every phase.
-/

namespace RedLease.Server

open Lib

/-- The operation that the reader has counted and not dispatched. -/
def Session.held (ss : Session) : Nat :=
  match ss.reader with
  | .dispatch _ => 1
  | _ => 0

namespace System

variable {n m : Nat} {cfg : Config} {assign : Nat → Fin n} {fb : Accessors} {s s' : System n m}

/-- A number of a session, zero if there is none. -/
def ofSession (s : System n m) (f : Session → Nat) (c : Nat) : Nat := (s.sessions c).elim 0 f

/-- The operations of connection `c` in the shards. -/
def inFlight (s : System n m) (c : Nat) : Nat :=
  ∑ i, (s.inShard i).countP fun op => op.session = c

/-- **`pending` counts the operations that have no response yet.** -/
structure Pending (s : System n m) : Prop where
  own : ∀ {c ss op}, s.sessions c = some ss → ss.reader = .phase op ∨ ss.reader = .dispatch op →
    op.session = c
  count : ∀ c, s.ofSession Session.pending c = s.ofSession Session.held c + s.inFlight c

theorem ofSession_some {f : Session → Nat} {c : Nat} {ss : Session} (hc : s.sessions c = some ss) :
    s.ofSession f c = f ss := by
  rw [ofSession, hc, Option.elim_some]

theorem ofSession_setSession (f : Session → Nat) (c c' : Nat) (ss : Session) :
    (s.setSession c ss).ofSession f c' = if c' = c then f ss else s.ofSession f c' := by
  unfold ofSession
  rw [setSession_sessions]
  by_cases h : c' = c
  · rw [if_pos h, h, Function.update_self, Option.elim_some]
  · rw [if_neg h, Function.update_of_ne h]

theorem pending_init (clock : Time) : Pending (init n m clock) where
  own h := nomatch h
  count c := by simp [ofSession, init, inFlight, inShard, State.init, Worker.operation, Worker.job]

/-- One operation, in shard `j`. -/
theorem sum_single (j : Fin n) (op : Operation) (p : Operation → Bool) :
    ∑ i, (if j = i then some op else none).toList.countP p = if p op then 1 else 0 := by
  rw [Finset.sum_eq_single j]
  · rw [if_pos rfl, Option.toList_some, List.countP_singleton]
  · intro i _ hij
    rw [if_neg (Ne.symm hij)]
    rfl
  · exact fun h => absurd (Finset.mem_univ j) h

/-- The flow of operations, counted for one connection. -/
theorem inFlight_flow {e : Event n m} (hs : step cfg assign fb s e = some s') (c : Nat) :
    s.inFlight c + ∑ i, (s.dispatched assign e i).toList.countP (fun op => op.session = c) =
      (∑ i, (s.finished e i).toList.countP fun op => op.session = c) + s'.inFlight c := by
  unfold inFlight
  rw [← Finset.sum_add_distrib, ← Finset.sum_add_distrib]
  refine Finset.sum_congr rfl fun i _ => ?_
  rw [← List.countP_append, ← List.countP_append, flow hs i]

/-- A step that moves no operation. -/
theorem inFlight_still {e : Event n m} (hs : step cfg assign fb s e = some s')
    (h : ∀ i, s.dispatched assign e i = none ∧ s.finished e i = none) (c : Nat) :
    s'.inFlight c = s.inFlight c := by
  have hflow := inFlight_flow hs c
  simp only [h, Option.toList_none, List.countP_nil, Finset.sum_const_zero, Nat.add_zero,
    Nat.zero_add] at hflow
  exact hflow.symm

/-! ## Sessions -/

theorem bind_eq_ok {ε α β : Type} {x : Except ε α} {f : α → Except ε β} {b : β}
    (h : x >>= f = .ok b) : ∃ a, x = .ok a ∧ f a = .ok b := by
  cases x with
  | error err => cases h
  | ok a => exact ⟨a, rfl, h⟩

theorem decodeLease_session {frame : List UInt8} {c : Nat} {kind : OperationKind} {op : Operation}
    (h : decodeLease fb frame c kind = .ok (.lease op)) : op.session = c := by
  unfold decodeLease at h
  obtain ⟨present, -, h⟩ := bind_eq_ok h
  split at h
  · obtain ⟨requestID, -, h⟩ := bind_eq_ok h
    obtain ⟨key, -, h⟩ := bind_eq_ok h
    obtain ⟨clientID, -, h⟩ := bind_eq_ok h
    obtain ⟨bootID, -, h⟩ := bind_eq_ok h
    obtain ⟨leaseSeq, -, h⟩ := bind_eq_ok h
    dsimp only at h
    split at h
    all_goals
      obtain ⟨requestedTTLMS, -, h⟩ := bind_eq_ok h
      cases h
      rfl
  · cases h

/-- A request decoded for connection `c` belongs to it. -/
theorem decodeRequest_session {frame : List UInt8} {c : Nat} {op : Operation}
    (h : decodeRequest fb frame c = .ok (.lease op)) : op.session = c := by
  unfold decodeRequest at h
  obtain ⟨operation, -, h⟩ := bind_eq_ok h
  split_ifs at h
  · exact decodeLease_session h
  · exact decodeLease_session h
  · exact decodeLease_session h
  · obtain ⟨requestID, -, h⟩ := bind_eq_ok h
    cases h

theorem ReaderStep.pending {phase : Phase} {c : Nat} {ss ss' : Session}
    (h : ReaderStep cfg fb phase c ss ss')
    (hown : ∀ {op}, ss.reader = .phase op → op.session = c) :
    ss'.pending = ss'.held + ss.pending ∧
      ∀ op, ss'.reader = .phase op ∨ ss'.reader = .dispatch op → op.session = c := by
  have hnone : ∀ {r : Reader}, (∀ op, r ≠ .phase op) → (∀ op, r ≠ .dispatch op) →
      ∀ op, r = .phase op ∨ r = .dispatch op → op.session = c := fun h1 h2 op hop =>
    hop.elim (fun he => absurd he (h1 op)) fun he => absurd he (h2 op)
  cases h with
  | lease frame op hr hd =>
    refine ⟨(Nat.zero_add _).symm, ?_⟩
    rintro op' (hop | hop)
    · cases hop
      exact decodeRequest_session hd
    · cases hop
  | admitted op hr hp =>
    refine ⟨Nat.add_comm .., ?_⟩
    rintro op' (hop | hop)
    · cases hop
    · cases hop
      exact hown hr
  | read frame rest hr hf | ended err h | checked frame hr hp | getTTL frame requestID hr hd
  | refused op hr hp | enqueued r hr hroom | gaveUp r hr hc =>
    exact ⟨(Nat.zero_add _).symm, hnone nofun nofun⟩

/-- What a session does on its own keeps its count. -/
theorem SessionStep.pending {phase : Phase} {c : Nat} {e : Event n m} {o : Option Session}
    {ss' : Session} (h : SessionStep cfg fb phase c e o ss')
    (hown : ∀ {ss op}, o = some ss → ss.reader = .phase op ∨ ss.reader = .dispatch op →
      op.session = c) :
    ss'.pending + o.elim 0 Session.held = ss'.held + o.elim 0 Session.pending ∧
      ∀ op, ss'.reader = .phase op ∨ ss'.reader = .dispatch op → op.session = c := by
  cases h with
  | accepted he hp =>
    exact ⟨rfl, fun op hop => hop.elim nofun nofun⟩
  | received ss bytes he | hungUp ss he | closed ss he =>
    exact ⟨Nat.add_comm .., fun op hop => hown rfl hop⟩
  | reader ss ss' he hr =>
    obtain ⟨hcount, hop⟩ := ReaderStep.pending hr fun hop => hown rfl (Or.inl hop)
    have hheld : ss.held = 0 := by
      unfold Session.held
      split
      · rename_i op hop
        exact absurd hop (hr.reader_ne_dispatch op)
      · rfl
    rw [Option.elim_some, Option.elim_some, hheld]
    exact ⟨hcount, hop⟩
  | writer ss ss' choice he hw =>
    have hsame : ss'.reader = ss.reader ∧ ss'.pending = ss.pending := by
      cases hw <;> exact ⟨rfl, rfl⟩
    have hheld : ss'.held = ss.held := by
      unfold Session.held
      rw [hsame.1]
    rw [Option.elim_some, Option.elim_some, hsame.2, hheld, hsame.1]
    exact ⟨Nat.add_comm .., fun op hop => hown rfl hop⟩

/-! ## Steps -/

/-- A step that moves no operation and leaves the sessions as they are. -/
theorem Pending.still (h : s.Pending) {e : Event n m} (hs : step cfg assign fb s e = some s')
    (hmoves : ∀ i, s.dispatched assign e i = none ∧ s.finished e i = none)
    (hsessions : s'.sessions = s.sessions) : s'.Pending where
  own hc := h.own (hsessions ▸ hc)
  count c := by
    rw [inFlight_still hs hmoves, ofSession, ofSession, hsessions]
    exact h.count c

/-- A session is set that counts the same operations. -/
theorem Pending.setSession (h : s.Pending) {c : Nat} {ss : Session}
    (hcount : ss.pending + (s.sessions c).elim 0 Session.held =
      ss.held + (s.sessions c).elim 0 Session.pending)
    (hown : ∀ op, ss.reader = .phase op ∨ ss.reader = .dispatch op → op.session = c) :
    (s.setSession c ss).Pending where
  own hc hop := by
    rcases Family.update_eq_some hc with ⟨rfl, rfl⟩ | ⟨-, hc⟩
    · exact hown _ hop
    · exact h.own hc hop
  count c' := by
    have hold := h.count c'
    have hflight : (s.setSession c ss).inFlight c' = s.inFlight c' := rfl
    rw [ofSession_setSession, ofSession_setSession, hflight]
    by_cases heq : c' = c
    · subst heq
      unfold ofSession at hold
      rw [if_pos rfl, if_pos rfl]
      omega
    · rw [if_neg heq, if_neg heq]
      exact hold

/-- A step that moves no operation and changes one session. -/
theorem Pending.local (h : s.Pending) {e : Event n m} (hs : step cfg assign fb s e = some s')
    (hmoves : ∀ i, s.dispatched assign e i = none ∧ s.finished e i = none) {c : Nat} {ss : Session}
    (hsessions : s'.sessions = Function.update s.sessions c (some ss))
    (hcount : ss.pending + (s.sessions c).elim 0 Session.held =
      ss.held + (s.sessions c).elim 0 Session.pending)
    (hown : ∀ op, ss.reader = .phase op ∨ ss.reader = .dispatch op → op.session = c) :
    s'.Pending where
  own hc hop := by
    rw [hsessions] at hc
    rcases Family.update_eq_some hc with ⟨rfl, rfl⟩ | ⟨-, hc⟩
    · exact hown _ hop
    · exact h.own hc hop
  count c' := by
    have hold := h.count c'
    unfold ofSession at hold ⊢
    rw [inFlight_still hs hmoves, hsessions]
    by_cases heq : c' = c
    · subst heq
      rw [Function.update_self, Option.elim_some, Option.elim_some]
      omega
    · rw [Function.update_of_ne heq]
      exact hold

/-- A worker is done with an operation, and its session counts it no longer. -/
theorem Pending.finish (h : s.Pending) {e : Event n m} (hs : step cfg assign fb s e = some s')
    {j : Fin n} {op : Operation} (hdispatched : ∀ i, s.dispatched assign e i = none)
    (hfinished : ∀ i, s.finished e i = if j = i then some op else none)
    (hsessions : ∀ ss, s.sessions op.session = some ss → ∃ ss', ss'.reader = ss.reader ∧
      ss'.pending = ss.pending - 1 ∧ s'.sessions = Function.update s.sessions op.session (some ss')) :
    s'.Pending := by
  have hflow : ∀ c, s.inFlight c = (if op.session = c then 1 else 0) + s'.inFlight c := by
    intro c
    have hflow := inFlight_flow hs c
    simp only [hdispatched, Option.toList_none, List.countP_nil, Finset.sum_const_zero,
      Nat.add_zero, hfinished, sum_single, decide_eq_true_eq] at hflow
    exact hflow
  have hone := hflow op.session
  rw [if_pos rfl] at hone
  cases hc : s.sessions op.session with
  | none =>
    have hcount := h.count op.session
    rw [ofSession, ofSession, hc, Option.elim_none, Option.elim_none] at hcount
    omega
  | some ss =>
    obtain ⟨ss', hreader, hpending, hss⟩ := hsessions ss hc
    have hheld : ss'.held = ss.held := by
      unfold Session.held
      rw [hreader]
    constructor
    case own =>
      intro c ss₁ op₁ hc₁ hop
      rw [hss] at hc₁
      rcases Family.update_eq_some hc₁ with ⟨rfl, rfl⟩ | ⟨-, hc₁⟩
      · rw [hreader] at hop
        exact h.own hc hop
      · exact h.own hc₁ hop
    case count =>
      intro c
      have hcount := h.count c
      have hflow := hflow c
      unfold ofSession at hcount ⊢
      rw [hss]
      by_cases heq : c = op.session
      · subst heq
        rw [hc, Option.elim_some, Option.elim_some] at hcount
        rw [Function.update_self, Option.elim_some, Option.elim_some, hheld, hpending]
        omega
      · rw [if_neg (Ne.symm heq), Nat.zero_add] at hflow
        rw [Function.update_of_ne heq, ← hflow]
        exact hcount

/-- **Every step keeps the count of pending operations.** -/
theorem Pending.after_step (h : s.Pending) {e : Event n m}
    (hs : step cfg assign fb s e = some s') : s'.Pending := by
  cases step_cases hs with
  | threads a server he ha hstep | dequeued j op rest server he hq hstep =>
    subst he
    exact h.still hs (fun _ => ⟨rfl, rfl⟩) rfl
  | checked j op he hw hp =>
    subst he
    exact h.still hs (fun i => ⟨rfl, finished_active hp i⟩) rfl
  | dropped j op he hw hp =>
    subst he
    refine h.finish hs (fun _ => rfl) (finished_check hw hp) fun ss hc => ?_
    refine ⟨{ ss with pending := ss.pending - 1 }, rfl, rfl, ?_⟩
    simp only [donePending, setServer_sessions, hc]
    rfl
  | responded j job r ss he hw hc hroom =>
    subst he
    refine h.finish hs (fun _ => rfl) (finished_respond hw) fun ss₁ hc₁ => ?_
    obtain rfl := Option.some.inj (hc.symm.trans hc₁)
    exact ⟨{ ss with respQueue := ss.respQueue ++ [r], pending := ss.pending - 1 }, rfl, rfl, rfl⟩
  | unanswered j job r ss he hw hc hd =>
    subst he
    refine h.finish hs (fun _ => rfl) (finished_respond hw) fun ss₁ hc₁ => ?_
    obtain rfl := Option.some.inj (hc.symm.trans hc₁)
    exact ⟨{ ss with pending := ss.pending - 1 }, rfl, rfl, rfl⟩
  | session c ss' server hstep hserver =>
    obtain ⟨hcount, hown⟩ := hstep.pending h.own
    exact h.local hs hstep.moves_none (by rfl) hcount hown
  | dispatched c ss op he hc hr hroom =>
    subst he
    have hown := h.own hc (Or.inr hr)
    have hone : ss.held = 1 := by rw [Session.held, hr]
    have hsessions : ∀ {s₁ : System n m}, s₁ = { s.setSession c { ss with reader := .read } with
        queues := Function.update s.queues (assign op.key) (s.queues (assign op.key) ++ [op]) } →
        s₁.sessions = Function.update s.sessions c (some { ss with reader := .read }) := by
      rintro _ rfl
      rfl
    constructor
    case own =>
      intro c' ss' op' hc' hop
      rcases Family.update_eq_some hc' with ⟨rfl, rfl⟩ | ⟨-, hc'⟩
      · exact hop.elim (by rintro ⟨⟩) (by rintro ⟨⟩)
      · exact h.own hc' hop
    case count =>
      intro c'
      have hflow := inFlight_flow hs c'
      simp only [dispatched_room hc hr hroom, sum_single, decide_eq_true_eq, finished,
        Option.toList_none, List.countP_nil, Finset.sum_const_zero, Nat.zero_add] at hflow
      have hcount := h.count c'
      unfold ofSession at hcount ⊢
      rw [hsessions rfl, ← hflow, hown]
      by_cases heq : c' = c
      · subst heq
        rw [hc, Option.elim_some, Option.elim_some, hone] at hcount
        rw [Function.update_self, Option.elim_some, Option.elim_some, if_pos rfl]
        show ss.pending = 0 + _
        omega
      · rw [Function.update_of_ne heq, if_neg (Ne.symm heq)]
        exact hcount
  | withdrawn c ss op he hc hr hfull hd =>
    subst he
    have hone : ss.held = 1 := by rw [Session.held, hr]
    have hcount := h.count c
    rw [ofSession_some hc, ofSession_some hc, hone] at hcount
    refine h.local hs (fun i => ⟨dispatched_full hc hr hfull i, rfl⟩) (by rfl) ?_ ?_
    · rw [hc, Option.elim_some, Option.elim_some, hone]
      show ss.pending - 1 + 1 = 0 + ss.pending
      omega
    · exact fun op hop => hop.elim (by rintro ⟨⟩) (by rintro ⟨⟩)

end System

end RedLease.Server

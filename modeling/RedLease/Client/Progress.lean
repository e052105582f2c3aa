import RedLease.Client.Completion

/-!
# Operations finish

An operation needs nobody's help to finish: no response, no `Close` and no canceled context. The
timer of `next` and the sends that are already under way suffice, and none of its receives can hang.

* `Inv.send_enabled`: a send on the results channel finds room.
* **`Inv.finishes`**: from every reachable state, the clock, the operation itself and the completers
  that are about to send bring the operation to its end.
* **`exactly_once`** collects the results about every reachable state.
-/

namespace RedLease.Client

variable {n : Nat} {cfg : Config} {s s' : State n} {o : Nat} {own : Owner n}

/-! ## Sends -/

/-- **A send does not block**: the channel has room for every wait of its object. -/
theorem Inv.send_enabled (h : Inv cfg s) (hn : n ≤ maxServerCount) {k : Nat} {x : Sending n}
    (hk : s.sending[k]? = some x) :
    (s.responses x.entry.operation).results.length < maxServerCount := by
  have hout := (State.send_outstanding hk).filterMap
    fun t => if t.1 = x.entry.operation then some t.2 else none
  have hlen : (s.tokens x.entry.operation).length ≤ n :=
    (h.ledger.routed _).length_eq.trans_le (waitKeys_length_le _)
  have hpos : 0 < (tokensFor x.entry.operation s.outstanding).length := by
    unfold tokensFor
    rw [hout.length_eq]
    simp [PendingEntry.token]
  rw [State.tokens, List.length_append, List.length_map] at hlen
  omega

/-! ## What is left to do -/

/-- How far the requests of object `o` are from being consumed. -/
def State.work (s : State n) (o : Nat) : Nat :=
  3 * s.pending.countP (fun e => e.operation = o) +
    2 * s.sending.countP (fun x => x.entry.operation = o) + (s.responses o).results.length

theorem State.work_move (s : State n) (o : Nat) (p : PendingEntry n → Bool) (result : CallResult)
    (completer : Completer) :
    (s.move p result completer).work o +
      s.pending.countP (fun e => e.operation = o && p e) = s.work o := by
  have hsplit : s.pending.countP (fun e => e.operation = o) =
      (s.pending.filter p).countP (fun e => e.operation = o) +
        (s.pending.filter fun e => !p e).countP (fun e => e.operation = o) := by
    rw [← List.countP_append]
    exact (List.filter_append_perm p s.pending).symm.countP_eq _
  have hsent : ((s.pending.filter p).map fun e => (⟨e, result⟩ : Sending n)).countP
      (fun x => x.entry.operation = o) = (s.pending.filter p).countP fun e => e.operation = o := by
    rw [List.countP_map]
    rfl
  have hp : (s.pending.filter p).countP (fun e => e.operation = o) =
      s.pending.countP fun e => e.operation = o && p e := List.countP_filter
  simp only [State.work, State.move, List.countP_append, hsent, hsplit]
  omega

theorem State.work_send {k : Nat} {x : Sending n} (hk : s.sending[k]? = some x)
    (hx : x.entry.operation = o) : (s.send k x).work o + 1 = s.work o := by
  subst hx
  simp only [State.work, State.send, Function.update_self, List.length_append, List.length_cons,
    List.length_nil, (State.sending_perm hk).countP_eq, List.countP_cons, decide_true, if_true]
  omega

theorem State.work_accept (r : Fin n) (todo : List (Fin n)) (now : Time) :
    (s.accept o own cfg r todo now).work o = s.work o + 3 := by
  simp only [State.work, State.accept, Function.update_self, List.countP_cons, decide_true, if_true]
  omega

/-- A wait's request is pending, or on its way, or in the channel. -/
theorem Ledger.token_cases (h : Ledger s) {r : Fin n} {wait : ReplicaWait}
    (hw : (s.responses o).waits r = some wait) :
    (∃ e ∈ s.pending, e.operation = o ∧ e.replica = r ∧ e.requestID = wait.requestID) ∨
      (∃ (k : Nat) (x : Sending n), s.sending[k]? = some x ∧ x.entry.operation = o) ∨
      (s.responses o).results ≠ [] := by
  rcases State.mem_tokens.mp (h.token_of_wait hw) with ⟨e, he, ht⟩ | ⟨x, hx, ht⟩ | ⟨x, hx, _⟩
  · simp only [PendingEntry.token, Prod.mk.injEq] at ht
    exact .inl ⟨e, he, ht⟩
  · obtain ⟨k, hk⟩ := List.getElem?_of_mem hx
    exact .inr (.inl ⟨k, x, hk, congrArg Prod.fst ht⟩)
  · exact .inr (.inr (List.ne_nil_of_mem hx))

/-! ## Progress -/

/-- The steps that need nobody's help: the clock, the operation on object `o` without a canceled
context, and the sends under way. -/
def Unaided (o : Nat) : Act n → Prop
  | .tick _ => True
  | .own o' choice => o' = o ∧ choice ∈ [Choice.go, .refuse, .timeout]
  | .send _ => True
  | _ => False

/-- `expireResponses` is about to complete a pending request of object `o`. -/
def State.Due (s : State n) (o now : Nat) (todo : List (Fin n)) : Prop :=
  ∃ r ∈ todo, ∃ wait, (s.responses o).waits r = some wait ∧ wait.responseExpiry ≤ now ∧
    ∃ e ∈ s.pending, e.operation = o ∧ e.replica = r ∧ e.requestID = wait.requestID

open scoped Classical in
/-- How far an operation is from its next request being completed, sent or consumed. -/
noncomputable def rank (s : State n) (o : Nat) : Pc n → Nat
  | .submit _ none => 2 * n + 26
  | .submit _ (some _) => 2 * n + 25
  | .check => 2 * n + 24
  | .received => 2 * n + 23
  | .loop => 2 * n + 22
  | .select => 2 * n + 20
  | .expire _ todo true => todo.length + 14
  | .expire now todo false => if s.Due o now todo then todo.length + 14 else todo.length + 3 * n + 30
  | .recv => 7
  | .abort _ todo => todo.length + 14
  | .drain => 6
  | .release => 1

/-- The requests that are still to be submitted. -/
def Pc.submitting : Pc n → Nat
  | .submit todo _ => todo.length
  | _ => 0

/-- What is left of the operation on object `o`, in lexicographic order. -/
noncomputable def remainder (o : Nat) (s : State n) : Nat × Nat :=
  match s.owners o with
  | none => (0, 0)
  | some own => (s.work o + 4 * own.pc.submitting, rank s o own.pc)

theorem remainder_eq (ho : s.owners o = some own) :
    remainder o s = (s.work o + 4 * own.pc.submitting, rank s o own.pc) := by
  simp only [remainder, ho]

theorem remainder_lt {own' : Owner n} (ho : s.owners o = some own) (ho' : s'.owners o = some own')
    (hwork : s'.work o + 4 * own'.pc.submitting ≤ s.work o + 4 * own.pc.submitting)
    (hrank : rank s' o own'.pc < rank s o own.pc) :
    Prod.Lex (· < ·) (· < ·) (remainder o s') (remainder o s) := by
  rw [remainder_eq ho, remainder_eq ho', Prod.lex_def]
  exact hwork.lt_or_eq.imp_right fun heq => ⟨heq, hrank⟩

theorem rank_due {now : Nat} {todo : List (Fin n)} (h : s.Due o now todo) :
    rank s o (.expire now todo false) = todo.length + 14 := if_pos h

theorem rank_not_due {now : Nat} {todo : List (Fin n)} (h : ¬s.Due o now todo) :
    rank s o (.expire now todo false) = todo.length + 3 * n + 30 := if_neg h

/-- A short run brings the operation on object `o` closer to its end. -/
def Progress (cfg : Config) (s : State n) (o : Nat) : Prop :=
  ∃ as s', (∀ a ∈ as, Unaided o a) ∧ Lib.Trans.exec (step cfg) s as = some s' ∧ Inv cfg s' ∧
    Prod.Lex (· < ·) (· < ·) (remainder o s') (remainder o s)

/-- Progress by a step of the operation itself. -/
theorem Inv.progress_own (h : Inv cfg s) (ho : s.owners o = some own) {choice : Choice}
    (hc : choice ∈ [Choice.go, .refuse, .timeout]) (hs : ownerStep cfg s o own choice = some s')
    (hlt : Prod.Lex (· < ·) (· < ·) (remainder o s') (remainder o s)) : Progress cfg s o := by
  have hstep : step cfg s (.own o choice) = some s' := by simp only [step, ho, hs]
  refine ⟨[.own o choice], s', fun a ha => ?_, ?_, step_inv h hstep, hlt⟩
  · obtain rfl := List.mem_singleton.mp ha
    exact ⟨rfl, hc⟩
  · rw [Lib.Trans.exec_cons]
    exact ⟨s', hstep, rfl⟩

/-- Progress by moving on. -/
theorem Inv.progress_setOwner (h : Inv cfg s) (ho : s.owners o = some own) (own' : Owner n)
    (hs : ownerStep cfg s o own .go = some (s.setOwner o own'))
    (hsub : own'.pc.submitting ≤ own.pc.submitting)
    (hrank : rank s o own'.pc < rank s o own.pc) : Progress cfg s o := by
  refine h.progress_own ho (by decide) hs ?_
  have ho' : (s.setOwner o own').owners o = some own' := Function.update_self ..
  exact remainder_lt ho ho' (Nat.add_le_add_left (Nat.mul_le_mul_left 4 hsub) _) hrank

/-- Progress by a send under way. -/
theorem Inv.progress_send (h : Inv cfg s) (hn : n ≤ maxServerCount) (ho : s.owners o = some own)
    {k : Nat} {x : Sending n} (hk : s.sending[k]? = some x) (hx : x.entry.operation = o) :
    Progress cfg s o := by
  have hstep : step cfg s (.send k) = some (s.send k x) := by
    simp only [step, hk, if_pos (h.send_enabled hn hk)]
  refine ⟨[.send k], s.send k x, fun a ha => ?_, ?_, step_inv h hstep, ?_⟩
  · obtain rfl := List.mem_singleton.mp ha
    trivial
  · rw [Lib.Trans.exec_cons]
    exact ⟨_, hstep, rfl⟩
  · have hwork := State.work_send hk hx
    have howner : (s.send k x).owners o = some own := ho
    rw [remainder_eq ho, remainder_eq howner, Prod.lex_def]
    exact .inl (by dsimp only; omega)

theorem remainder_consumed (ho : s.owners o = some own) {x : ReplicaResponse n}
    {rest : List (ReplicaResponse n)} {resp : Responses n} {pc : Pc n}
    (hx : (s.responses o).results = x :: rest) (hresp : resp.results = rest)
    (hsub : pc.submitting = 0) :
    Prod.Lex (· < ·) (· < ·) (remainder o (s.consumed o own resp x pc)) (remainder o s) := by
  have howner : (s.consumed o own resp x pc).owners o =
      some { own with pc := pc, received := own.received + 1 } := Function.update_self ..
  have hwork : (s.consumed o own resp x pc).work o + 1 = s.work o := by
    simp only [State.work, State.consumed, Function.update_self, hx, hresp, List.length_cons]
    omega
  rw [remainder_eq ho, remainder_eq howner, hsub, Prod.lex_def]
  exact .inl (by dsimp only; omega)

/-- Progress by a receive. -/
theorem Inv.progress_take (h : Inv cfg s) (ho : s.owners o = some own) {pc : Pc n}
    (hres : (s.responses o).results ≠ []) (hs : ownerStep cfg s o own .go = s.take o own pc)
    (hsub : pc.submitting = 0) : Progress cfg s o := by
  obtain ⟨x, rest, hx⟩ := List.exists_cons_of_ne_nil hres
  obtain ⟨wait, hw, hid⟩ := h.ledger.head_wait hx
  simp only [State.take, hx, Responses.consume, hw, if_pos hid] at hs
  exact h.progress_own ho (by decide) hs (remainder_consumed ho hx rfl hsub)

/-- Progress at a receive that a completed request is bound to reach. -/
theorem Inv.progress_recv (h : Inv cfg s) (hn : n ≤ maxServerCount) (ho : s.owners o = some own)
    {pc : Pc n} (hs : ownerStep cfg s o own .go = s.take o own pc) (hsub : pc.submitting = 0)
    {r : Fin n} {wait : ReplicaWait} (hw : (s.responses o).waits r = some wait)
    (hnot : ∀ e ∈ s.pending, e.operation = o → e.requestID ≠ wait.requestID) : Progress cfg s o := by
  rcases h.ledger.token_cases hw with ⟨e, he, heo, _, hid⟩ | ⟨k, x, hk, hx⟩ | hres
  · exact absurd hid (hnot e he heo)
  · exact h.progress_send hn ho hk hx
  · exact h.progress_take ho hres hs hsub

theorem State.work_complete_le (s : State n) (o : Nat) (r : Fin n) (requestID : Nat)
    (result : CallResult) (completer : Completer) :
    (s.complete r requestID result completer).work o ≤ s.work o :=
  Nat.le_of_add_right_le (s.work_move o _ result completer).le

/-- Progress by a completion, in `expireResponses` or `abort`. -/
theorem Inv.progress_complete (h : Inv cfg s) (ho : s.owners o = some own) {pc : Pc n} {r : Fin n}
    {requestID : Nat} {result : CallResult} {completer : Completer}
    (hs : ownerStep cfg s o own .go =
      some ((s.complete r requestID result completer).goto o own pc))
    (hsub : pc.submitting = 0)
    (hrank : rank (s.complete r requestID result completer) o pc < rank s o own.pc) :
    Progress cfg s o := by
  refine h.progress_own ho (by decide) hs ?_
  have ho' : ((s.complete r requestID result completer).goto o own pc).owners o =
      some { own with pc := pc } := Function.update_self ..
  have hle := s.work_complete_le o r requestID result completer
  refine remainder_lt ho ho' ?_ hrank
  dsimp only
  rw [hsub]
  exact hle.trans (Nat.le_add_right ..)

theorem Inv.progress_enterNext (h : Inv cfg s) (ho : s.owners o = some own)
    (hs : ownerStep cfg s o own .go = some (s.enterNext o own))
    (hrank : 2 * n + 20 < rank s o own.pc) : Progress cfg s o := by
  refine h.progress_own ho (by decide) hs ?_
  have howner : (s.enterNext o own).owners o = some { own with pc := .select } :=
    Function.update_self ..
  have hresults : ((s.enterNext o own).responses o).results = (s.responses o).results := by
    simp only [State.enterNext, State.goto, State.setOwner, State.setResponses,
      Function.update_self, Responses.nextTimeout]
    split_ifs <;> rfl
  have hwork : (s.enterNext o own).work o = s.work o := by
    unfold State.work
    rw [hresults]
    rfl
  exact remainder_lt ho howner (hwork.le.trans (Nat.le_add_right ..)) hrank

/-- Blocked in `next`, the operation can wait for its timer. -/
theorem Inv.progress_select (h : Inv cfg s) (hn : n ≤ maxServerCount) (ho : s.owners o = some own)
    (hpc : own.pc = .select) : Progress cfg s o := by
  have howner := h.owner o own ho
  have hpcinv := howner.pc
  simp only [PcInv, hpc] at hpcinv
  obtain ⟨hrem, _, t, base, htimer, hbase, hle⟩ := hpcinv
  obtain ⟨r₁, wait₁, hw₁⟩ := h.ledger.exists_wait hrem
  obtain ⟨_, r, wait, hw, hexp⟩ :=
    nextExpiry_attained howner.expiry_pos ⟨r₁, by rw [hw₁]; rintro ⟨⟩⟩
  rcases h.ledger.token_cases hw with ⟨e, he, heo, her, hid⟩ | ⟨k, x, hk, hx⟩ | hres
  · -- the nearest expiry is that of a pending request: wait for it
    obtain ⟨s₁, hs₁⟩ : ∃ s₁ : State n, s₁ = { s with clock := max s.clock t } := ⟨_, rfl⟩
    have htick : step cfg s (.tick (max s.clock t)) = some s₁ := by
      rw [hs₁]
      exact if_pos (le_max_left ..)
    obtain ⟨now, hnow⟩ : ∃ now, now = max s.clock t - base := ⟨_, rfl⟩
    have hfire : step cfg s₁ (.own o .timeout) =
        some (s₁.goto o own (.expire now (List.finRange n) false)) := by
      simp only [hs₁, hnow, step, ho, ownerStep, hpc, htimer, hbase, Option.getD_some,
        if_pos (le_max_right s.clock t)]
    have hdue : s.Due o now (List.finRange n) := by
      refine ⟨r, List.mem_finRange r, wait, hw, ?_, e, he, heo, her, hid⟩
      have hmax := le_max_right s.clock t
      rw [hexp, hnow]
      exact Nat.le_sub_of_add_le' (hle.trans hmax)
    refine ⟨[.tick (max s.clock t), .own o .timeout], _, fun a ha => ?_, ?_,
      step_inv (step_inv h htick) hfire, ?_⟩
    · rcases List.mem_cons.mp ha with rfl | ha
      · trivial
      · obtain rfl := List.mem_singleton.mp ha
        exact ⟨rfl, by decide⟩
    · rw [Lib.Trans.exec_cons]
      refine ⟨s₁, htick, ?_⟩
      rw [Lib.Trans.exec_cons]
      exact ⟨_, hfire, rfl⟩
    · have howner' : (s₁.goto o own (.expire now (List.finRange n) false)).owners o =
          some { own with pc := .expire now (List.finRange n) false } := Function.update_self ..
      have hwork : (s₁.goto o own (.expire now (List.finRange n) false)).work o = s.work o := by
        rw [hs₁]
        rfl
      have hdue' : (s₁.goto o own (.expire now (List.finRange n) false)).Due o now
          (List.finRange n) := by
        rw [hs₁]
        exact hdue
      refine remainder_lt ho howner' (hwork.le.trans (Nat.le_add_right ..)) ?_
      rw [hpc]
      refine (rank_due hdue').trans_lt ?_
      rw [List.length_finRange, rank]
      omega
  · exact h.progress_send hn ho hk hx
  · have hs : ownerStep cfg s o own .go = s.take o own .received := by simp only [ownerStep, hpc]
    exact h.progress_take ho hres hs rfl

theorem Inv.progress_expire (h : Inv cfg s) (ho : s.owners o = some own) {now : Nat}
    {todo : List (Fin n)} {expired : Bool} (hpc : own.pc = .expire now todo expired) :
    Progress cfg s o := by
  cases todo with
  | nil =>
    cases expired with
    | true =>
      refine h.progress_setOwner ho { own with pc := .recv } ?_ (Nat.zero_le _) ?_
      · simp only [ownerStep, hpc, State.goto]
      · simp only [rank, hpc, List.length_nil]
        omega
    | false =>
      refine h.progress_enterNext ho ?_ ?_
      · simp only [ownerStep, hpc]
      · have hnot : ¬s.Due o now [] := fun ⟨_, hr, _⟩ => by cases hr
        rw [hpc, rank_not_due hnot]
        omega
  | cons r todo =>
    have hrank : todo.length + 14 < rank s o own.pc := by
      rw [hpc]
      cases expired <;> simp only [rank, List.length_cons]
      · split_ifs <;> omega
      · omega
    -- skipping replica `r` does not skip a pending request that is due
    have hskip : (∀ wait, (s.responses o).waits r = some wait → ¬wait.responseExpiry ≤ now) →
        rank s o (.expire now todo expired) < rank s o own.pc := by
      intro hlate
      rw [hpc]
      have hdue : s.Due o now (r :: todo) ↔ s.Due o now todo := by
        constructor
        · rintro ⟨r', hr', wait, hw, hle, he⟩
          rcases List.mem_cons.mp hr' with rfl | hr'
          · exact absurd hle (hlate wait hw)
          · exact ⟨r', hr', wait, hw, hle, he⟩
        · rintro ⟨r', hr', hrest⟩
          exact ⟨r', List.mem_cons_of_mem _ hr', hrest⟩
      cases expired with
      | true => exact Nat.add_lt_add_right (Nat.lt_succ_self _) 14
      | false =>
        by_cases hd : s.Due o now todo
        · rw [rank_due hd, rank_due (hdue.mpr hd), List.length_cons]
          omega
        · rw [rank_not_due hd, rank_not_due (hd ∘ hdue.mp), List.length_cons]
          omega
    cases hw : (s.responses o).waits r with
    | none =>
      refine h.progress_setOwner ho { own with pc := .expire now todo expired } ?_
        (Nat.zero_le _) (hskip fun wait hwait => ?_)
      · simp only [ownerStep, hpc, hw, State.goto]
      · rw [hw] at hwait
        cases hwait
    | some wait =>
      by_cases hexp : wait.responseExpiry ≤ now
      · have hs : ownerStep cfg s o own .go =
            some ((s.complete r wait.requestID (.error .deadlineExceeded) .expiry).goto o own
              (.expire now todo true)) := by
          simp only [ownerStep, hpc, hw, if_pos hexp]
        exact h.progress_complete ho hs rfl hrank
      · refine h.progress_setOwner ho { own with pc := .expire now todo expired } ?_
          (Nat.zero_le _) (hskip fun wait' hwait => ?_)
        · simp only [ownerStep, hpc, hw, if_neg hexp, State.goto]
        · rw [hw] at hwait
          exact Option.some.inj hwait ▸ hexp

theorem Inv.progress_submit (h : Inv cfg s) (ho : s.owners o = some own) {todo : List (Fin n)}
    {now : Option Time} (hpc : own.pc = .submit todo now) : Progress cfg s o := by
  cases todo with
  | nil =>
    have hrank : 2 * n + 24 < rank s o own.pc := by
      rw [hpc]
      cases now <;> simp only [rank] <;> omega
    cases hk : own.kind with
    | acquire | renew =>
      refine h.progress_setOwner ho { own with pc := .check } ?_ (Nat.zero_le _) hrank
      simp only [ownerStep, hpc, hk, State.goto]
    | heal | collect =>
      refine h.progress_setOwner ho { own with pc := .loop } ?_ (Nat.zero_le _)
        (Nat.lt_trans ?_ hrank)
      · simp only [ownerStep, hpc, hk, State.goto]
      · simp only [rank]
        omega
  | cons r todo =>
    cases now with
    | none =>
      have hs : ownerStep cfg s o own .go = some (s.stamp o own r todo) := by
        simp only [ownerStep, hpc]
      refine h.progress_own ho (by decide) hs ?_
      have ho' : (s.stamp o own r todo).owners o =
          some { own with pc := .submit (r :: todo) (some s.clock) } := Function.update_self ..
      have hwork : (s.stamp o own r todo).work o = s.work o := by
        simp only [State.work, State.stamp, State.goto, State.setOwner, State.setResponses,
          Function.update_self]
      refine remainder_lt ho ho' ?_ ?_
      · rw [hwork, hpc, Pc.submitting]
        rfl
      · rw [hpc]
        simp only [rank]
        omega
    | some now =>
      by_cases hcan : s.canceled r = true
      · have hs : ownerStep cfg s o own .refuse = some (s.setOwner o
            { own with received := own.received + 1, pc := .submit todo none }) := by
          simp only [ownerStep, hpc]
        refine h.progress_own ho (by decide) hs ?_
        rw [remainder_eq ho, remainder_eq (Function.update_self ..), hpc, Prod.lex_def]
        refine .inl (Nat.add_lt_add_left ?_ _)
        simp only [Pc.submitting, List.length_cons]
        omega
      · have hnil : ¬s.nilMap r (pendingShardIndex (s.nextRequestID + 1)) = true :=
          fun hnil => hcan (h.nil_canceled _ _ hnil)
        have hs : ownerStep cfg s o own .go = some (s.accept o own cfg r todo now) := by
          simp only [ownerStep, hpc, State.submitForOperation, if_neg hcan, if_neg hnil]
        refine h.progress_own ho (by decide) hs ?_
        have ho' : (s.accept o own cfg r todo now).owners o =
            some { own with pc := .submit todo none } := Function.update_self ..
        rw [remainder_eq ho, remainder_eq ho', State.work_accept, hpc, Prod.lex_def]
        simp only [Pc.submitting, List.length_cons]
        omega

theorem Inv.progress_loop (h : Inv cfg s) (ho : s.owners o = some own) (hpc : own.pc = .loop) :
    Progress cfg s o := by
  have hpcinv := (h.owner o own ho).pc
  simp only [PcInv, hpc] at hpcinv
  have hrank : rank s o own.pc = 2 * n + 22 := by rw [hpc, rank]
  have hnext : ownerStep cfg s o own .go = some (s.enterNext o own) → Progress cfg s o :=
    fun hs => h.progress_enterNext ho hs (by omega)
  have hrelease : ownerStep cfg s o own .go = some (s.goto o own .release) → Progress cfg s o :=
    fun hs => h.progress_setOwner ho _ hs (Nat.zero_le _) (by rw [hrank]; simp only [rank]; omega)
  cases hk : own.kind with
  | acquire =>
    by_cases hlt : own.received < n
    · exact hnext (by simp only [ownerStep, hpc, hk, if_pos hlt])
    · refine h.progress_setOwner ho { own with pc := .abort .canceled (List.finRange n) } ?_
        (Nat.zero_le _) ?_
      · simp only [ownerStep, hpc, hk, if_neg hlt, State.goto]
      · rw [hrank]
        simp only [rank, List.length_finRange]
        omega
  | renew =>
    by_cases hlt : own.received < n
    · exact hnext (by simp only [ownerStep, hpc, hk, if_pos hlt])
    · have hrem : (s.responses o).remaining = 0 := by
        have := hpcinv (.inr hk)
        omega
      exact hrelease (by simp only [ownerStep, hpc, hk, if_neg hlt, State.handOff, if_pos hrem])
  | heal | collect =>
    by_cases hrem : (s.responses o).remaining = 0
    · exact hrelease (by simp only [ownerStep, hpc, hk, ne_eq, hrem, not_true, if_false])
    · exact hnext (by simp only [ownerStep, hpc, hk, ne_eq, hrem, not_false_iff, if_true])

/-- **Wherever it stands, an operation can go on.** -/
theorem Inv.progress (h : Inv cfg s) (hn : n ≤ maxServerCount) (ho : s.owners o = some own) :
    Progress cfg s o := by
  have hpcinv := (h.owner o own ho).pc
  cases hpc : own.pc with
  | submit todo now => exact h.progress_submit ho hpc
  | check =>
    refine h.progress_setOwner ho { own with pc := .loop } ?_ (Nat.zero_le _) ?_
    · simp only [ownerStep, hpc, State.goto]
    · simp only [hpc, rank]
      omega
  | loop => exact h.progress_loop ho hpc
  | select => exact h.progress_select hn ho hpc
  | expire now todo expired => exact h.progress_expire ho hpc
  | recv =>
    simp only [PcInv, hpc] at hpcinv
    obtain ⟨⟨r, wait, hw, hnot⟩, _⟩ := hpcinv
    have hs : ownerStep cfg s o own .go = s.take o own .received := by simp only [ownerStep, hpc]
    exact h.progress_recv hn ho hs rfl hw fun e he _ => hnot e he
  | received =>
    refine h.progress_setOwner ho { own with pc := .loop } ?_ (Nat.zero_le _) ?_
    · simp only [ownerStep, hpc, State.goto]
    · simp only [hpc, rank]
      omega
  | abort err todo =>
    cases todo with
    | nil =>
      refine h.progress_setOwner ho { own with pc := .drain } ?_ (Nat.zero_le _) ?_
      · simp only [ownerStep, hpc, State.goto]
      · simp only [hpc, rank]
        omega
    | cons r todo =>
      have hrank : todo.length + 14 < rank s o own.pc := by
        rw [hpc, rank, List.length_cons]
        omega
      cases hw : (s.responses o).waits r with
      | none =>
        refine h.progress_setOwner ho { own with pc := .abort err todo } ?_ (Nat.zero_le _) hrank
        simp only [ownerStep, hpc, hw, State.goto]
      | some wait =>
        have hs : ownerStep cfg s o own .go =
            some ((s.complete r wait.requestID (.error err) .abort).goto o own (.abort err todo)) := by
          simp only [ownerStep, hpc, hw]
        exact h.progress_complete ho hs rfl hrank
  | drain =>
    simp only [PcInv, hpc] at hpcinv
    by_cases hrem : (s.responses o).remaining = 0
    · refine h.progress_setOwner ho { own with pc := .release } ?_ (Nat.zero_le _) ?_
      · simp only [ownerStep, hpc, hrem, ne_eq, not_true, if_false, State.goto]
      · simp only [hpc, rank]
        omega
    · obtain ⟨r, wait, hw⟩ := h.ledger.exists_wait hrem
      have hs : ownerStep cfg s o own .go = s.take o own .drain := by
        simp only [ownerStep, hpc, ne_eq, hrem, not_false_iff, if_true]
      exact h.progress_recv hn ho hs rfl hw fun e he heo => absurd heo (hpcinv e he)
  | release =>
    obtain ⟨hput, _⟩ := h.release ho hpc
    have hs : ownerStep cfg s o own .go = some (s.put o) := by simp only [ownerStep, hpc, hput]
    refine h.progress_own ho (by decide) hs ?_
    have hnone : remainder o (s.put o) = (0, 0) := by
      simp only [remainder, State.put, Function.update_self]
    rw [hnone, remainder_eq ho, hpc, Prod.lex_def]
    simp only [rank]
    omega

/-! ## Running to the end -/

/-- What no step but the start of an operation can undo. -/
def Keeps (s s' : State n) : Prop :=
  (∀ o k, s'.number o = some k → s.number o = some k) ∧ ∀ a ∈ s.accepted, a ∈ s'.accepted

theorem Keeps.of_update {owner' : Option (Owner n)} (ho : s.owners o = some own)
    (howners : s'.owners = Function.update s.owners o owner')
    (hn : ∀ own', owner' = some own' → own'.number = own.number)
    (hacc : ∀ a ∈ s.accepted, a ∈ s'.accepted) : Keeps s s' := by
  refine ⟨fun o' k hk => ?_, hacc⟩
  unfold State.number at hk ⊢
  rw [howners] at hk
  by_cases heq : o' = o
  · subst heq
    rw [Function.update_self] at hk
    obtain ⟨own', rfl, hown'⟩ := Option.map_eq_some_iff.mp hk
    rw [ho, Option.map_some, ← hn own' rfl, hown']
  · rwa [Function.update_of_ne heq] at hk

theorem Keeps.setOwner (ho : s.owners o = some own) {own' : Owner n}
    (hn : own'.number = own.number) : Keeps s (s.setOwner o own') :=
  .of_update ho rfl (fun _ h => Option.some.inj h ▸ hn) fun _ ha => ha

theorem Keeps.handOff (ho : s.owners o = some own) : Keeps s (s.handOff o own) := by
  unfold State.handOff
  split_ifs
  · exact .setOwner ho rfl
  · exact .setOwner ho rfl

theorem Keeps.take (ho : s.owners o = some own) {pc : Pc n} (hs : s.take o own pc = some s') :
    Keeps s s' := by
  unfold State.take at hs
  split at hs
  · cases hs
  · split at hs <;> cases hs
    · exact ⟨fun _ _ hk => hk, fun _ ha => ha⟩
    · exact .of_update ho rfl (fun _ h => Option.some.inj h ▸ rfl) fun _ ha => ha

theorem ownerStep_keeps (ho : s.owners o = some own) {choice : Choice}
    (hs : ownerStep cfg s o own choice = some s') : Keeps s s' := by
  unfold ownerStep at hs
  dsimp only at hs
  split at hs
  case h_3 r todo now _ =>
    unfold State.submitForOperation at hs
    split_ifs at hs <;> cases hs
    · exact ⟨fun _ _ hk => hk, fun _ ha => ha⟩
    · exact .of_update ho rfl (fun _ h => Option.some.inj h ▸ rfl)
        fun _ ha => List.mem_cons_of_mem _ ha
  case h_8 | h_14 => exact .take ho hs
  case h_20 =>
    split_ifs at hs
    · exact .take ho hs
    · cases hs
      exact .setOwner ho rfl
  case h_21 =>
    cases hs
    unfold State.release
    split_ifs
    · exact .of_update ho rfl nofun fun _ ha => ha
    · exact ⟨fun _ _ hk => hk, fun _ ha => ha⟩
  case h_22 => cases hs
  all_goals
    repeat' split at hs
    all_goals cases hs
    all_goals first
      | exact .handOff ho
      | exact .of_update ho rfl (fun _ h => Option.some.inj h ▸ rfl) fun _ ha => ha

theorem step_keeps {a : Act n} (ha : Unaided o a) (hs : step cfg s a = some s') : Keeps s s' := by
  have hrefl : Keeps s s := ⟨fun _ _ hk => hk, fun _ ha => ha⟩
  cases a with
  | tick now =>
    simp only [step] at hs
    split_ifs at hs
    cases hs
    exact hrefl
  | own o' choice =>
    simp only [step] at hs
    split at hs
    · next own ho => exact ownerStep_keeps ho hs
    · cases hs
  | send k =>
    simp only [step] at hs
    split at hs
    · cases hs
    · split_ifs at hs
      cases hs
      exact hrefl
  | start | respond | cancel | failPending => exact ha.elim

/-- **An operation can always finish**, with nobody's help. -/
theorem Inv.finishes (h : Inv cfg s) (hn : n ≤ maxServerCount) (o : Nat) :
    ∃ as s', (∀ a ∈ as, Unaided o a) ∧ Lib.Trans.exec (step cfg) s as = some s' ∧
      Inv cfg s' ∧ s'.owners o = none := by
  refine Lib.Trans.exec_reaches (WellFounded.prod_lex Nat.lt_wfRel.wf Nat.lt_wfRel.wf)
    (remainder o) (fun s₁ h₁ => ?_) h
  cases ho : s₁.owners o with
  | none => exact .inl rfl
  | some own => exact .inr (h₁.progress hn ho)

/-- The run of one operation leaves the others' numbers alone and drops no accepted request. -/
theorem keeps_of_exec {as : List (Act n)} (has : ∀ a ∈ as, Unaided o a)
    (he : Lib.Trans.exec (step cfg) s as = some s') : Keeps s s' := by
  induction as generalizing s with
  | nil =>
    cases he
    exact ⟨fun _ _ hk => hk, fun _ ha => ha⟩
  | cons a as ih =>
    obtain ⟨s₁, hs, he⟩ := Lib.Trans.exec_cons.mp he
    have h1 := step_keeps (has a List.mem_cons_self) hs
    have h2 := ih (fun b hb => has b (List.mem_cons_of_mem _ hb)) he
    exact ⟨fun o k hk => h1.1 o k (h2.1 o k hk), fun b hb => h2.2 b (h1.2 b hb)⟩

/-- **Every accepted request can be delivered**, without a response and without `Close`. -/
theorem Inv.delivers (h : Inv cfg s) (hn : n ≤ maxServerCount) {a : Accepted n}
    (ha : a ∈ s.accepted) :
    ∃ o as s', (∀ b ∈ as, Unaided o b) ∧ Lib.Trans.exec (step cfg) s as = some s' ∧
      a.requestID ∈ s'.delivered.map Delivered.requestID := by
  rcases h.ledger.kept a ha with hd | ⟨o, _, hnum, _⟩
  · exact ⟨0, [], s, nofun, rfl, hd⟩
  obtain ⟨as, s', has, he, h', hnone⟩ := h.finishes hn o
  have hkeeps := keeps_of_exec has he
  refine ⟨o, as, s', has, he, ?_⟩
  rcases h'.ledger.kept a (hkeeps.2 a ha) with hd | ⟨o', _, hnum', _⟩
  · exact hd
  · -- only the operation that has ended bears the number
    obtain rfl := h.ledger.number_inj o' o _ (hkeeps.1 o' _ hnum') hnum
    rw [State.number, hnone] at hnum'
    cases hnum'

/-! ## The result -/

/-- Exactly-once completion, in a state. -/
structure ExactlyOnce (cfg : Config) (s : State n) : Prop where
  /-- `consume`, `release` and the writes to pending maps have not panicked. -/
  no_panic : s.panicked = false
  /-- No accepted request has been delivered twice. -/
  delivered_once : (s.delivered.map Delivered.requestID).Nodup
  /-- A delivered result went to the operation that had its request accepted. -/
  delivered_to_submitter : ∀ d ∈ s.delivered,
    ∃ a ∈ s.accepted, a.requestID = d.requestID ∧ a.number = d.number
  /-- It is the result of the one completion that removed the pending entry. -/
  removed_once : (s.removed.map Removed.requestID).Nodup
  delivered_first : ∀ d ∈ s.delivered,
    ∃ m ∈ s.removed, m.requestID = d.requestID ∧ m.result = d.result
  /-- An operation does not end before its accepted requests are delivered. -/
  undelivered : ∀ a ∈ s.accepted, a.requestID ∉ s.delivered.map Delivered.requestID →
    ∃ o own, s.owners o = some own ∧ own.number = a.number
  /-- And they can be delivered, whatever the servers and `Close` do. -/
  delivers : ∀ a ∈ s.accepted, ∃ o as s', (∀ b ∈ as, Unaided o b) ∧
    Lib.Trans.exec (step cfg) s as = some s' ∧ a.requestID ∈ s'.delivered.map Delivered.requestID
  /-- A send finds room in the channel. -/
  sends : ∀ (k : Nat) (x : Sending n), s.sending[k]? = some x →
    (s.responses x.entry.operation).results.length < maxServerCount
  overdue : ∀ m ∈ s.removed, m.result = .error .deadlineExceeded → Overdue cfg s m

/-- **Exactly-once completion.** In every state that the client reaches, whatever responses arrive,
and however expiry, abort and `Close` race with them: accepted requests are delivered once, to the
operation that submitted them, with the first completion; nothing panics and no send blocks; and a
`DeadlineExceeded` is the request's own expiry or the abort of an `Acquire` whose caller's deadline
had passed. -/
theorem exactly_once (cfg : Config) (clock : Time) (acts : List (Act cfg.quorum.serverCount))
    {s : State cfg.quorum.serverCount}
    (he : Lib.Trans.exec (step cfg) (State.init clock) acts = some s) : ExactlyOnce cfg s := by
  have h : Inv cfg s := inv_of_exec he
  have hn := cfg.quorum.serverCount_le
  exact
    { no_panic := h.no_panic
      delivered_once := h.ledger.delivered_nodup
      delivered_to_submitter := h.ledger.delivered_accepted
      removed_once := h.ledger.removed_nodup
      delivered_first := h.ledger.delivered_removed
      undelivered := fun a ha hnot => by
        rcases h.ledger.kept a ha with hd | ⟨o, _, hnum, _⟩
        · exact absurd hd hnot
        · obtain ⟨own, ho, hk⟩ := Option.map_eq_some_iff.mp hnum
          exact ⟨o, own, ho, hk⟩
      delivers := fun a ha => h.delivers hn ha
      sends := fun k x hk => h.send_enabled hn hk
      overdue := h.overdue }

/-- Three servers; a request expires after a millisecond. -/
def smallConfig : Config := ⟨.quorum2Of3, 1⟩

/-- An `Acquire` submits to three replicas, the third of which refuses. The first answers twice, the
second not at all: its request expires while its late answer and `Close` race for the entry. -/
def racingActs : List (Act 3) :=
  [.start 7 .acquire fun _ => true, .own 7 .go, .own 7 .go, .own 7 .go, .own 7 .go, .own 7 .go,
    .own 7 .refuse, .own 7 .go, .own 7 .go, .own 7 .go,
    .respond 0 ⟨1, ClientOperation.acquire, LeaseStatus.busy, 0⟩,
    .respond 0 ⟨1, ClientOperation.acquire, LeaseStatus.ok, 5000⟩, .send 0, .own 7 .go, .own 7 .go,
    .own 7 .go, .tick 1000000, .own 7 .timeout, .own 7 .go, .own 7 .go,
    .respond 1 ⟨2, ClientOperation.acquire, LeaseStatus.ok, 5000⟩, .cancel 1, .failPending 1 2,
    .own 7 .go, .own 7 .go, .send 0, .own 7 .go, .own 7 .go, .own 7 .go, .own 7 .go, .own 7 .go,
    .own 7 .go, .own 7 .go, .own 7 .go, .own 7 .go]

theorem exactly_once_racingActs :
    ∃ s, Lib.Trans.exec (step smallConfig) (State.init 0) racingActs = some s ∧
      ExactlyOnce smallConfig s ∧ s.owners 7 = none ∧
      s.delivered = [⟨2, 0, .error .deadlineExceeded⟩,
        ⟨1, 0, .response ⟨1, ClientOperation.acquire, LeaseStatus.busy, 0⟩⟩] := by
  have hrun : (Lib.Trans.exec (step smallConfig) (State.init 0) racingActs).map
      (fun s => ((s.owners 7).isNone, s.delivered)) =
      some (true, [⟨2, 0, .error .deadlineExceeded⟩,
        ⟨1, 0, .response ⟨1, ClientOperation.acquire, LeaseStatus.busy, 0⟩⟩]) := by
    decide +kernel
  obtain ⟨s, he, hs⟩ := Option.map_eq_some_iff.mp hrun
  obtain ⟨hnone, hdel⟩ := Prod.mk.inj hs
  exact ⟨s, he, exactly_once smallConfig 0 racingActs he, Option.isNone_iff_eq_none.mp hnone, hdel⟩

/-- The caller's deadline passes while `Acquire` submits: `abort` completes the pending request. -/
def expiredCallerActs : List (Act 3) :=
  [.start 0 .acquire fun _ => true, .own 0 .go, .own 0 .go, .own 0 .go, .own 0 .refuse, .own 0 .go,
    .own 0 .refuse, .own 0 .go, .own 0 (.cancel .deadlineExceeded), .own 0 .go]

/-- A `DeadlineExceeded` completion whose request has not expired. -/
theorem abort_before_expiry :
    ∃ s, Lib.Trans.exec (step smallConfig) (State.init 0) expiredCallerActs = some s ∧
      ¬∀ m ∈ s.removed, m.result = .error .deadlineExceeded → ∀ a ∈ s.accepted,
        a.requestID = m.requestID → a.now + smallConfig.responseTimeout ≤ m.clock := by
  refine ⟨_, rfl, fun h => ?_⟩
  have hle := h ⟨1, .error .deadlineExceeded, .abort, 0⟩ List.mem_cons_self rfl ⟨1, 0, 0, 0⟩
    List.mem_cons_self rfl
  exact absurd hle (by decide)

end RedLease.Client

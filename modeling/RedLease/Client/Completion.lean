import RedLease.Client.Ledger

/-!
# Every accepted request completes exactly once

What an operation may rely on at each of its program points (`PcInv`), kept by its own steps and by
everything that runs beside it (`Frame`), on top of the ledger of requests.
-/

namespace RedLease.Client

variable {n : Nat} {cfg : Config}

/-- The public calls count the responses they have received. -/
def Kind.Public (kind : Kind) : Prop := kind = .acquire ∨ kind = .renew

/-- Some wait of object `o` has lost its pending entry: its result is in the channel or on its way
there. -/
def State.Completed (s : State n) (o : Nat) : Prop :=
  ∃ r wait, (s.responses o).waits r = some wait ∧ ∀ e ∈ s.pending, e.requestID ≠ wait.requestID

/-- What holds of operation `own` at its program point. -/
def PcInv (s : State n) (o : Nat) (own : Owner n) : Prop :=
  let resp := s.responses o
  let counted := own.kind.Public → own.received + resp.remaining = n
  match own.pc with
  | .submit todo now =>
    own.kind ≠ .collect ∧ todo.Nodup ∧ (∀ r ∈ todo, resp.waits r = none) ∧
      (own.kind.Public → own.received + resp.remaining + todo.length = n) ∧
      ∀ t, now = some t → ∃ base, resp.timeBase = some base ∧ base ≤ t
  | .check => own.kind.Public ∧ counted
  | .loop => counted
  | .select =>
    resp.remaining ≠ 0 ∧ counted ∧
      ∃ t base, resp.timer = some t ∧ resp.timeBase = some base ∧ base + nextExpiry resp.waits ≤ t
  | .expire now _ expired =>
    resp.remaining ≠ 0 ∧ counted ∧ (expired = true → s.Completed o) ∧
      ∃ base, resp.timeBase = some base ∧ base + now ≤ s.clock
  | .recv => s.Completed o ∧ counted
  | .received => counted
  | .abort err todo =>
    (∀ e ∈ s.pending, e.operation = o → e.replica ∈ todo) ∧
      (err = .deadlineExceeded → (own.number, err) ∈ s.callerErrors)
  | .drain => ∀ e ∈ s.pending, e.operation ≠ o
  | .release => resp.remaining = 0

/-- What holds of an operation wherever it stands, beside its `PcInv`. -/
structure OwnerInv (cfg : Config) (s : State n) (o : Nat) (own : Owner n) : Prop where
  /-- A wait expires `responseTimeout` after the clock reading of its `submit`. -/
  timing : ∀ r wait, (s.responses o).waits r = some wait →
    cfg.responseTimeout ≤ wait.responseExpiry ∧
      ∃ a ∈ s.accepted, a.requestID = wait.requestID ∧ ∃ base, (s.responses o).timeBase = some base ∧
        base + wait.responseExpiry = a.now + cfg.responseTimeout
  base_le : ∀ base, (s.responses o).timeBase = some base → base ≤ s.clock
  timer : (s.responses o).timer ≠ none → (s.responses o).remaining ≠ 0
  pc : PcInv s o own

/-- A `DeadlineExceeded` is the request's own expiry, or the error of a caller whose context ended
before the submission loop did. -/
def Overdue (cfg : Config) (s : State n) (m : Removed) : Prop :=
  ∃ a ∈ s.accepted, a.requestID = m.requestID ∧
    (m.completer = .expiry ∧ a.now + cfg.responseTimeout ≤ m.clock ∨
      m.completer = .abort ∧ (a.number, .deadlineExceeded) ∈ s.callerErrors)

/-- **The invariant of the replica requests.** -/
structure Inv (cfg : Config) (s : State n) : Prop where
  ledger : Ledger s
  owner : ∀ o own, s.owners o = some own → OwnerInv cfg s o own
  free : ∀ o, s.owners o = none → (s.responses o).timer = none ∧ (s.responses o).timeBase = none
  nil_canceled : ∀ r j, s.nilMap r j = true → s.canceled r = true
  overdue : ∀ m ∈ s.removed, m.result = .error .deadlineExceeded → Overdue cfg s m
  no_panic : s.panicked = false

theorem inv_init (cfg : Config) (clock : Time) : Inv cfg (State.init clock : State n) where
  ledger := ledger_init clock
  owner o own h := by cases h
  free o _ := ⟨rfl, rfl⟩
  nil_canceled r j h := by cases h
  overdue := by simp [State.init]
  no_panic := rfl

/-! ## What runs beside an operation -/

/-- What a step of somebody else may do to what the operation on object `o` relies on. -/
structure Frame (s s' : State n) (o : Nat) : Prop where
  waits : (s'.responses o).waits = (s.responses o).waits
  timeBase : (s'.responses o).timeBase = (s.responses o).timeBase
  remaining : (s'.responses o).remaining = (s.responses o).remaining
  timer : (s'.responses o).timer = (s.responses o).timer
  clock : s.clock ≤ s'.clock
  accepted : ∀ a ∈ s.accepted, a ∈ s'.accepted
  callerErrors : ∀ c ∈ s.callerErrors, c ∈ s'.callerErrors
  /-- A new pending entry is another operation's, under a new request ID. -/
  pending : ∀ e ∈ s'.pending, e ∈ s.pending ∨ e.operation ≠ o ∧ s.nextRequestID < e.requestID

variable {s s' : State n} {o : Nat} {own : Owner n}

theorem Frame.of_responses (hresp : s'.responses o = s.responses o) (hclock : s.clock ≤ s'.clock)
    (hacc : s'.accepted = s.accepted) (hcall : s'.callerErrors = s.callerErrors)
    (hpend : s'.pending = s.pending) : Frame s s' o :=
  ⟨by rw [hresp], by rw [hresp], by rw [hresp], by rw [hresp], hclock, by simp [hacc],
    by simp [hcall], by simp +contextual [hpend]⟩

theorem Ledger.wait_le (h : Ledger s) {r : Fin n} {wait : ReplicaWait}
    (hw : (s.responses o).waits r = some wait) : wait.requestID ≤ s.nextRequestID := by
  obtain ⟨a, ha, hid, _⟩ := h.waited o r wait hw
  exact hid ▸ (h.accepted_le a ha).1

theorem State.Completed.frame (hl : Ledger s) (hf : Frame s s' o) (h : s.Completed o) :
    s'.Completed o := by
  obtain ⟨r, wait, hw, hp⟩ := h
  refine ⟨r, wait, hf.waits ▸ hw, fun e he => ?_⟩
  rcases hf.pending e he with he | ⟨_, hlt⟩
  · exact hp e he
  · exact ((hl.wait_le hw).trans_lt hlt).ne'

theorem PcInv.frame (hl : Ledger s) (hf : Frame s s' o) (h : PcInv s o own) : PcInv s' o own := by
  dsimp only [PcInv] at h ⊢
  rw [hf.waits, hf.timeBase, hf.remaining, hf.timer]
  cases hpc : own.pc with
  | expire now todo expired =>
    simp only [hpc] at h ⊢
    obtain ⟨hrem, hc, hexp, base, hb, hle⟩ := h
    exact ⟨hrem, hc, fun hx => (hexp hx).frame hl hf, base, hb, hle.trans hf.clock⟩
  | recv =>
    simp only [hpc] at h ⊢
    exact ⟨h.1.frame hl hf, h.2⟩
  | abort err todo =>
    simp only [hpc] at h ⊢
    refine ⟨fun e he heo => ?_, fun herr => hf.callerErrors _ (h.2 herr)⟩
    rcases hf.pending e he with he | ⟨hne, _⟩
    · exact h.1 e he heo
    · exact absurd heo hne
  | drain =>
    simp only [hpc] at h ⊢
    intro e he
    rcases hf.pending e he with he | ⟨hne, _⟩
    · exact h e he
    · exact hne
  | submit | check | loop | select | received | release =>
    simp only [hpc] at h ⊢
    exact h

theorem OwnerInv.frame (hl : Ledger s) (hf : Frame s s' o) (h : OwnerInv cfg s o own) :
    OwnerInv cfg s' o own where
  timing r wait hw := by
    rw [hf.waits] at hw
    obtain ⟨hle, a, ha, hid, hbase⟩ := h.timing r wait hw
    exact ⟨hle, a, hf.accepted a ha, hid, hf.timeBase ▸ hbase⟩
  base_le base hb := (h.base_le base (hf.timeBase ▸ hb)).trans hf.clock
  timer ht := by
    rw [hf.remaining]
    exact h.timer (hf.timer ▸ ht)
  pc := h.pc.frame hl hf

theorem Overdue.frame {m : Removed} (hacc : ∀ a ∈ s.accepted, a ∈ s'.accepted)
    (hcall : ∀ c ∈ s.callerErrors, c ∈ s'.callerErrors) (h : Overdue cfg s m) :
    Overdue cfg s' m := by
  obtain ⟨a, ha, hid, hwhy⟩ := h
  exact ⟨a, hacc a ha, hid, hwhy.imp_right fun hab => ⟨hab.1, hcall _ hab.2⟩⟩

/-! ## The steps of an operation -/

/-- A step of the operation on object `o`, in general. -/
theorem Inv.replace (h : Inv cfg s) (owner' : Option (Owner n)) (hl : Ledger s')
    (howners : s'.owners = Function.update s.owners o owner')
    (hframe : ∀ o', o' ≠ o → Frame s s' o')
    (howner : ∀ own', owner' = some own' → OwnerInv cfg s' o own')
    (hfree : owner' = none → (s'.responses o).timer = none ∧ (s'.responses o).timeBase = none)
    (hnil : s'.nilMap = s.nilMap) (hcan : s'.canceled = s.canceled)
    (hover : ∀ m ∈ s'.removed, m.result = .error .deadlineExceeded → Overdue cfg s' m)
    (hpanic : s'.panicked = s.panicked) : Inv cfg s' where
  ledger := hl
  owner o' own' ho' := by
    rw [howners] at ho'
    by_cases heq : o' = o
    · subst heq
      rw [Function.update_self] at ho'
      exact howner own' ho'
    · rw [Function.update_of_ne heq] at ho'
      exact (h.owner o' own' ho').frame h.ledger (hframe o' heq)
  free o' ho' := by
    rw [howners] at ho'
    by_cases heq : o' = o
    · subst heq
      rw [Function.update_self] at ho'
      exact hfree ho'
    · rw [Function.update_of_ne heq] at ho'
      rw [(hframe o' heq).timer, (hframe o' heq).timeBase]
      exact h.free o' ho'
  nil_canceled := by
    rw [hnil, hcan]
    exact h.nil_canceled
  overdue := hover
  no_panic := hpanic.trans h.no_panic

/-- A step of the operation that changes only its own record, its timer or its time base. -/
theorem Inv.control (h : Inv cfg s) (ho : s.owners o = some own) (own' : Owner n)
    (resp : Responses n) (hn : own'.number = own.number)
    (hres : resp.results = (s.responses o).results) (hw : resp.waits = (s.responses o).waits)
    (hrem : resp.remaining = (s.responses o).remaining)
    (howner : OwnerInv cfg ((s.setResponses o resp).setOwner o own') o own') :
    Inv cfg ((s.setResponses o resp).setOwner o own') := by
  have hfield : ∀ o', ((s.setResponses o resp).responses o').results = (s.responses o').results ∧
      ((s.setResponses o resp).responses o').waits = (s.responses o').waits ∧
      ((s.setResponses o resp).responses o').remaining = (s.responses o').remaining := by
    intro o'
    by_cases heq : o' = o
    · subst heq
      simp only [State.setResponses, Function.update_self, hres, hw, hrem, and_self]
    · simp only [State.setResponses, Function.update_of_ne heq, and_self]
  have hl : Ledger ((s.setResponses o resp).setOwner o own') :=
    h.ledger.congr ⟨rfl, rfl, fun o' => (hfield o').1, fun o' => (hfield o').2.1,
      fun o' => (hfield o').2.2, rfl, rfl, rfl, rfl⟩ (State.number_update ho own' hn) rfl
  refine h.replace (some own') hl rfl (fun o' heq => ?_) (fun _ heq => ?_) (fun heq => ?_) rfl rfl
    h.overdue rfl
  · exact .of_responses (Function.update_of_ne heq ..) (le_refl _) rfl rfl rfl
  · cases heq
    exact howner
  · cases heq

theorem State.setResponses_self (s : State n) (o : Nat) : s.setResponses o (s.responses o) = s := by
  rw [setResponses, Function.update_eq_self]

/-- The operation moves on without touching anything else. -/
theorem Inv.setOwner (h : Inv cfg s) (ho : s.owners o = some own) {own' : Owner n}
    (hn : own'.number = own.number) (hpc : PcInv s o own') : Inv cfg (s.setOwner o own') := by
  have howner := h.owner o own ho
  have hcontrol := h.control ho own' (s.responses o) hn rfl rfl rfl
  rw [s.setResponses_self] at hcontrol
  exact hcontrol ⟨howner.timing, howner.base_le, howner.timer, hpc⟩

/-- One iteration of `nextTimeout`. -/
def nearer (waits : Fin n → Option ReplicaWait) (next : Nat) (r : Fin n) : Nat :=
  match waits r with
  | some wait => if next = 0 ∨ wait.responseExpiry < next then wait.responseExpiry else next
  | none => next

theorem nearer_cases (waits : Fin n → Option ReplicaWait) (next : Nat) (r : Fin n) :
    nearer waits next r = next ∧ (waits r ≠ none → next ≠ 0) ∨
      ∃ wait, waits r = some wait ∧ wait.responseExpiry = nearer waits next r := by
  unfold nearer
  cases hw : waits r with
  | none => exact .inl ⟨rfl, fun h => absurd rfl h⟩
  | some wait =>
    dsimp only
    split_ifs with h
    · exact .inr ⟨wait, rfl, rfl⟩
    · exact .inl ⟨rfl, fun _ h0 => h (.inl h0)⟩

theorem foldl_nearer {waits : Fin n → Option ReplicaWait}
    (hpos : ∀ r wait, waits r = some wait → 0 < wait.responseExpiry) (l : List (Fin n)) (next : Nat) :
    (next ≠ 0 ∨ ∃ r ∈ l, waits r ≠ none) →
      l.foldl (nearer waits) next ≠ 0 ∧ (l.foldl (nearer waits) next = next ∨
        ∃ r wait, waits r = some wait ∧ wait.responseExpiry = l.foldl (nearer waits) next) := by
  induction l generalizing next with
  | nil =>
    rintro (h | ⟨r, hr, _⟩)
    · exact ⟨h, .inl rfl⟩
    · cases hr
  | cons r l ih =>
    intro h
    rw [List.foldl_cons]
    rcases nearer_cases waits next r with ⟨heq, hne⟩ | ⟨wait, hw, heq⟩
    · rw [heq]
      refine ih next ?_
      rcases h with h | ⟨r', hr', hw'⟩
      · exact .inl h
      · rcases List.mem_cons.mp hr' with rfl | hr'
        · exact .inl (hne hw')
        · exact .inr ⟨r', hr', hw'⟩
    · have hnz : nearer waits next r ≠ 0 := heq ▸ (hpos r wait hw).ne'
      obtain ⟨h1, h2 | h2⟩ := ih _ (.inl hnz)
      · exact ⟨h1, .inr ⟨r, wait, hw, heq.trans h2.symm⟩⟩
      · exact ⟨h1, .inr h2⟩

/-- With a wait outstanding, `nextTimeout` finds the expiry of one. -/
theorem nextExpiry_attained {waits : Fin n → Option ReplicaWait}
    (hpos : ∀ r wait, waits r = some wait → 0 < wait.responseExpiry)
    (hsome : ∃ r, waits r ≠ none) :
    nextExpiry waits ≠ 0 ∧
      ∃ r wait, waits r = some wait ∧ wait.responseExpiry = nextExpiry waits := by
  obtain ⟨r, hr⟩ := hsome
  have hfold : nextExpiry waits = (List.finRange n).foldl (nearer waits) 0 := rfl
  obtain ⟨h1, h2⟩ := foldl_nearer hpos (List.finRange n) 0 (.inr ⟨r, List.mem_finRange r, hr⟩)
  rw [← hfold] at h1 h2
  rcases h2 with h2 | h2
  · exact absurd h2 h1
  · exact ⟨h1, h2⟩

theorem Ledger.exists_wait (h : Ledger s) (hrem : (s.responses o).remaining ≠ 0) :
    ∃ r wait, (s.responses o).waits r = some wait := by
  by_contra hnone
  refine hrem ?_
  rw [h.remaining, List.length_eq_zero_iff, List.eq_nil_iff_forall_not_mem]
  rintro ⟨r, id⟩ hmem
  obtain ⟨wait, hw, _⟩ := mem_waitKeys.mp hmem
  exact hnone ⟨r, wait, hw⟩

/-- The waits of an operation expire after its time base. -/
theorem OwnerInv.expiry_pos (h : OwnerInv cfg s o own) (r : Fin n) (wait : ReplicaWait)
    (hw : (s.responses o).waits r = some wait) : 0 < wait.responseExpiry :=
  cfg.responseTimeout_pos.trans_le (h.timing r wait hw).1

/-- `next` starts with an armed timer. -/
theorem Inv.enterNext (h : Inv cfg s) (ho : s.owners o = some own)
    (hrem : (s.responses o).remaining ≠ 0)
    (hcount : own.kind.Public → own.received + (s.responses o).remaining = n) :
    Inv cfg (s.enterNext o own) := by
  have howner := h.owner o own ho
  obtain ⟨r, wait, hw⟩ := h.ledger.exists_wait hrem
  obtain ⟨_, _, _, _, base, hbase, _⟩ := howner.timing r wait hw
  have hnext := (nextExpiry_attained howner.expiry_pos ⟨r, by rw [hw]; exact nofun⟩).1
  have hresp : (s.responses o).nextTimeout s.clock =
      { s.responses o with
        timer := some (max (base + nextExpiry (s.responses o).waits) s.clock) } := by
    simp only [Responses.nextTimeout, if_neg hnext, hbase, Option.getD_some]
  unfold State.enterNext State.goto
  rw [hresp]
  refine h.control ho _ _ rfl rfl rfl rfl ⟨?_, ?_, ?_, ?_⟩
  · simpa only [State.setOwner, State.setResponses, Function.update_self] using howner.timing
  · simpa only [State.setOwner, State.setResponses, Function.update_self] using howner.base_le
  · simpa only [State.setOwner, State.setResponses, Function.update_self] using fun _ => hrem
  · simp only [PcInv, State.setOwner, State.setResponses, Function.update_self]
    exact ⟨hrem, hcount, _, base, rfl, hbase, le_max_left ..⟩

theorem Inv.handOff (h : Inv cfg s) (ho : s.owners o = some own) : Inv cfg (s.handOff o own) := by
  unfold State.handOff
  split_ifs with hrem
  · exact h.setOwner ho rfl hrem
  · refine h.setOwner ho rfl ?_
    rintro (hk | hk) <;> cases hk

theorem Inv.stamp (h : Inv cfg s) (ho : s.owners o = some own) {r : Fin n} {todo : List (Fin n)}
    {now : Option Time} (hpc : own.pc = .submit (r :: todo) now) :
    Inv cfg (s.stamp o own r todo) := by
  have howner := h.owner o own ho
  have hpcinv := howner.pc
  simp only [PcInv, hpc] at hpcinv
  obtain ⟨hkind, hnodup, hnone, hcount, _⟩ := hpcinv
  refine h.control ho _ _ rfl rfl rfl rfl ⟨?_, ?_, ?_, ?_⟩
  · simp only [State.setOwner, State.setResponses, Function.update_self]
    intro r' wait hw
    obtain ⟨hle, a, ha, hid, base, hbase, hexp⟩ := howner.timing r' wait hw
    exact ⟨hle, a, ha, hid, base, by rw [hbase]; rfl, hexp⟩
  · simp only [State.setOwner, State.setResponses, Function.update_self]
    rintro base hbase
    cases htb : (s.responses o).timeBase with
    | none =>
      rw [htb] at hbase
      exact (Option.some.inj hbase).ge
    | some b =>
      rw [htb] at hbase
      exact howner.base_le base (htb.trans hbase)
  · simpa only [State.setOwner, State.setResponses, Function.update_self] using howner.timer
  · simp only [PcInv, State.setOwner, State.setResponses, Function.update_self]
    refine ⟨hkind, hnodup, hnone, hcount, fun t ht => ⟨_, rfl, ?_⟩⟩
    obtain rfl := Option.some.inj ht
    cases htb : (s.responses o).timeBase with
    | none => exact le_refl _
    | some b => exact howner.base_le b htb

theorem Inv.accept (h : Inv cfg s) (ho : s.owners o = some own) {r : Fin n} {todo : List (Fin n)}
    {now : Time} (hpc : own.pc = .submit (r :: todo) (some now)) :
    Inv cfg (s.accept o own cfg r todo now) := by
  have howner := h.owner o own ho
  have hpcinv := howner.pc
  simp only [PcInv, hpc] at hpcinv
  obtain ⟨hkind, hnodup, hnone, hcount, hnow⟩ := hpcinv
  obtain ⟨base, hbase, hle⟩ := hnow now rfl
  obtain ⟨hr, hnodup⟩ := List.nodup_cons.mp hnodup
  have hacc : ∀ a ∈ s.accepted, a ∈ (s.accept o own cfg r todo now).accepted :=
    fun a ha => List.mem_cons_of_mem _ ha
  refine h.replace _ (h.ledger.accept cfg todo now ho (hnone r List.mem_cons_self)) rfl
    (fun o' heq => ?_) (fun own' hown' => ?_) (by rintro ⟨⟩) rfl rfl
    (fun m hm hres => (h.overdue m hm hres).frame hacc fun _ hc => hc) rfl
  · have hsame : (s.accept o own cfg r todo now).responses o' = s.responses o' :=
      Function.update_of_ne heq ..
    refine ⟨by rw [hsame], by rw [hsame], by rw [hsame], by rw [hsame], le_refl _, hacc,
      fun _ hc => hc, fun e he => ?_⟩
    rcases List.mem_cons.mp he with rfl | he
    · exact .inr ⟨Ne.symm heq, Nat.lt_succ_self _⟩
    · exact .inl he
  · obtain rfl := Option.some.inj hown'
    refine ⟨?_, ?_, ?_, ?_⟩
    · simp only [State.accept, Function.update_self]
      intro r' wait hw
      by_cases hr' : r' = r
      · subst hr'
        rw [Function.update_self] at hw
        obtain rfl := Option.some.inj hw
        refine ⟨Nat.le_add_left .., ⟨s.nextRequestID + 1, r', own.number, now⟩,
          List.mem_cons_self, rfl, base, hbase, ?_⟩
        rw [Responses.newWait, hbase, Option.getD_some, ← Nat.add_assoc, Nat.add_sub_cancel' hle]
      · rw [Function.update_of_ne hr'] at hw
        obtain ⟨hle', a, ha, hid⟩ := howner.timing r' wait hw
        exact ⟨hle', a, hacc a ha, hid⟩
    · simpa only [State.accept, Function.update_self] using howner.base_le
    · simp only [State.accept, Function.update_self]
      exact fun _ => Nat.succ_ne_zero _
    · simp only [PcInv, State.accept, Function.update_self]
      refine ⟨hkind, hnodup, fun r' hr' => ?_, fun hp => ?_, by rintro _ ⟨⟩⟩
      · have hne : r' ≠ r := fun heq => hr (heq ▸ hr')
        rw [Function.update_of_ne hne]
        exact hnone r' (List.mem_cons_of_mem _ hr')
      · have := hcount hp
        rw [List.length_cons] at this
        omega

/-- A removal of pending entries, by anybody. -/
theorem Inv.move (h : Inv cfg s) (p : PendingEntry n → Bool) (result : CallResult)
    (completer : Completer)
    (hover : ∀ e ∈ s.pending, p e = true → result = .error .deadlineExceeded →
      Overdue cfg s ⟨e.requestID, result, completer, s.clock⟩) :
    Inv cfg (s.move p result completer) where
  ledger := h.ledger.move p result completer
  owner o own ho := (h.owner o own ho).frame h.ledger
    ⟨rfl, rfl, rfl, rfl, le_refl _, fun _ ha => ha, fun _ hc => hc,
      fun _ he => .inl (List.mem_filter.mp he).1⟩
  free := h.free
  nil_canceled := h.nil_canceled
  overdue m hm hres := by
    rcases List.mem_append.mp hm with hm | hm
    · obtain ⟨e, he, rfl⟩ := List.mem_map.mp hm
      exact hover e (List.mem_filter.mp he).1 (List.mem_filter.mp he).2 hres
    · exact h.overdue m hm hres
  no_panic := h.no_panic

/-- After `complete` for a wait, the wait has no pending entry. -/
theorem Ledger.completed (h : Ledger s) {r : Fin n} {wait : ReplicaWait}
    (hw : (s.responses o).waits r = some wait) (result : CallResult) (completer : Completer) :
    ∀ e ∈ (s.complete r wait.requestID result completer).pending,
      e.requestID ≠ wait.requestID := by
  intro e he hid
  obtain ⟨hmem, hnot⟩ := List.mem_filter.mp he
  obtain ⟨wait', hw', hid'⟩ := h.wait_of_token (State.mem_tokens.mpr (.inl ⟨e, hmem, rfl⟩))
  obtain ⟨_, hr⟩ := h.wait_unique hw' hw (hid'.trans hid)
  simp [hr, hid] at hnot

/-- **`consume` does not panic**: the channel holds only results that are waited for. -/
theorem Inv.take (h : Inv cfg s) (ho : s.owners o = some own) {pc : Pc n}
    (hs : s.take o own pc = some s')
    (hpc : ∀ resp : Responses n, resp.remaining + 1 = (s.responses o).remaining →
      PcInv (s.setResponses o resp) o { own with pc := pc, received := own.received + 1 }) :
    Inv cfg s' := by
  have howner := h.owner o own ho
  cases hx : (s.responses o).results with
  | nil => simp only [State.take, hx, reduceCtorEq] at hs
  | cons x rest =>
    obtain ⟨wait, hwait, hid⟩ := h.ledger.head_wait hx
    have hpos : (s.responses o).remaining ≠ 0 := by
      rw [h.ledger.remaining, (waitKeys_clear hwait).length_eq]
      exact Nat.succ_ne_zero _
    simp only [State.take, hx, Responses.consume, hwait, if_pos hid, Option.some.injEq] at hs
    subst hs
    refine h.replace _ (h.ledger.consumed pc ho hx hwait hid rfl rfl rfl) rfl (fun o' heq => ?_)
      (fun own' hown' => ?_) nofun rfl rfl h.overdue rfl
    · exact .of_responses (Function.update_of_ne heq ..) (le_refl _) rfl rfl rfl
    · obtain rfl := Option.some.inj hown'
      refine ⟨?_, ?_, ?_, hpc _ (Nat.sub_add_cancel (Nat.pos_of_ne_zero hpos))⟩
      · simp only [State.consumed, Function.update_self]
        intro r wait' hw
        by_cases hr : r = x.replica
        · subst hr
          rw [Function.update_self] at hw
          cases hw
        · rw [Function.update_of_ne hr] at hw
          exact howner.timing r wait' hw
      · simpa only [State.consumed, Function.update_self] using howner.base_le
      · simp only [State.consumed, Function.update_self]
        intro ht hzero
        rw [if_pos hzero] at ht
        exact ht rfl

/-- **`release` does not panic**: without a wait there is neither a result nor a timer. -/
theorem Inv.release (h : Inv cfg s) (ho : s.owners o = some own) (hpc : own.pc = .release) :
    s.release o = s.put o ∧ Inv cfg (s.put o) := by
  have howner := h.owner o own ho
  have hrem : (s.responses o).remaining = 0 := by
    have := howner.pc
    simpa only [PcInv, hpc] using this
  have hresults : (s.responses o).results = [] := by
    have hlen := (h.ledger.routed o).length_eq
    rw [← h.ledger.remaining, hrem, State.tokens, List.length_append, List.length_map] at hlen
    exact List.length_eq_zero_iff.mp (Nat.eq_zero_of_add_eq_zero_left hlen)
  have htimer : (s.responses o).timer = none := by
    by_contra ht
    exact howner.timer ht hrem
  refine ⟨if_pos ⟨hrem, hresults, htimer⟩, ?_⟩
  refine h.replace none (h.ledger.put hrem) rfl (fun o' heq => ?_) (by rintro _ ⟨⟩)
    (fun _ => ?_) rfl rfl
    h.overdue rfl
  · exact .of_responses (Function.update_of_ne heq ..) (le_refl _) rfl rfl rfl
  · simp only [State.put, Function.update_self]
    exact ⟨htimer, trivial⟩

/-- Entering `abort`, with an error that is not the caller's. -/
theorem Inv.abort (h : Inv cfg s) (ho : s.owners o = some own) :
    Inv cfg (s.goto o own (.abort .canceled (List.finRange n))) :=
  h.setOwner ho rfl ⟨fun _ _ _ => List.mem_finRange _, nofun⟩

theorem Inv.callerCanceled (h : Inv cfg s) (ho : s.owners o = some own) (err : CallError) :
    Inv cfg (s.callerCanceled o own err) := by
  have hcall : ∀ c ∈ s.callerErrors, c ∈ (s.callerCanceled o own err).callerErrors :=
    fun _ hc => List.mem_cons_of_mem _ hc
  have howner := h.owner o own ho
  have hl : Ledger (s.callerCanceled o own err) :=
    h.ledger.congr (.of_responses rfl rfl rfl rfl rfl rfl rfl)
      (State.number_update ho { own with pc := .abort err (List.finRange n) } rfl) rfl
  refine h.replace _ hl rfl (fun o' _ => ?_) (fun own' hown' => ?_) nofun rfl rfl
    (fun m hm hres => Overdue.frame (s := s) (fun _ ha => ha) hcall (h.overdue m hm hres)) rfl
  · exact ⟨rfl, rfl, rfl, rfl, le_refl _, fun _ ha => ha, hcall, fun _ he => .inl he⟩
  · obtain rfl := Option.some.inj hown'
    refine ⟨howner.timing, howner.base_le, howner.timer, fun _ _ _ => List.mem_finRange _, ?_⟩
    exact fun _ => List.mem_cons_self

/-- One completion of `expireResponses`. -/
theorem Inv.expire (h : Inv cfg s) (ho : s.owners o = some own) {now : Nat} {r : Fin n}
    {todo : List (Fin n)} {expired : Bool} {wait : ReplicaWait}
    (hpc : own.pc = .expire now (r :: todo) expired) (hw : (s.responses o).waits r = some wait)
    (hexp : wait.responseExpiry ≤ now) :
    Inv cfg ((s.complete r wait.requestID (.error .deadlineExceeded) .expiry).goto o own
      (.expire now todo true)) := by
  have howner := h.owner o own ho
  have hpcinv := howner.pc
  simp only [PcInv, hpc] at hpcinv
  obtain ⟨hrem, hcount, _, base, hbase, hle⟩ := hpcinv
  obtain ⟨_, a, ha, hid, base', hbase', htime⟩ := howner.timing r wait hw
  obtain rfl : base = base' := Option.some.inj (hbase.symm.trans hbase')
  have hmove : Inv cfg (s.complete r wait.requestID (.error .deadlineExceeded) .expiry) := by
    refine h.move _ _ _ fun e _ hp _ => ⟨a, ha, ?_, .inl ⟨rfl, ?_⟩⟩
    · simp only [Bool.and_eq_true, decide_eq_true_eq] at hp
      exact hid.trans hp.2.symm
    · exact htime ▸ (Nat.add_le_add_left hexp base).trans hle
  refine hmove.setOwner ho rfl ⟨hrem, hcount, fun _ => ?_, base, hbase, hle⟩
  exact ⟨r, wait, hw, h.ledger.completed hw _ _⟩

/-- One completion of `abort`. -/
theorem Inv.abortOne (h : Inv cfg s) (ho : s.owners o = some own) {err : CallError} {r : Fin n}
    {todo : List (Fin n)} {wait : ReplicaWait} (hpc : own.pc = .abort err (r :: todo))
    (hw : (s.responses o).waits r = some wait) :
    Inv cfg ((s.complete r wait.requestID (.error err) .abort).goto o own (.abort err todo)) := by
  have howner := h.owner o own ho
  have hpcinv := howner.pc
  simp only [PcInv, hpc] at hpcinv
  obtain ⟨hpend, herr⟩ := hpcinv
  have hmove : Inv cfg (s.complete r wait.requestID (.error err) .abort) := by
    refine h.move _ _ _ fun e _ hp hres => ?_
    obtain ⟨a, ha, hid, _, hnum⟩ := h.ledger.waited o r wait hw
    have hown : own.number = a.number := by
      rw [State.number, ho] at hnum
      exact Option.some.inj hnum
    have herr' : err = .deadlineExceeded := CallResult.error.inj hres
    simp only [Bool.and_eq_true, decide_eq_true_eq] at hp
    refine ⟨a, ha, hid.trans hp.2.symm, .inr ⟨rfl, ?_⟩⟩
    have hmem := herr herr'
    rwa [herr', hown] at hmem
  refine hmove.setOwner ho rfl ⟨fun e he heo => ?_, herr⟩
  have hmem := (List.mem_filter.mp he).1
  rcases List.mem_cons.mp (hpend e hmem heo) with hr | hr
  · -- an entry for this replica would be the one that was just completed
    obtain ⟨wait', hw', hid'⟩ :=
      h.ledger.wait_of_token (State.mem_tokens.mpr (.inl ⟨e, hmem, rfl⟩))
    rw [heo, hr, hw] at hw'
    obtain rfl := Option.some.inj hw'
    exact absurd hid'.symm (h.ledger.completed hw _ _ e he)
  · exact hr

/-- **Every step of an operation keeps the invariant.** -/
theorem ownerStep_inv (h : Inv cfg s) (ho : s.owners o = some own) {choice : Choice}
    (hs : ownerStep cfg s o own choice = some s') : Inv cfg s' := by
  have hpcinv := (h.owner o own ho).pc
  unfold ownerStep at hs
  dsimp only at hs
  split at hs <;> rename_i hpc
  case h_1 =>
    simp only [PcInv, hpc, List.length_nil, Nat.add_zero] at hpcinv
    obtain ⟨hkind, _, _, hcount, _⟩ := hpcinv
    cases hk : own.kind <;> simp only [hk, Option.some.injEq] at hs <;> subst hs
    · exact h.setOwner ho rfl ⟨.inl hk, hcount⟩
    · exact h.setOwner ho rfl ⟨.inr hk, hcount⟩
    · exact h.setOwner ho rfl hcount
    · exact absurd hk hkind
  case h_2 =>
    cases hs
    exact h.stamp ho hpc
  case h_3 r todo now =>
    unfold State.submitForOperation at hs
    split_ifs at hs with hcan hnil
    · exact absurd (h.nil_canceled _ _ hnil) hcan
    · cases hs
      exact h.accept ho hpc
  case h_4 r todo now =>
    cases hs
    simp only [PcInv, hpc] at hpcinv
    obtain ⟨hkind, hnodup, hnone, hcount, _⟩ := hpcinv
    refine h.setOwner ho rfl ⟨hkind, (List.nodup_cons.mp hnodup).2,
      fun r' hr' => hnone r' (List.mem_cons_of_mem _ hr'), fun hp => ?_, nofun⟩
    have := hcount hp
    rw [List.length_cons] at this
    dsimp only
    omega
  case h_5 =>
    cases hs
    simp only [PcInv, hpc] at hpcinv
    exact h.setOwner ho rfl hpcinv.2
  case h_6 err =>
    split at hs
    · cases hs
      exact h.callerCanceled ho err
    · cases hs
      exact h.handOff ho
  case h_7 =>
    simp only [PcInv, hpc] at hpcinv
    have hopen : own.kind.Public → own.received < n → (s.responses o).remaining ≠ 0 :=
      fun hp hlt => by have := hpcinv hp; omega
    split at hs
    · next hk =>
      split_ifs at hs with hlt <;> cases hs
      · exact h.enterNext ho (hopen (.inl hk) hlt) hpcinv
      · exact h.abort ho
    · next hk =>
      split_ifs at hs with hlt <;> cases hs
      · exact h.enterNext ho (hopen (.inr hk) hlt) hpcinv
      · exact h.handOff ho
    · split_ifs at hs with hrem <;> cases hs
      · exact h.enterNext ho hrem hpcinv
      · exact h.setOwner ho rfl (not_not.mp hrem)
    · split_ifs at hs with hrem <;> cases hs
      · exact h.enterNext ho hrem hpcinv
      · exact h.setOwner ho rfl (not_not.mp hrem)
  case h_8 =>
    simp only [PcInv, hpc] at hpcinv
    exact h.take ho hs fun resp hrem hp => by
      have := hpcinv.2.1 hp
      simp only [State.setResponses, Function.update_self]
      omega
  case h_9 =>
    simp only [PcInv, hpc] at hpcinv
    obtain ⟨hrem, hcount, t, base, ht, hbase, _⟩ := hpcinv
    rw [ht] at hs
    dsimp only at hs
    split_ifs at hs with hlt
    cases hs
    refine h.setOwner ho rfl ⟨hrem, hcount, nofun, base, hbase, ?_⟩
    rw [hbase, Option.getD_some]
    exact (Nat.add_sub_cancel' ((h.owner o own ho).base_le base hbase)).le
  case h_10 =>
    split at hs
    · cases hs
      exact h.handOff ho
    · cases hs
      exact h.abort ho
  case h_11 =>
    cases hs
    simp only [PcInv, hpc] at hpcinv
    exact h.setOwner ho rfl ⟨hpcinv.2.2.1 trivial, hpcinv.2.1⟩
  case h_12 =>
    cases hs
    simp only [PcInv, hpc] at hpcinv
    exact h.enterNext ho hpcinv.1 hpcinv.2.1
  case h_13 now r todo expired =>
    split at hs
    · next wait hw =>
      split_ifs at hs with hexp <;> cases hs
      · exact h.expire ho hpc hw hexp
      · simp only [PcInv, hpc] at hpcinv
        exact h.setOwner ho rfl hpcinv
    · cases hs
      simp only [PcInv, hpc] at hpcinv
      exact h.setOwner ho rfl hpcinv
  case h_14 =>
    simp only [PcInv, hpc] at hpcinv
    exact h.take ho hs fun resp hrem hp => by
      have := hpcinv.2 hp
      simp only [State.setResponses, Function.update_self]
      omega
  case h_15 =>
    cases hs
    simp only [PcInv, hpc] at hpcinv
    exact h.setOwner ho rfl hpcinv
  case h_16 =>
    split at hs <;> cases hs
    · exact h.handOff ho
    · exact h.handOff ho
  case h_17 =>
    split at hs <;> cases hs
    · exact h.abort ho
    · exact h.handOff ho
  case h_18 err r todo =>
    split at hs <;> cases hs
    · next wait hw => exact h.abortOne ho hpc hw
    · next hw =>
      simp only [PcInv, hpc] at hpcinv
      refine h.setOwner ho rfl ⟨fun e he heo => ?_, hpcinv.2⟩
      rcases List.mem_cons.mp (hpcinv.1 e he heo) with hr | hr
      · obtain ⟨wait, hw', _⟩ :=
          h.ledger.wait_of_token (State.mem_tokens.mpr (.inl ⟨e, he, rfl⟩))
        rw [heo, hr, hw] at hw'
        cases hw'
      · exact hr
  case h_19 =>
    cases hs
    simp only [PcInv, hpc] at hpcinv
    refine h.setOwner ho rfl fun e he heo => ?_
    cases hpcinv.1 e he heo
  case h_20 =>
    simp only [PcInv, hpc] at hpcinv
    split_ifs at hs with hrem
    · exact h.take ho hs fun _ _ => hpcinv
    · cases hs
      exact h.setOwner ho rfl (not_not.mp hrem)
  case h_21 =>
    cases hs
    rw [(h.release ho hpc).1]
    exact (h.release ho hpc).2
  case h_22 => cases hs

/-! ## The steps of the client -/

theorem Kind.targets_nodup (kind : Kind) (targets : Fin n → Bool) :
    (kind.targets targets).Nodup := by
  cases kind
  case heal => exact (List.nodup_finRange n).filter _
  all_goals exact List.nodup_finRange n

theorem Kind.Public.targets_length {kind : Kind} (h : kind.Public) (targets : Fin n → Bool) :
    (kind.targets targets).length = n := by
  rcases h with rfl | rfl <;> exact List.length_finRange

theorem Inv.start (h : Inv cfg s) (ho : s.owners o = none) {kind : Kind} (hk : kind ≠ .collect)
    (targets : Fin n → Bool) :
    Inv cfg (s.start o ⟨kind, .submit (kind.targets targets) none, 0, s.nextNumber⟩) := by
  have hwaits := h.ledger.free_waits ho
  have hrem : (s.responses o).remaining = 0 := by
    rw [h.ledger.remaining, List.length_eq_zero_iff, List.eq_nil_iff_forall_not_mem]
    rintro ⟨r, id⟩ hmem
    obtain ⟨wait, hw, _⟩ := mem_waitKeys.mp hmem
    rw [hwaits r] at hw
    cases hw
  refine h.replace _ (h.ledger.start ho rfl) rfl (fun o' _ => ?_) (fun own' hown' => ?_) nofun rfl
    rfl h.overdue rfl
  · exact .of_responses rfl (le_refl _) rfl rfl rfl
  · obtain rfl := Option.some.inj hown'
    refine ⟨fun r wait hw => ?_, fun base hb => ?_, fun ht => ?_, hk, kind.targets_nodup targets,
      fun r _ => hwaits r, fun hp => ?_, nofun⟩
    · exact absurd ((hwaits r).symm.trans hw) nofun
    · exact absurd ((h.free o ho).2.symm.trans hb) nofun
    · exact absurd (h.free o ho).1 ht
    · have hresp : (s.start o ⟨kind, .submit (kind.targets targets) none, 0, s.nextNumber⟩).responses
          = s.responses := rfl
      rw [hresp, hrem, hp.targets_length, Nat.zero_add]

theorem Inv.send (h : Inv cfg s) {k : Nat} {x : Sending n} (hk : s.sending[k]? = some x) :
    Inv cfg (s.send k x) := by
  have hframe : ∀ o, Frame s (s.send k x) o := by
    intro o
    refine ⟨?_, ?_, ?_, ?_, le_refl _, fun _ ha => ha, fun _ hc => hc, fun _ he => .inl he⟩
    all_goals
      by_cases heq : o = x.entry.operation
      · subst heq
        simp only [State.send, Function.update_self]
      · simp only [State.send, Function.update_of_ne heq]
  refine ⟨h.ledger.send hk, fun o own ho => ?_, fun o ho => ?_, h.nil_canceled, h.overdue,
    h.no_panic⟩
  · exact (h.owner o own ho).frame h.ledger (hframe o)
  · rw [(hframe o).timer, (hframe o).timeBase]
    exact h.free o ho

/-- **Every step keeps the invariant.** -/
theorem step_inv {a : Act n} (h : Inv cfg s) (hs : step cfg s a = some s') : Inv cfg s' := by
  cases a with
  | tick now =>
    simp only [step] at hs
    split_ifs at hs with hle
    cases hs
    refine ⟨?_, fun o own ho => ?_, h.free, h.nil_canceled, h.overdue, h.no_panic⟩
    · exact h.ledger.congr (.of_responses rfl rfl rfl rfl rfl rfl rfl) rfl rfl
    · exact (h.owner o own ho).frame h.ledger (.of_responses rfl hle rfl rfl rfl)
  | start o kind targets =>
    simp only [step] at hs
    split at hs
    · cases hs
    · next ho =>
      split_ifs at hs with hk
      cases hs
      exact h.start ho hk targets
  | own o choice =>
    simp only [step] at hs
    split at hs
    · next own ho => exact ownerStep_inv h ho hs
    · cases hs
  | respond r response =>
    cases hs
    exact h.move _ _ _ nofun
  | send k =>
    simp only [step] at hs
    split at hs
    · cases hs
    · next x hk =>
      split_ifs at hs
      cases hs
      exact h.send hk
  | cancel r =>
    cases hs
    refine ⟨?_, fun o own ho => ?_, h.free, fun r' j hnil => ?_, h.overdue, h.no_panic⟩
    · exact h.ledger.congr (.of_responses rfl rfl rfl rfl rfl rfl rfl) rfl rfl
    · exact (h.owner o own ho).frame h.ledger (.of_responses rfl (le_refl _) rfl rfl rfl)
    · by_cases hr : r' = r
      · subst hr
        exact Function.update_self ..
      · exact (Function.update_of_ne hr ..).trans (h.nil_canceled r' j hnil)
  | failPending r j =>
    simp only [step] at hs
    split_ifs at hs with hguard
    cases hs
    have hmove := h.move (fun e => e.replica = r && pendingShardIndex e.requestID = j)
      (.error .replicaClosed) .close nofun
    refine ⟨?_, fun o own ho => ?_, h.free, fun r' j' hnil => ?_, hmove.overdue, h.no_panic⟩
    · exact hmove.ledger.congr (.of_responses rfl rfl rfl rfl rfl rfl rfl) rfl rfl
    · exact (hmove.owner o own ho).frame hmove.ledger (.of_responses rfl (le_refl _) rfl rfl rfl)
    · by_cases hr : r' = r
      · subst hr
        exact hguard.1
      · refine h.nil_canceled r' j' ?_
        dsimp only at hnil
        rwa [Function.update_of_ne hr] at hnil

theorem inv_of_exec {clock : Time} {acts : List (Act n)}
    (he : Lib.Trans.exec (step cfg) (State.init clock) acts = some s) : Inv cfg s :=
  Lib.Trans.exec_invariant (fun hi hs => step_inv hi hs) (inv_init cfg clock) he

end RedLease.Client

import Mathlib.Data.List.Nodup
import Mathlib.Data.List.Perm.Basic
import RedLease.Client.Responses

/-!
# The ledger of replica requests

Every outstanding wait of a `replicaResponses` object has one token: a pending entry, a completer
that is about to send, or a result in the channel. `Ledger` says so, and ties the waits to the
history: which operation had the request accepted, what removed its entry, who consumed its result.
It does not look at where the operations stand, only at which operation owns which object.

Each primitive of the model preserves it:
* `Ledger.congr` for the steps that change neither tokens nor waits, and `Ledger.renumber` if an
  object changes hands;
* `Ledger.move` for every removal of pending entries (`complete` and `failPending`);
* `Ledger.accept`, `Ledger.send`, `Ledger.consumed`, `Ledger.start` and `Ledger.put`.
-/

namespace RedLease.Client

variable {n : Nat}

/-! ## Waits and tokens -/

/-- The outstanding waits, as replica and request ID. -/
def waitKeys (waits : Fin n → Option ReplicaWait) : List (Fin n × Nat) :=
  (List.finRange n).filterMap fun r => (waits r).map fun wait => (r, wait.requestID)

theorem mem_waitKeys {waits : Fin n → Option ReplicaWait} {r : Fin n} {id : Nat} :
    (r, id) ∈ waitKeys waits ↔ ∃ wait, waits r = some wait ∧ wait.requestID = id := by
  simp only [waitKeys, List.mem_filterMap, List.mem_finRange, true_and, Option.map_eq_some_iff,
    Prod.mk.injEq]
  constructor
  · rintro ⟨r', wait, hw, rfl, rfl⟩
    exact ⟨wait, hw, rfl⟩
  · rintro ⟨wait, hw, rfl⟩
    exact ⟨r, wait, hw, rfl, rfl⟩

theorem waitKeys_nodup (waits : Fin n → Option ReplicaWait) : (waitKeys waits).Nodup := by
  refine (List.nodup_finRange n).filterMap fun r r' key h h' => ?_
  simp only [Option.mem_def, Option.map_eq_some_iff] at h h'
  obtain ⟨_, _, rfl⟩ := h
  obtain ⟨_, _, h⟩ := h'
  exact (congrArg Prod.fst h).symm

theorem waitKeys_length_le (waits : Fin n → Option ReplicaWait) : (waitKeys waits).length ≤ n :=
  (List.length_filterMap_le ..).trans (List.length_finRange).le

theorem waitKeys_set {waits : Fin n → Option ReplicaWait} {r : Fin n} (wait : ReplicaWait)
    (h : waits r = none) :
    (waitKeys (Function.update waits r (some wait))).Perm ((r, wait.requestID) :: waitKeys waits) := by
  have hr : ∀ id, (r, id) ∉ waitKeys waits := fun id hmem => by
    obtain ⟨_, hw, _⟩ := mem_waitKeys.mp hmem
    rw [h] at hw
    cases hw
  refine (List.perm_ext_iff_of_nodup (waitKeys_nodup _)
    (List.nodup_cons.mpr ⟨hr _, waitKeys_nodup _⟩)).mpr ?_
  rintro ⟨r', id⟩
  rw [List.mem_cons, mem_waitKeys, mem_waitKeys, Prod.mk.injEq]
  by_cases hr' : r' = r
  · subst hr'
    simp [h, eq_comm]
  · simp [hr']

theorem waitKeys_clear {waits : Fin n → Option ReplicaWait} {r : Fin n} {wait : ReplicaWait}
    (h : waits r = some wait) :
    (waitKeys waits).Perm ((r, wait.requestID) :: waitKeys (Function.update waits r none)) := by
  have hnone : Function.update waits r none r = none := Function.update_self ..
  have hset := waitKeys_set wait hnone
  rwa [Function.update_idem, ← h, Function.update_eq_self] at hset

theorem waitKeys_eq_nil {waits : Fin n → Option ReplicaWait} (h : (waitKeys waits).length = 0)
    (r : Fin n) : waits r = none := by
  cases hw : waits r with
  | none => rfl
  | some wait =>
    have hmem := mem_waitKeys.mpr ⟨wait, hw, rfl⟩
    rw [List.length_eq_zero_iff.mp h] at hmem
    cases hmem

/-- The object, replica and request ID of an entry. -/
def PendingEntry.token (e : PendingEntry n) : Nat × Fin n × Nat :=
  (e.operation, e.replica, e.requestID)

/-- The request that a response is for. -/
def ReplicaResponse.token (x : ReplicaResponse n) : Fin n × Nat := (x.replica, x.requestID)

/-- The tokens that have not reached a results channel. -/
def State.outstanding (s : State n) : List (Nat × Fin n × Nat) :=
  s.pending.map PendingEntry.token ++ s.sending.map fun x => x.entry.token

/-- The outstanding tokens of object `o`. -/
def tokensFor (o : Nat) (outstanding : List (Nat × Fin n × Nat)) : List (Fin n × Nat) :=
  outstanding.filterMap fun t => if t.1 = o then some t.2 else none

/-- The tokens of object `o`. -/
def State.tokens (s : State n) (o : Nat) : List (Fin n × Nat) :=
  tokensFor o s.outstanding ++ (s.responses o).results.map ReplicaResponse.token

/-- The number of the operation that owns object `o`. -/
def State.number (s : State n) (o : Nat) : Option Nat := (s.owners o).map Owner.number

theorem tokensFor_cons_self (o : Nat) (t : Fin n × Nat) (l : List (Nat × Fin n × Nat)) :
    tokensFor o ((o, t) :: l) = t :: tokensFor o l := by
  simp [tokensFor]

theorem tokensFor_cons_of_ne {o o' : Nat} (h : o' ≠ o) (t : Fin n × Nat)
    (l : List (Nat × Fin n × Nat)) : tokensFor o ((o', t) :: l) = tokensFor o l := by
  simp [tokensFor, h]

theorem State.mem_tokens {s : State n} {o : Nat} {t : Fin n × Nat} :
    t ∈ s.tokens o ↔ (∃ e ∈ s.pending, e.token = (o, t)) ∨ (∃ x ∈ s.sending, x.entry.token = (o, t)) ∨
      ∃ x ∈ (s.responses o).results, x.token = t := by
  simp only [tokens, tokensFor, outstanding, List.mem_append, List.mem_filterMap, List.mem_map,
    Option.ite_none_right_eq_some, Option.some.injEq]
  constructor
  · rintro (⟨⟨o', t'⟩, ⟨e, he, het⟩ | ⟨x, hx, hxt⟩, rfl, rfl⟩ | ⟨x, hx, rfl⟩)
    · exact .inl ⟨e, he, het⟩
    · exact .inr (.inl ⟨x, hx, hxt⟩)
    · exact .inr (.inr ⟨x, hx, rfl⟩)
  · rintro (⟨e, he, het⟩ | ⟨x, hx, hxt⟩ | ⟨x, hx, rfl⟩)
    · exact .inl ⟨(o, t), .inl ⟨e, he, het⟩, rfl, rfl⟩
    · exact .inl ⟨(o, t), .inr ⟨x, hx, hxt⟩, rfl, rfl⟩
    · exact .inr ⟨x, hx, rfl⟩

/-! ## The invariant -/

/-- **The ledger**: the waits, their tokens and the history agree. -/
structure Ledger (s : State n) : Prop where
  /-- Every outstanding wait has exactly one token, and there are no others. -/
  routed : ∀ o, (s.tokens o).Perm (waitKeys (s.responses o).waits)
  remaining : ∀ o, (s.responses o).remaining = (waitKeys (s.responses o).waits).length
  /-- A wait belongs to a request that the present owner had accepted. -/
  waited : ∀ o r wait, (s.responses o).waits r = some wait →
    ∃ a ∈ s.accepted, a.requestID = wait.requestID ∧ a.replica = r ∧ s.number o = some a.number
  number_lt : ∀ o k, s.number o = some k → k < s.nextNumber
  number_inj : ∀ o o' k, s.number o = some k → s.number o' = some k → o = o'
  accepted_nodup : (s.accepted.map Accepted.requestID).Nodup
  accepted_le : ∀ a ∈ s.accepted, a.requestID ≤ s.nextRequestID ∧ a.number < s.nextNumber
  pending_nodup : (s.pending.map PendingEntry.requestID).Nodup
  pending_not_removed : ∀ e ∈ s.pending, e.requestID ∉ s.removed.map Removed.requestID
  removed_nodup : (s.removed.map Removed.requestID).Nodup
  removed_accepted : ∀ m ∈ s.removed, ∃ a ∈ s.accepted, a.requestID = m.requestID
  /-- What is on its way is what removed the pending entry. -/
  sending_removed : ∀ x ∈ s.sending,
    ∃ m ∈ s.removed, m.requestID = x.entry.requestID ∧ m.result = x.result
  results_removed : ∀ o, ∀ x ∈ (s.responses o).results,
    ∃ m ∈ s.removed, m.requestID = x.requestID ∧ m.result = x.result
  delivered_nodup : (s.delivered.map Delivered.requestID).Nodup
  delivered_accepted : ∀ d ∈ s.delivered,
    ∃ a ∈ s.accepted, a.requestID = d.requestID ∧ a.number = d.number
  delivered_removed : ∀ d ∈ s.delivered,
    ∃ m ∈ s.removed, m.requestID = d.requestID ∧ m.result = d.result
  waits_not_delivered : ∀ o r wait, (s.responses o).waits r = some wait →
    wait.requestID ∉ s.delivered.map Delivered.requestID
  /-- No accepted request is lost. -/
  kept : ∀ a ∈ s.accepted, a.requestID ∈ s.delivered.map Delivered.requestID ∨
    ∃ o wait, s.number o = some a.number ∧ (s.responses o).waits a.replica = some wait ∧
      wait.requestID = a.requestID

/-- Neither the tokens, nor the waits, nor the history differ. -/
structure Unmoved (s s' : State n) : Prop where
  pending : s'.pending = s.pending
  sending : s'.sending = s.sending
  results : ∀ o, (s'.responses o).results = (s.responses o).results
  waits : ∀ o, (s'.responses o).waits = (s.responses o).waits
  remaining : ∀ o, (s'.responses o).remaining = (s.responses o).remaining
  nextRequestID : s'.nextRequestID = s.nextRequestID
  accepted : s'.accepted = s.accepted
  removed : s'.removed = s.removed
  delivered : s'.delivered = s.delivered

theorem Unmoved.of_responses {s s' : State n} (hresp : s'.responses = s.responses)
    (hp : s'.pending = s.pending) (hse : s'.sending = s.sending)
    (hid : s'.nextRequestID = s.nextRequestID) (hacc : s'.accepted = s.accepted)
    (hrm : s'.removed = s.removed) (hdel : s'.delivered = s.delivered) : Unmoved s s' :=
  ⟨hp, hse, fun _ => by rw [hresp], fun _ => by rw [hresp], fun _ => by rw [hresp], hid, hacc, hrm,
    hdel⟩

theorem ledger_init (clock : Time) : Ledger (State.init clock : State n) where
  routed o := by
    have hnil : waitKeys (n := n) (fun _ => none) = [] := by simp [waitKeys]
    exact .of_eq hnil.symm
  remaining o := by simp [State.init, Responses.init, waitKeys]
  waited o r wait h := by cases h
  number_lt o k h := by cases h
  number_inj o o' k h := by cases h
  accepted_nodup := List.nodup_nil
  accepted_le := by simp [State.init]
  pending_nodup := List.nodup_nil
  pending_not_removed := by simp [State.init]
  removed_nodup := List.nodup_nil
  removed_accepted := by simp [State.init]
  sending_removed := by simp [State.init]
  results_removed := by simp [State.init, Responses.init]
  delivered_nodup := List.nodup_nil
  delivered_accepted := by simp [State.init]
  delivered_removed := by simp [State.init]
  waits_not_delivered o r wait h := by cases h
  kept := by simp [State.init]

namespace Ledger

variable {s s' : State n}

/-- The request IDs of the accepted requests identify them. -/
theorem accepted_inj (h : Ledger s) {a b : Accepted n} (ha : a ∈ s.accepted) (hb : b ∈ s.accepted)
    (hid : a.requestID = b.requestID) : a = b :=
  List.inj_on_of_nodup_map h.accepted_nodup ha hb hid

theorem wait_of_token (h : Ledger s) {o : Nat} {r : Fin n} {id : Nat} (ht : (r, id) ∈ s.tokens o) :
    ∃ wait, (s.responses o).waits r = some wait ∧ wait.requestID = id :=
  mem_waitKeys.mp ((h.routed o).mem_iff.mp ht)

theorem token_of_wait (h : Ledger s) {o : Nat} {r : Fin n} {wait : ReplicaWait}
    (hw : (s.responses o).waits r = some wait) : (r, wait.requestID) ∈ s.tokens o :=
  (h.routed o).mem_iff.mpr (mem_waitKeys.mpr ⟨wait, hw, rfl⟩)

/-- A pending entry was accepted for the operation that owns its object. -/
theorem pending_accepted (h : Ledger s) {e : PendingEntry n} (he : e ∈ s.pending) :
    ∃ a ∈ s.accepted, a.requestID = e.requestID := by
  obtain ⟨wait, hw, hid⟩ := h.wait_of_token (State.mem_tokens.mpr (.inl ⟨e, he, rfl⟩))
  obtain ⟨a, ha, haid, _⟩ := h.waited _ _ _ hw
  exact ⟨a, ha, haid.trans hid⟩

/-- Two waits for one request ID are one wait. -/
theorem wait_unique (h : Ledger s) {o o' : Nat} {r r' : Fin n} {wait wait' : ReplicaWait}
    (hw : (s.responses o).waits r = some wait) (hw' : (s.responses o').waits r' = some wait')
    (hid : wait.requestID = wait'.requestID) : o = o' ∧ r = r' := by
  obtain ⟨a, ha, haid, rfl, hn⟩ := h.waited _ _ _ hw
  obtain ⟨b, hb, hbid, rfl, hn'⟩ := h.waited _ _ _ hw'
  have hab : a = b := h.accepted_inj ha hb (haid.trans (hid.trans hbid.symm))
  subst hab
  exact ⟨h.number_inj _ _ _ hn hn', rfl⟩

/-- **The owners change**: the tokens and the waits are as they were, and so are the numbers of the
operations that wait. -/
theorem renumber (h : Ledger s) (hs : Unmoved s s')
    (hnum : ∀ o r wait, (s.responses o).waits r = some wait → s'.number o = s.number o)
    (hlt : ∀ o k, s'.number o = some k → k < s'.nextNumber)
    (hinj : ∀ o o' k, s'.number o = some k → s'.number o' = some k → o = o')
    (hnext : s.nextNumber ≤ s'.nextNumber) : Ledger s' where
  routed o := by
    have htok : s'.tokens o = s.tokens o := by
      simp only [State.tokens, State.outstanding, hs.pending, hs.sending, hs.results]
    rw [htok, hs.waits]
    exact h.routed o
  remaining o := by rw [hs.remaining, hs.waits]; exact h.remaining o
  waited o r wait hw := by
    rw [hs.waits] at hw
    rw [hs.accepted, hnum o r wait hw]
    exact h.waited o r wait hw
  number_lt := hlt
  number_inj := hinj
  accepted_nodup := by simpa only [hs.accepted] using h.accepted_nodup
  accepted_le a ha := by
    rw [hs.accepted] at ha
    rw [hs.nextRequestID]
    exact ⟨(h.accepted_le a ha).1, (h.accepted_le a ha).2.trans_le hnext⟩
  pending_nodup := by simpa only [hs.pending] using h.pending_nodup
  pending_not_removed := by simpa only [hs.pending, hs.removed] using h.pending_not_removed
  removed_nodup := by simpa only [hs.removed] using h.removed_nodup
  removed_accepted := by simpa only [hs.removed, hs.accepted] using h.removed_accepted
  sending_removed := by simpa only [hs.sending, hs.removed] using h.sending_removed
  results_removed := by simpa only [hs.results, hs.removed] using h.results_removed
  delivered_nodup := by simpa only [hs.delivered] using h.delivered_nodup
  delivered_accepted := by simpa only [hs.delivered, hs.accepted] using h.delivered_accepted
  delivered_removed := by simpa only [hs.delivered, hs.removed] using h.delivered_removed
  waits_not_delivered := by simpa only [hs.waits, hs.delivered] using h.waits_not_delivered
  kept a ha := by
    rw [hs.accepted] at ha
    rw [hs.delivered]
    rcases h.kept a ha with hd | ⟨o, wait, hn, hw, hid⟩
    · exact .inl hd
    · exact .inr ⟨o, wait, (hnum o _ wait hw).trans hn, by rw [hs.waits, hw], hid⟩

/-- Steps that leave the owners their numbers. -/
theorem congr (h : Ledger s) (hs : Unmoved s s') (hnum : s'.number = s.number)
    (hnext : s'.nextNumber = s.nextNumber) : Ledger s' :=
  h.renumber hs (fun o _ _ _ => congrFun hnum o) (by simpa only [hnum, hnext] using h.number_lt)
    (by simpa only [hnum] using h.number_inj) hnext.ge

end Ledger

/-! ## The primitives -/

theorem State.move_outstanding (s : State n) (p : PendingEntry n → Bool) (result : CallResult)
    (completer : Completer) : (s.move p result completer).outstanding.Perm s.outstanding := by
  have hsplit : ((s.pending.filter p).map PendingEntry.token ++
      (s.pending.filter (fun e => !p e)).map PendingEntry.token).Perm
      (s.pending.map PendingEntry.token) := by
    rw [← List.map_append]
    exact (List.filter_append_perm p s.pending).map _
  have hsent : ((s.pending.filter p).map fun e => (⟨e, result⟩ : Sending n)).map
      (fun x => x.entry.token) = (s.pending.filter p).map PendingEntry.token := by
    rw [List.map_map]
    rfl
  unfold State.outstanding State.move
  dsimp only
  rw [List.map_append, hsent, ← List.append_assoc]
  refine List.perm_append_comm.trans ?_
  rw [← List.append_assoc]
  exact hsplit.append_right _

namespace Ledger

variable {s : State n}

/-- **Removing pending entries**, whoever does it and however many they are. -/
theorem move (h : Ledger s) (p : PendingEntry n → Bool) (result : CallResult)
    (completer : Completer) : Ledger (s.move p result completer) := { h with
  routed o :=
    (((State.move_outstanding s p result completer).filterMap _).append_right _).trans (h.routed o)
  pending_nodup := h.pending_nodup.sublist (List.filter_sublist.map _)
  pending_not_removed := by
    intro e he hmem
    obtain ⟨hep, hnot⟩ := List.mem_filter.mp he
    simp only [State.move, List.map_append, List.mem_append] at hmem
    rcases hmem with hmem | hmem
    · obtain ⟨_, hm, hid⟩ := List.mem_map.mp hmem
      obtain ⟨e', he', rfl⟩ := List.mem_map.mp hm
      obtain ⟨hep', hp'⟩ := List.mem_filter.mp he'
      have : e' = e := List.inj_on_of_nodup_map h.pending_nodup hep' hep hid
      subst this
      simp [hp'] at hnot
    · exact h.pending_not_removed e hep hmem
  removed_nodup := by
    simp only [State.move, List.map_append, List.map_map]
    refine List.Nodup.append ?_ h.removed_nodup ?_
    · exact h.pending_nodup.sublist (List.filter_sublist.map _)
    · intro id hid hmem
      obtain ⟨e, he, rfl⟩ := List.mem_map.mp hid
      exact h.pending_not_removed e (List.mem_filter.mp he).1 hmem
  removed_accepted := by
    intro m hm
    rcases List.mem_append.mp hm with hm | hm
    · obtain ⟨e, he, rfl⟩ := List.mem_map.mp hm
      exact h.pending_accepted (List.mem_filter.mp he).1
    · exact h.removed_accepted m hm
  sending_removed := by
    intro x hx
    rcases List.mem_append.mp hx with hx | hx
    · obtain ⟨m, hm, heq⟩ := h.sending_removed x hx
      exact ⟨m, List.mem_append_right _ hm, heq⟩
    · obtain ⟨e, he, rfl⟩ := List.mem_map.mp hx
      exact ⟨_, List.mem_append_left _ (List.mem_map_of_mem he), rfl, rfl⟩
  results_removed := by
    intro o x hx
    obtain ⟨m, hm, heq⟩ := h.results_removed o x hx
    exact ⟨m, List.mem_append_right _ hm, heq⟩
  delivered_removed := by
    intro d hd
    obtain ⟨m, hm, heq⟩ := h.delivered_removed d hd
    exact ⟨m, List.mem_append_right _ hm, heq⟩ }

end Ledger

/-- Giving an object to an owner with the same number keeps the numbers. -/
theorem State.number_update {s : State n} {o : Nat} {own : Owner n} (ho : s.owners o = some own)
    (own' : Owner n) (hn : own'.number = own.number) :
    (fun j => (Function.update s.owners o (some own') j).map Owner.number) = s.number := by
  funext j
  unfold State.number
  by_cases hj : j = o
  · subst hj
    rw [Function.update_self, ho, Option.map_some, Option.map_some, hn]
  · rw [Function.update_of_ne hj]

namespace Ledger

variable {s : State n} {o : Nat} {own : Owner n}

/-- A request ID above the counter is new to the history. -/
theorem fresh (h : Ledger s) {id : Nat} (hid : s.nextRequestID < id) :
    (∀ a ∈ s.accepted, a.requestID ≠ id) ∧ (∀ m ∈ s.removed, m.requestID ≠ id) ∧
      (∀ d ∈ s.delivered, d.requestID ≠ id) ∧ ∀ e ∈ s.pending, e.requestID ≠ id := by
  have ha : ∀ a ∈ s.accepted, a.requestID ≠ id := fun a ha =>
    ((h.accepted_le a ha).1.trans_lt hid).ne
  refine ⟨ha, fun m hm => ?_, fun d hd => ?_, fun e he => ?_⟩
  · obtain ⟨a, hmem, heq⟩ := h.removed_accepted m hm
    exact heq ▸ ha a hmem
  · obtain ⟨a, hmem, heq, _⟩ := h.delivered_accepted d hd
    exact heq ▸ ha a hmem
  · obtain ⟨a, hmem, heq⟩ := h.pending_accepted he
    exact heq ▸ ha a hmem

/-- **An accepted request** adds one wait and one token. -/
theorem accept (h : Ledger s) (cfg : Config) {r : Fin n} (todo : List (Fin n)) (now : Time)
    (ho : s.owners o = some own) (hr : (s.responses o).waits r = none) :
    Ledger (s.accept o own cfg r todo now) := by
  obtain ⟨hacc, hrem, hdel, hpend⟩ := h.fresh (Nat.lt_succ_self s.nextRequestID)
  have hnum : (s.accept o own cfg r todo now).number = s.number :=
    State.number_update ho { own with pc := .submit todo none } rfl
  have hset := waitKeys_set ((s.responses o).newWait cfg (s.nextRequestID + 1) now) hr
  have hnumo : s.number o = some own.number := by rw [State.number, ho]; rfl
  have hwaits : ∀ o' r' wait, ((s.accept o own cfg r todo now).responses o').waits r' = some wait →
      (o' = o ∧ r' = r ∧ wait.requestID = s.nextRequestID + 1) ∨
        (s.responses o').waits r' = some wait := by
    intro o' r' wait hw
    by_cases ho' : o' = o
    · subst ho'
      by_cases hr' : r' = r
      · subst hr'
        simp only [State.accept, Function.update_self, Option.some.injEq] at hw
        exact .inl ⟨rfl, rfl, by rw [← hw, Responses.newWait]⟩
      · simp only [State.accept, Function.update_self, Function.update_of_ne hr'] at hw
        exact .inr hw
    · simp only [State.accept, Function.update_of_ne ho'] at hw
      exact .inr hw
  refine { h with
    routed := ?routed, remaining := ?remaining, waited := ?waited, number_lt := ?number_lt,
    number_inj := ?number_inj, accepted_nodup := ?accepted_nodup, accepted_le := ?accepted_le,
    pending_nodup := ?pending_nodup, pending_not_removed := ?pending_not_removed,
    removed_accepted := ?removed_accepted, results_removed := ?results_removed,
    delivered_accepted := ?delivered_accepted, waits_not_delivered := ?waits_not_delivered,
    kept := ?kept }
  case routed =>
    intro o'
    by_cases ho' : o' = o
    · subst ho'
      simp only [State.tokens, State.outstanding, State.accept, Function.update_self, List.map_cons,
        PendingEntry.token, List.cons_append, tokensFor_cons_self]
      exact ((h.routed o').cons _).trans hset.symm
    · simp only [State.tokens, State.outstanding, State.accept, Function.update_of_ne ho',
        List.map_cons, PendingEntry.token, List.cons_append, tokensFor_cons_of_ne (Ne.symm ho')]
      exact h.routed o'
  case remaining =>
    intro o'
    by_cases ho' : o' = o
    · subst ho'
      simp only [State.accept, Function.update_self, hset.length_eq,
        List.length_cons, h.remaining]
    · simp only [State.accept, Function.update_of_ne ho', h.remaining]
  case waited =>
    intro o' r' wait hw
    rw [hnum]
    rcases hwaits o' r' wait hw with ⟨rfl, rfl, hid⟩ | hw
    · exact ⟨_, List.mem_cons_self, hid.symm, rfl, hnumo⟩
    · obtain ⟨a, ha, heq⟩ := h.waited o' r' wait hw
      exact ⟨a, List.mem_cons_of_mem _ ha, heq⟩
  case number_lt => rw [hnum]; exact h.number_lt
  case number_inj => rw [hnum]; exact h.number_inj
  case accepted_nodup =>
    refine List.nodup_cons.mpr ⟨fun hmem => ?_, h.accepted_nodup⟩
    obtain ⟨a, ha, heq⟩ := List.mem_map.mp hmem
    exact hacc a ha heq
  case accepted_le =>
    intro a ha
    rcases List.mem_cons.mp ha with rfl | ha
    · exact ⟨le_refl _, h.number_lt o _ hnumo⟩
    · exact ⟨(h.accepted_le a ha).1.trans (Nat.le_succ _), (h.accepted_le a ha).2⟩
  case pending_nodup =>
    refine List.nodup_cons.mpr ⟨fun hmem => ?_, h.pending_nodup⟩
    obtain ⟨e, he, heq⟩ := List.mem_map.mp hmem
    exact hpend e he heq
  case pending_not_removed =>
    intro e he
    rcases List.mem_cons.mp he with rfl | he
    · intro hmem
      obtain ⟨m, hm, heq⟩ := List.mem_map.mp hmem
      exact hrem m hm heq
    · exact h.pending_not_removed e he
  case removed_accepted =>
    intro m hm
    obtain ⟨a, ha, heq⟩ := h.removed_accepted m hm
    exact ⟨a, List.mem_cons_of_mem _ ha, heq⟩
  case results_removed =>
    intro o' x hx
    by_cases ho' : o' = o
    · subst ho'
      simp only [State.accept, Function.update_self] at hx
      exact h.results_removed o' x hx
    · simp only [State.accept, Function.update_of_ne ho'] at hx
      exact h.results_removed o' x hx
  case delivered_accepted =>
    intro d hd
    obtain ⟨a, ha, heq⟩ := h.delivered_accepted d hd
    exact ⟨a, List.mem_cons_of_mem _ ha, heq⟩
  case waits_not_delivered =>
    intro o' r' wait hw
    rcases hwaits o' r' wait hw with ⟨rfl, rfl, hid⟩ | hw
    · rw [hid]
      intro hmem
      obtain ⟨d, hd, heq⟩ := List.mem_map.mp hmem
      exact hdel d hd heq
    · exact h.waits_not_delivered o' r' wait hw
  case kept =>
    intro a ha
    rw [hnum]
    rcases List.mem_cons.mp ha with rfl | ha
    · refine .inr ⟨o, (s.responses o).newWait cfg (s.nextRequestID + 1) now, hnumo, ?_, rfl⟩
      simp only [State.accept, Function.update_self]
    · rcases h.kept a ha with hd | ⟨o', wait, hn', hw, hid⟩
      · exact .inl hd
      · refine .inr ⟨o', wait, hn', ?_, hid⟩
        by_cases ho' : o' = o
        · subst ho'
          have hr' : a.replica ≠ r := fun heq => by
            rw [heq, hr] at hw
            cases hw
          simp only [State.accept, Function.update_self, Function.update_of_ne hr']
          exact hw
        · simp only [State.accept, Function.update_of_ne ho']
          exact hw

end Ledger

theorem State.sending_perm {s : State n} {k : Nat} {x : Sending n} (hk : s.sending[k]? = some x) :
    s.sending.Perm (x :: s.sending.eraseIdx k) := by
  obtain ⟨hlt, rfl⟩ := List.getElem?_eq_some_iff.mp hk
  exact (List.getElem_cons_eraseIdx_perm hlt).symm

theorem State.send_outstanding {s : State n} {k : Nat} {x : Sending n} (hk : s.sending[k]? = some x) :
    s.outstanding.Perm (x.entry.token :: (s.send k x).outstanding) := by
  unfold State.outstanding
  refine (((State.sending_perm hk).map _).append_left _).trans ?_
  exact List.perm_middle

namespace Ledger

variable {s : State n} {o : Nat} {own : Owner n}

/-- **A send** moves a token from a completer to the channel of its object. -/
theorem send (h : Ledger s) {k : Nat} {x : Sending n} (hk : s.sending[k]? = some x) :
    Ledger (s.send k x) := by
  have hwaits : ∀ o, ((s.send k x).responses o).waits = (s.responses o).waits := by
    intro o
    by_cases ho : o = x.entry.operation
    · subst ho
      simp only [State.send, Function.update_self]
    · simp only [State.send, Function.update_of_ne ho]
  have hout := State.send_outstanding hk
  refine { h with
    routed := ?routed, remaining := ?remaining, waited := ?waited,
    sending_removed := ?sending_removed, results_removed := ?results_removed,
    waits_not_delivered := ?waits_not_delivered, kept := ?kept }
  case routed =>
    intro o
    rw [hwaits]
    refine List.Perm.trans ?_ (h.routed o)
    unfold State.tokens
    by_cases ho : o = x.entry.operation
    · subst ho
      have htok := hout.filterMap fun t => if t.1 = x.entry.operation then some t.2 else none
      refine List.Perm.trans ?_ (htok.append_right _).symm
      simp only [State.send, Function.update_self, List.map_append, List.map_cons, List.map_nil]
      refine (List.perm_append_comm.append_left _).trans ?_
      refine List.perm_middle.trans (.of_eq ?_)
      simp only [tokensFor, PendingEntry.token, ReplicaResponse.token, List.cons_append,
        List.filterMap_cons, if_true]
      rfl
    · have htok := hout.filterMap fun t => if t.1 = o then some t.2 else none
      have hcons := tokensFor_cons_of_ne (Ne.symm ho) (x.entry.replica, x.entry.requestID)
        (s.send k x).outstanding
      have hres : ((s.send k x).responses o).results = (s.responses o).results := by
        simp only [State.send, Function.update_of_ne ho]
      rw [hres]
      exact ((List.Perm.of_eq hcons.symm).trans htok.symm).append_right _
  case remaining =>
    intro o
    rw [hwaits, ← h.remaining o]
    by_cases ho : o = x.entry.operation
    · subst ho
      simp only [State.send, Function.update_self]
    · simp only [State.send, Function.update_of_ne ho]
  case waited =>
    intro o r wait hw
    rw [hwaits] at hw
    exact h.waited o r wait hw
  case sending_removed =>
    intro y hy
    exact h.sending_removed y (List.eraseIdx_subset hy)
  case results_removed =>
    intro o y hy
    by_cases ho : o = x.entry.operation
    · subst ho
      simp only [State.send, Function.update_self, List.mem_append, List.mem_singleton] at hy
      rcases hy with hy | rfl
      · exact h.results_removed _ y hy
      · exact h.sending_removed x (List.mem_of_getElem? hk)
    · simp only [State.send, Function.update_of_ne ho] at hy
      exact h.results_removed o y hy
  case waits_not_delivered =>
    intro o r wait hw
    rw [hwaits] at hw
    exact h.waits_not_delivered o r wait hw
  case kept =>
    intro a ha
    rcases h.kept a ha with hd | ⟨o, wait, hn, hw, hid⟩
    · exact .inl hd
    · exact .inr ⟨o, wait, hn, by rwa [hwaits], hid⟩

end Ledger

namespace Ledger

variable {s : State n} {o : Nat} {own : Owner n}

/-- The channel holds only results that `consume` accepts. -/
theorem head_wait (h : Ledger s) {x : ReplicaResponse n} {rest : List (ReplicaResponse n)}
    (hx : (s.responses o).results = x :: rest) :
    ∃ wait, (s.responses o).waits x.replica = some wait ∧ wait.requestID = x.requestID := by
  refine h.wait_of_token (State.mem_tokens.mpr (.inr (.inr ⟨x, ?_, rfl⟩)))
  rw [hx]
  exact List.mem_cons_self

/-- **A consumed result** takes one token and one wait away, for good. -/
theorem consumed (h : Ledger s) {x : ReplicaResponse n} {rest : List (ReplicaResponse n)}
    {wait : ReplicaWait} {resp : Responses n} (pc : Pc n) (ho : s.owners o = some own)
    (hx : (s.responses o).results = x :: rest)
    (hwait : (s.responses o).waits x.replica = some wait) (hid : wait.requestID = x.requestID)
    (hresults : resp.results = rest)
    (hwaits : resp.waits = Function.update (s.responses o).waits x.replica none)
    (hremaining : resp.remaining = (s.responses o).remaining - 1) :
    Ledger (s.consumed o own resp x pc) := by
  have hnum : (s.consumed o own resp x pc).number = s.number :=
    State.number_update ho { own with pc := pc, received := own.received + 1 } rfl
  have hself : (s.consumed o own resp x pc).responses o = resp := Function.update_self ..
  have hother : ∀ o', o' ≠ o → (s.consumed o own resp x pc).responses o' = s.responses o' :=
    fun o' ho' => Function.update_of_ne ho' ..
  have hclear := waitKeys_clear hwait
  -- a wait that is left is an old one, for another request
  have hleft : ∀ o' r wait', ((s.consumed o own resp x pc).responses o').waits r = some wait' →
      (s.responses o').waits r = some wait' ∧ wait'.requestID ≠ x.requestID := by
    intro o' r wait' hw
    have hold : (s.responses o').waits r = some wait' ∧ (o' ≠ o ∨ r ≠ x.replica) := by
      by_cases ho' : o' = o
      · subst ho'
        rw [hself, hwaits] at hw
        by_cases hr : r = x.replica
        · subst hr
          rw [Function.update_self] at hw
          cases hw
        · rw [Function.update_of_ne hr] at hw
          exact ⟨hw, .inr hr⟩
      · rw [hother o' ho'] at hw
        exact ⟨hw, .inl ho'⟩
    refine ⟨hold.1, fun heq => ?_⟩
    obtain ⟨h1, h2⟩ := h.wait_unique hold.1 hwait (heq.trans hid.symm)
    rcases hold.2 with hne | hne
    · exact hne h1
    · exact hne h2
  obtain ⟨a₀, ha₀, hid₀, _, hn₀⟩ := h.waited _ _ _ hwait
  have hown : s.number o = some own.number := by rw [State.number, ho]; rfl
  refine { h with
    routed := ?routed, remaining := ?remaining, waited := ?waited, number_lt := ?number_lt,
    number_inj := ?number_inj, results_removed := ?results_removed,
    delivered_nodup := ?delivered_nodup, delivered_accepted := ?delivered_accepted,
    delivered_removed := ?delivered_removed, waits_not_delivered := ?waits_not_delivered,
    kept := ?kept }
  case routed =>
    intro o'
    by_cases ho' : o' = o
    · subst ho'
      have hrouted := h.routed o'
      unfold State.tokens at hrouted ⊢
      rw [hx] at hrouted
      rw [hself, hresults, hwaits]
      refine List.Perm.cons_inv (a := (x.replica, wait.requestID)) ?_
      refine List.Perm.trans ?_ (hrouted.trans hclear)
      rw [hid]
      exact List.perm_middle.symm
    · have hrouted := h.routed o'
      unfold State.tokens at hrouted ⊢
      rw [hother o' ho']
      exact hrouted
  case remaining =>
    intro o'
    by_cases ho' : o' = o
    · subst ho'
      rw [hself, hremaining, hwaits, h.remaining, hclear.length_eq, List.length_cons,
        Nat.add_sub_cancel]
    · rw [hother o' ho']
      exact h.remaining o'
  case waited =>
    intro o' r wait' hw
    rw [hnum]
    exact h.waited o' r wait' (hleft o' r wait' hw).1
  case number_lt => rw [hnum]; exact h.number_lt
  case number_inj => rw [hnum]; exact h.number_inj
  case results_removed =>
    intro o' y hy
    by_cases ho' : o' = o
    · subst ho'
      rw [hself, hresults] at hy
      exact h.results_removed o' y (hx ▸ List.mem_cons_of_mem x hy)
    · rw [hother o' ho'] at hy
      exact h.results_removed o' y hy
  case delivered_nodup =>
    refine List.nodup_cons.mpr ⟨?_, h.delivered_nodup⟩
    exact hid ▸ h.waits_not_delivered _ _ _ hwait
  case delivered_accepted =>
    intro d hd
    rcases List.mem_cons.mp hd with rfl | hd
    · exact ⟨a₀, ha₀, hid₀.trans hid, Option.some.inj (hn₀.symm.trans hown)⟩
    · exact h.delivered_accepted d hd
  case delivered_removed =>
    intro d hd
    rcases List.mem_cons.mp hd with rfl | hd
    · exact h.results_removed o x (hx ▸ List.mem_cons_self)
    · exact h.delivered_removed d hd
  case waits_not_delivered =>
    intro o' r wait' hw hmem
    obtain ⟨hw, hne⟩ := hleft o' r wait' hw
    rcases List.mem_cons.mp hmem with heq | hmem
    · exact hne heq
    · exact h.waits_not_delivered o' r wait' hw hmem
  case kept =>
    intro a ha
    rw [hnum]
    rcases h.kept a ha with hd | ⟨o', wait', hn, hw, haid⟩
    · exact .inl (List.mem_cons_of_mem _ hd)
    by_cases heq : wait'.requestID = x.requestID
    · exact .inl (List.mem_cons.mpr (.inl (haid.symm.trans heq)))
    · refine .inr ⟨o', wait', hn, ?_, haid⟩
      by_cases ho' : o' = o
      · subst ho'
        have hr : a.replica ≠ x.replica := fun hr => by
          rw [hr, hwait] at hw
          exact heq (Option.some.inj hw ▸ hid)
        rw [hself, hwaits, Function.update_of_ne hr]
        exact hw
      · rw [hother o' ho']
        exact hw

end Ledger

namespace Ledger

variable {s : State n} {o : Nat} {own : Owner n}

/-- A free object has no waits: nobody owns their requests. -/
theorem free_waits (h : Ledger s) (ho : s.owners o = none) (r : Fin n) :
    (s.responses o).waits r = none := by
  cases hw : (s.responses o).waits r with
  | none => rfl
  | some wait =>
    obtain ⟨a, _, _, _, hn⟩ := h.waited o r wait hw
    rw [State.number, ho] at hn
    cases hn

/-- **A new operation** gets a number of its own. -/
theorem start (h : Ledger s) (ho : s.owners o = none) (hown : own.number = s.nextNumber) :
    Ledger (s.start o own) := by
  have hself : (s.start o own).number o = some s.nextNumber := by
    simp [State.number, State.start, State.setOwner, hown]
  have hother : ∀ o', o' ≠ o → (s.start o own).number o' = s.number o' := fun o' ho' => by
    simp [State.number, State.start, State.setOwner, ho']
  -- the other numbers are below the new one
  have hlt : ∀ o' k, o' ≠ o → (s.start o own).number o' = some k → k < s.nextNumber :=
    fun o' k ho' hk => h.number_lt o' k (hother o' ho' ▸ hk)
  refine h.renumber (.of_responses rfl rfl rfl rfl rfl rfl rfl) ?_ ?_ ?_ (Nat.le_succ _)
  · intro o' r wait hw
    refine hother o' fun heq => ?_
    rw [heq, h.free_waits ho] at hw
    cases hw
  · intro o' k hk
    by_cases ho' : o' = o
    · subst ho'
      exact Option.some.inj (hself.symm.trans hk) ▸ Nat.lt_succ_self _
    · exact (hlt o' k ho' hk).trans (Nat.lt_succ_self _)
  · intro o₁ o₂ k h₁ h₂
    by_cases ho₁ : o₁ = o <;> by_cases ho₂ : o₂ = o
    · exact ho₁.trans ho₂.symm
    · subst ho₁
      exact absurd (hlt o₂ k ho₂ h₂) (Option.some.inj (hself.symm.trans h₁) ▸ Nat.lt_irrefl _)
    · subst ho₂
      exact absurd (hlt o₁ k ho₁ h₁) (Option.some.inj (hself.symm.trans h₂) ▸ Nat.lt_irrefl _)
    · exact h.number_inj o₁ o₂ k (hother o₁ ho₁ ▸ h₁) (hother o₂ ho₂ ▸ h₂)

/-- **An object goes back to the pool** without a wait, so no request of its operation is open. -/
theorem put (h : Ledger s) (hrem : (s.responses o).remaining = 0) : Ledger (s.put o) := by
  have hnone : (s.responses o).waits = fun _ => none := by
    funext r
    exact waitKeys_eq_nil ((h.remaining o).symm.trans hrem) r
  have hresp : ∀ o', ((s.put o).responses o').waits = (s.responses o').waits ∧
      ((s.put o).responses o').results = (s.responses o').results ∧
      ((s.put o).responses o').remaining = (s.responses o').remaining := by
    intro o'
    by_cases ho' : o' = o
    · subst ho'
      simp only [State.put, Function.update_self, hnone, and_self]
    · simp only [State.put, Function.update_of_ne ho', and_self]
  have hnum : ∀ o' k, (s.put o).number o' = some k → s.number o' = some k := by
    intro o' k hk
    by_cases ho' : o' = o
    · subst ho'
      simp [State.number, State.put] at hk
    · simpa only [State.number, State.put, Function.update_of_ne ho'] using hk
  refine h.renumber ⟨rfl, rfl, fun o' => (hresp o').2.1, fun o' => (hresp o').1,
    fun o' => (hresp o').2.2, rfl, rfl, rfl, rfl⟩ ?_ ?_ ?_ (le_refl _)
  · intro o' r wait hw
    have ho' : o' ≠ o := fun heq => by
      rw [heq, hnone] at hw
      cases hw
    simp only [State.number, State.put, Function.update_of_ne ho']
  · exact fun o' k hk => h.number_lt o' k (hnum o' k hk)
  · exact fun o₁ o₂ k h₁ h₂ => h.number_inj o₁ o₂ k (hnum o₁ k h₁) (hnum o₂ k h₂)

end Ledger

end RedLease.Client

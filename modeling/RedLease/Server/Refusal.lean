import Mathlib.Algebra.BigOperators.Fin
import RedLease.Server.Answers

/-!
# Why an Acquire is refused

An Acquire that finds no capacity cleans all shards with the time it read and tries once more. By
then other threads may have removed records without having counted them off: a pass counts its
deletions off at its end, an operation does so inside the lock of its shard. The question is whether
a record that was expired when the pass came by can still be the reason for the answer
`KEY_LIMIT_REACHED`.

`Watch` is a server together with every record that is counted in `keys`, stored or removed, and its
`Trace`: what the pass of the operation that worker `i₀` is at has seen of it.

* `Watch.Inv`: once its shard is examined, a record is excused, whether it is stored or removed;
  only what the pass itself has removed is not, until the pass has counted it off.
* **`Watch.Inv.examined_clear`**: at an examination nobody else owes a record of that shard. This is
  where the locks come in.
* **`Watch.refusal_excused`**: at the failing `reserveKey` of a refused Acquire, every counted
  record had a deadline after `now` when the pass examined its shard, or was inserted or renewed
  since.
-/

namespace RedLease.Server

open Lib LeaseShard

variable {n m : Nat} {cfg : Config} {assign : Nat → Fin n}

section Turns

variable {s s' : State n m} {a : Act n m}

/-! ## The examination of a shard -/

/-- The shard `j` that the pass of this worker examines next, with the time it compares with. -/
def Worker.examining : Worker → Nat → Option Time
  | .cleanup _ (.scan now next _), j => if next = j then some now else none
  | _, _ => none

/-- The examination of shard `j` by the cleanup of worker `i₀` in this step. -/
def State.examines (s : State n m) (i₀ : Fin n) : Act n m → Fin n → Option Time
  | .work i _, j => if i = i₀ then (s.workers i₀).examining j else none
  | _, _ => none

theorem Worker.examining_eq {w : Worker} {j : Nat} {t : Time} (h : w.examining j = some t) :
    ∃ job deleted, w = .cleanup job (.scan t j deleted) := by
  cases w with
  | cleanup job pass =>
    cases pass with
    | scan now next deleted =>
      simp only [Worker.examining] at h
      split_ifs at h with hj
      cases h
      exact ⟨job, deleted, by rw [hj]⟩
    | lock now | load deleted | swap deleted current => cases h
  | _ => cases h

/-- **An examination** takes place outside the lock of the shard, and leaves the live entries. -/
theorem Turn.examined (ht : Turn cfg s s' a) {i₀ j : Fin n} {t : Time}
    (he : s.examines i₀ a j = some t) :
    a.mover = some (.inl i₀) ∧ (∃ job deleted, s.workers i₀ = .cleanup job (.scan t j deleted)) ∧
      (s'.workers i₀).pass ≠ none ∧ s.mu j = false ∧
      s'.shards j = ((s.shards j).removeExpiredLeases t).1 := by
  cases a with
  | work i pool =>
    simp only [State.examines] at he
    split_ifs at he with hi
    subst hi
    obtain ⟨job, deleted, hw⟩ := Worker.examining_eq he
    refine ⟨rfl, ⟨job, deleted, hw⟩, ?_⟩
    cases ht with
    | quiet _ ha => cases ha
    | worker _ _ h hother hcleaners =>
      generalize hnew : s'.workers i = w' at h
      rw [hw] at h
      cases h with
      | held _ _ _ hl => cases hl
      | freed _ _ _ hl => cases hl
      | passed _ _ p' hp =>
        refine ⟨nofun, ?_⟩
        cases hp with
        | scanned _ _ _ _ hfree hshards =>
          refine ⟨hfree, ?_⟩
          rw [hshards]
          exact Function.update_self _ _ _
        | releasing _ _ hin hall => exact absurd j.isLt (not_lt.mpr hall)
      | cleaned _ _ hp =>
        cases hp with
        | left _ hin hall => exact absurd j.isLt (not_lt.mpr hall)
  | _ => cases he

/-- How many shards the cleanup of a worker's operation has behind it. -/
def Worker.reached (n : Nat) (w : Worker) : Nat :=
  if w.job.any Job.cleanupAttempted then n else (w.pass.map (Pass.reached n)).getD 0

theorem Worker.reached_of_job_none {w : Worker} (h : w.job = none) : w.reached n = 0 := by
  cases w <;> first | rfl | cases h

theorem Worker.reached_of_pass_none {w w' : Worker} {job : Job} (hw : w.job = some job)
    (hw' : w'.job = some job) (hp : w'.pass = none) : w'.reached n ≤ w.reached n := by
  unfold Worker.reached
  rw [hw, hw', hp]
  split_ifs
  · exact le_refl n
  · exact Nat.zero_le _

/-- A step of the worker takes its cleanup no further than the shard it examines. -/
theorem WorkerTurn.reached {sh sh' : Shared n} {i : Fin n} {w w' : Worker}
    (h : WorkerTurn cfg sh sh' i w w') {j : Fin n} (hj : j.val < w'.reached n) :
    j.val < w.reached n ∨ ∃ t, w.examining j = some t := by
  cases h with
  | sectioned job _ hmu hshards hother hc howes hw' =>
    rcases hw' with ⟨hl, hjob, -⟩ | ⟨r, rfl⟩
    · exact Or.inl (lt_of_lt_of_le hj
        (Worker.reached_of_pass_none rfl hjob (Worker.pass_of_locked hl)))
    · exact Or.inl hj
  | held _ _ job hl hl' hjob hjob' =>
    exact Or.inl (lt_of_lt_of_le hj
      (Worker.reached_of_pass_none hjob hjob' (Worker.pass_of_locked hl')))
  | freed _ _ job hl hjob hw' =>
    rcases hw' with ⟨r, rfl⟩ | rfl
    · exact Or.inl (lt_of_lt_of_le hj (Worker.reached_of_pass_none hjob rfl rfl))
    · refine Or.inl (lt_of_lt_of_le hj ?_)
      have heq : (Worker.cleanup job (.lock job.now)).reached n = (Worker.lock job).reached n := rfl
      rw [heq]
      exact Worker.reached_of_pass_none hjob rfl rfl
  | inserted job r shard => exact Or.inl hj
  | passed job p p' hp =>
    by_cases hatt : job.cleanupAttempted = true
    · have hn : ∀ q, (Worker.cleanup job q).reached n = n := fun q => if_pos hatt
      rw [hn] at hj ⊢
      exact Or.inl hj
    · have hreached : ∀ q, (Worker.cleanup job q).reached n = q.reached n := fun q => if_neg hatt
      rw [hreached] at hj ⊢
      cases hp with
      | entered now => exact absurd hj (Nat.not_lt_zero _)
      | scanned now next hn deleted =>
        rcases Nat.lt_succ_iff_lt_or_eq.mp hj with hlt | heq
        · exact Or.inl hlt
        · exact Or.inr ⟨now, if_pos heq.symm⟩
      | releasing _ _ hin hall => exact Or.inl (lt_of_lt_of_le j.isLt hall)
  | cleaned job p hp =>
    cases hp with
    | left _ hin hall =>
      refine Or.inl (lt_of_lt_of_le j.isLt ?_)
      unfold Worker.reached
      split_ifs
      · exact le_refl n
      · exact hall

/-- A shard that the cleanup has reached now, it had reached before or examines in this step. -/
theorem step_reached (hs : step cfg assign s a = some s') {i₀ j : Fin n}
    (ha : ∀ now, a ≠ .apply i₀ now) (hj : j.val < (s'.workers i₀).reached n) :
    j.val < (s.workers i₀).reached n ∨ ∃ t, s.examines i₀ a j = some t := by
  have hnone : (s'.workers i₀).job ≠ none := fun hjob => by
    rw [Worker.reached_of_job_none hjob] at hj
    exact Nat.not_lt_zero _ hj
  cases step_worker hs i₀ with
  | still hw => exact Or.inl (hw ▸ hj)
  | moved pool hwork hm =>
    subst hwork
    refine (Worker.step_turn hm).reached hj |>.imp_right fun ⟨t, ht⟩ => ⟨t, ?_⟩
    rw [State.examines, if_pos rfl]
    exact ht
  | dequeued op hw hw' | dropped op hw hw' | admitted op hw hw' => exact absurd (hw' ▸ rfl) hnone
  | applied op now hw hn hw' happly => exact absurd happly (ha now)
  | responded job r hw hw' => exact absurd (hw' ▸ rfl) hnone

/-! ## Removed entries -/

/-- The entries that are stored in `s` and not in `s'`. -/
def gone (s s' : State n m) : List (Fin n × Nat) :=
  (List.finRange n).flatMap fun j =>
    ((s.shards j).leases.keys.filter fun k => ((s'.shards j).view k).isNone).map (j, ·)

theorem mem_gone {j : Fin n} {k : Nat} :
    (j, k) ∈ gone s s' ↔ (s.shards j).view k ≠ none ∧ (s'.shards j).view k = none := by
  unfold gone
  simp [mem_keys_iff]

/-- Where no key appears, the keys that disappear make up the difference of the sizes. -/
theorem LeaseShard.gone_length {shard shard' : LeaseShard}
    (h : ∀ k, shard.view k = none → shard'.view k = none) :
    (shard.leases.keys.filter fun k => (shard'.view k).isNone).length + shard'.size =
      shard.size := by
  have hkeys : shard'.leases.keys.Perm
      (shard.leases.keys.filter fun k => !(shard'.view k).isNone) := by
    refine (List.perm_ext_iff_of_nodup (AList.keys_nodup _)
      ((AList.keys_nodup _).filter _)).mpr fun k => ?_
    rw [mem_keys_iff, List.mem_filter, mem_keys_iff]
    have hk := h k
    cases hv : shard'.view k with
    | none => simp
    | some e =>
      rw [hv] at hk
      simp only [ne_eq, reduceCtorEq, not_false_eq_true, Option.isNone_some, Bool.not_false,
        and_true, true_iff]
      exact fun hnone => nomatch hk hnone
  have hlen := hkeys.length_eq
  have hsplit := List.length_eq_length_filter_add (fun k => (shard'.view k).isNone)
    (l := shard.leases.keys)
  unfold LeaseShard.size
  omega

theorem gone_length (h : ∀ j k, (s.shards j).view k = none → (s'.shards j).view k = none) :
    (gone s s').length + s'.total = s.total := by
  unfold gone Shared.total
  rw [List.length_flatMap, ← Fin.sum_univ_def, ← Finset.sum_add_distrib]
  refine Finset.sum_congr rfl fun j _ => ?_
  rw [List.length_map]
  exact LeaseShard.gone_length (h j)

/-- A step that replaces one shard by a smaller one. -/
theorem gone_length_update {j : Fin n} {shard : LeaseShard}
    (hshards : s'.shards = Function.update s.shards j shard)
    (h : ∀ k, (s.shards j).view k = none → shard.view k = none) :
    (gone s s').length + shard.size = (s.shards j).size := by
  have hnone : ∀ l k, (s.shards l).view k = none → (s'.shards l).view k = none := fun l k hv => by
    rw [hshards]
    by_cases hl : l = j
    · subst hl
      rw [Function.update_self]
      exact h k hv
    · rwa [Function.update_of_ne hl]
  have htotal := gone_length hnone
  have hsum := Family.sum_update LeaseShard.size s.shards j shard
  unfold Shared.total at htotal
  rw [hshards] at htotal
  omega

theorem gone_eq_nil (hshards : s'.shards = s.shards) : gone s s' = [] := by
  refine List.eq_nil_iff_forall_not_mem.mpr fun ⟨j, k⟩ hmem => ?_
  obtain ⟨hv, hv'⟩ := mem_gone.mp hmem
  rw [hshards] at hv'
  exact hv hv'

/-- A pass owes what it removed. -/
theorem PassTurn.debt_eq (hwf : ∀ i, (s.shards i).WF) {p p' : Pass}
    (h : PassTurn s.toShared s'.toShared p (some p')) :
    p'.debt = p.debt + (gone s s').length := by
  cases h with
  | entered now hfree hshards => rw [gone_eq_nil hshards]; rfl
  | scanned now next hn deleted hfree hshards =>
    obtain ⟨-, hview, hsize⟩ := removeExpiredLeases_spec (hwf ⟨next, hn⟩) now
    have hlen := gone_length_update hshards fun k hk => by rw [hview, hk]; rfl
    show deleted + _ = deleted + _
    omega
  | releasing _ _ hin hall hnow hdebt hshards => rw [gone_eq_nil hshards, hdebt]; rfl

/-- A locked section stores nothing new. -/
theorem Effect.absent {maxTTL removed : Nat} {v v' : Nat → Option (LeaseID × Time)}
    {op : Operation} {now : Time} (h : Effect maxTTL v v' op now removed) {k : Nat}
    (hk : v k = none) : v' k = none := by
  cases hv' : v' k with
  | none => rfl
  | some e =>
    rcases h.origin hv' with hv | ⟨d₀, hv, -⟩
    · rw [hk] at hv; cases hv
    · rw [hk] at hv; cases hv

theorem WorkerTurn.owes_eq (hwf : ∀ i, (s.shards i).WF) {i : Fin n} {w w' : Worker}
    (h : WorkerTurn cfg s.toShared s'.toShared i w w') (h0 : w'.owes ≠ 0) :
    w'.owes = w.owes + (gone s s').length := by
  cases h with
  | sectioned job _ hmu hshards hother hc howes hw' =>
    obtain ⟨-, hsize, heff⟩ := lockedSection_spec cfg.maxTTL job.op job.now (hwf i)
    have hlen := gone_length_update hshards fun k hk => heff.absent hk
    obtain ⟨hone, hremoved⟩ := howes h0
    have hcases := heff.removed_cases
    show w'.owes = 0 + _
    omega
  | held _ _ job hl hl' hjob hjob' hshards hmu hc howes =>
    rw [gone_eq_nil hshards, howes h0]
    rfl
  | freed _ _ job hl hjob hw' =>
    rcases hw' with ⟨r, rfl⟩ | rfl
    · exact absurd rfl h0
    · exact absurd rfl h0
  | inserted job r shard => exact absurd rfl h0
  | passed job p p' hp => exact hp.debt_eq hwf
  | cleaned job p hp => exact absurd rfl h0

/-- **A thread owes what it removed**, from the removal until it has counted it off. -/
theorem Turn.owes_moved (hwf : ∀ i, (s.shards i).WF) (ht : Turn cfg s s' a) {x : Thread n m}
    (hx : a.mover = some x) (h0 : s'.owes x ≠ 0) :
    s'.owes x = s.owes x + (gone s s').length := by
  cases ht with
  | quiet _ ha => rw [ha] at hx; cases hx
  | worker i pool hw hother hcleaners =>
    cases hx
    exact hw.owes_eq hwf h0
  | cleaner j p p' hc hc' hp hworkers hother =>
    cases hx
    change (s'.cleaners j).debt ≠ 0 at h0
    show (s'.cleaners j).debt = (s.cleaners j).debt + _
    rw [hc'] at h0 ⊢
    rw [hc]
    cases p' with
    | none => exact absurd rfl h0
    | some p' => exact hp.debt_eq hwf

/-- A worker that holds the lock of its shard has held it before, or has just taken it and changed
no other shard. -/
theorem Turn.locked_cases (ht : Turn cfg s s' a) {i : Fin n} (hi : a.mover = some (.inl i))
    (hl : (s'.workers i).locked = true) :
    (s.workers i).locked = true ∧ s'.shards = s.shards ∨
      (s.workers i).owes = 0 ∧ ∀ j, j ≠ i → s'.shards j = s.shards j := by
  cases ht with
  | quiet _ ha => rw [ha] at hi; cases hi
  | cleaner => cases hi
  | worker i pool hw hother hcleaners =>
    cases hi
    generalize hold : s.workers i = w at hw
    generalize hnew : s'.workers i = w' at hw hl
    cases hw with
    | sectioned job _ hmu hshards =>
      exact Or.inr ⟨rfl, fun j hj => by rw [hshards, Function.update_of_ne hj]⟩
    | held _ _ job hl₀ hl' hjob hjob' hshards => exact Or.inl ⟨hl₀, hshards⟩
    | freed _ _ job hl₀ hjob hw' =>
      rcases hw' with ⟨r, rfl⟩ | rfl
      · cases hl
      · cases hl
    | inserted job r shard | passed job p p' hp | cleaned job p hp => cases hl

/-- A worker that owes something outside a pass was outside it before. -/
theorem Turn.pass_none (ht : Turn cfg s s' a) {i : Fin n} (hp : (s'.workers i).pass = none)
    (h0 : a.mover = some (.inl i) → (s'.workers i).owes ≠ 0) : (s.workers i).pass = none := by
  by_cases hi : a.mover = some (.inl i)
  · cases ht with
    | quiet _ ha => rw [ha] at hi; cases hi
    | cleaner => cases hi
    | worker i pool hw hother hcleaners =>
      cases hi
      specialize h0 rfl
      generalize hold : s.workers i = w at hw
      generalize hnew : s'.workers i = w' at hw hp h0
      cases hw with
      | sectioned => rfl
      | held _ _ _ hl | freed _ _ _ hl => exact Worker.pass_of_locked hl
      | inserted => rfl
      | passed job p p' => cases hp
      | cleaned job p => exact absurd rfl h0
  · rcases ht.worker_still hi with hw | ⟨hw, -⟩
    · rw [← hw]; exact hp
    · exact (Worker.aside_facts hw).2.1

/-- The pass of a worker compares with the time of its operation. -/
def Worker.Timely (w : Worker) : Prop :=
  ∀ job pass t, w = .cleanup job pass → pass.now = some t → t = job.now

theorem WorkerTurn.timely {sh sh' : Shared n} {i : Fin n} {w w' : Worker}
    (h : WorkerTurn cfg sh sh' i w w') (ht : w.Timely) : w'.Timely := by
  rintro job pass t rfl hnow
  cases h with
  | sectioned _ _ _ _ _ _ _ hw' =>
    rcases hw' with ⟨hl, -⟩ | ⟨r, hr⟩
    · cases hl
    · cases hr
  | held _ _ _ _ hl' => cases hl'
  | freed _ _ _ _ _ hw' =>
    rcases hw' with ⟨r, hr⟩ | hp
    · cases hr
    · cases hp
      exact (Option.some.inj hnow).symm
  | passed _ p _ hp =>
    cases hp with
    | entered now => exact ht job _ t rfl hnow
    | scanned now next hn deleted => exact ht job (.scan now next deleted) t rfl hnow
    | releasing _ _ _ _ hnone => rw [hnone] at hnow; cases hnow

theorem Turn.timely (ht : Turn cfg s s' a) {i : Fin n} (h : (s.workers i).Timely) :
    (s'.workers i).Timely := by
  by_cases hi : a.mover = some (.inl i)
  · cases ht with
    | quiet _ ha => rw [ha] at hi; cases hi
    | cleaner => cases hi
    | worker i pool hw hother hcleaners =>
      cases hi
      exact hw.timely h
  · rcases ht.worker_still hi with hw | ⟨-, hw⟩
    · rw [hw]; exact h
    · intro job pass t heq
      rw [heq] at hw
      cases hw

end Turns

/-! ## Where a record stands with a cleanup -/

/-- What the cleanup pass of an Acquire has to do with a record: it has not reached its shard; it
found it there expired, or with a deadline in the future; or the record was inserted or renewed
after that. -/
inductive Trace where
  | unseen
  | expired
  | live (deadline : Time)
  | touched
  deriving DecidableEq

/-- The record is no fault of a cleanup with time `now`. -/
def Trace.Excused (now : Time) : Trace → Prop
  | .live deadline => now < deadline
  | .touched => True
  | _ => False

instance (now : Time) : (trace : Trace) → Decidable (trace.Excused now)
  | .live deadline => inferInstanceAs (Decidable (now < deadline))
  | .touched => .isTrue trivial
  | .unseen | .expired => .isFalse id

/-- What a pass with time `now` sees of an entry. -/
def examination (now : Time) : Option (LeaseID × Time) → Trace
  | some (_, deadline) => if now < deadline then .live deadline else .expired
  | none => .unseen

/-- A record that was removed from a shard. -/
structure Record (n : Nat) where
  shard : Fin n
  key : Nat
  trace : Trace

/-- A server with the records counted in `keys` and where they stand with the cleanup of the
operation that worker `i₀` is at: which shards its pass has examined, the stored records, and those
that each thread has removed and not yet counted off. -/
structure Watch (n m : Nat) where
  server : State n m
  examined : Fin n → Bool
  trace : Fin n → Nat → Trace
  owed : Thread n m → List (Record n)

/-- The operation that worker `i₀` is at begins. -/
def Act.begins (i₀ : Fin n) : Act n m → Bool
  | .apply i _ => i = i₀
  | _ => false

namespace Watch

/-- Nothing has been examined. -/
def init (n m : Nat) (t₀ : Time) : Watch n m where
  server := State.init n m t₀
  examined _ := false
  trace _ _ := .unseen
  owed _ := []

/-- A new operation has examined nothing. -/
def restart (w : Watch n m) (s' : State n m) : Watch n m where
  server := s'
  examined _ := false
  trace _ _ := .unseen
  owed x := (w.owed x).map fun r => { r with trace := .unseen }

section Observe

variable (i₀ : Fin n) (w : Watch n m) (a : Act n m) (s' : State n m)

/-- The shards examined after the step. -/
def examinedNext (j : Fin n) : Bool := w.examined j || (w.server.examines i₀ a j).isSome

/-- The trace of a stored record, with the examination of this step. -/
def seen (j : Fin n) (k : Nat) : Trace :=
  match w.server.examines i₀ a j with
  | some now => examination now ((w.server.shards j).view k)
  | none => w.trace j k

/-- The step goes on with the operation: an entry that changes was inserted or renewed, and what
disappears is owed by the thread that moves, until it has counted it off. -/
def observe : Watch n m where
  server := s'
  examined := w.examinedNext i₀ a
  trace j k :=
    if (s'.shards j).view k = (w.server.shards j).view k then w.seen i₀ a j k
    else if w.examinedNext i₀ a j then .touched else .unseen
  owed x :=
    if a.mover = some x then
      if s'.owes x = 0 then []
      else w.owed x ++ (gone w.server s').map fun (j, k) => ⟨j, k, w.seen i₀ a j k⟩
    else w.owed x

end Observe

/-- A step of the server, observed. -/
def step (cfg : Config) (assign : Nat → Fin n) (i₀ : Fin n) (w : Watch n m) (a : Act n m) :
    Option (Watch n m) :=
  (Server.step cfg assign w.server a).map fun s' =>
    if a.begins i₀ then w.restart s' else w.observe i₀ a s'

/-- What holds at every instant for the operation of worker `i₀`. -/
structure Inv (i₀ : Fin n) (w : Watch n m) : Prop where
  locks : Locks w.server
  timely : (w.server.workers i₀).Timely
  examined : ∀ j : Fin n, j.val < (w.server.workers i₀).reached n → w.examined j = true
  /-- Once its shard is examined, a stored record is excused. -/
  stored : ∀ job, (w.server.workers i₀).job = some job → ∀ j k, w.examined j = true →
    (w.server.shards j).view k ≠ none → (w.trace j k).Excused job.now
  /-- So is a removed record, apart from what the pass itself has removed and will count off. -/
  owed : ∀ job, (w.server.workers i₀).job = some job → ∀ x,
    (x = .inl i₀ → (w.server.workers i₀).pass = none) → ∀ r ∈ w.owed x,
      w.examined r.shard = true → r.trace.Excused job.now
  /-- A worker that owes a record and is not in a pass holds the lock of the record's shard. -/
  home : ∀ i, (w.server.workers i).locked = true → ∀ r ∈ w.owed (.inl i), r.shard = i
  length : ∀ x, (w.owed x).length = w.server.owes x

theorem inv_init (i₀ : Fin n) (t₀ : Time) : Inv i₀ (Watch.init n m t₀) where
  locks := locks_init t₀
  timely := nofun
  examined _ := nofun
  stored _ := nofun
  owed _ := nofun
  home _ := nofun
  length x := by cases x <;> rfl

section Step

variable {i₀ : Fin n} {w : Watch n m} {s' : State n m} {a : Act n m}

/-- With a new operation everything starts over. -/
theorem Inv.restart (h : Inv i₀ w) (hs : Server.step cfg assign w.server a = some s')
    (ha : a.begins i₀ = true) : Inv i₀ (w.restart s') := by
  have ht := step_turn hs
  have hmover : a.mover = none := by
    cases a <;> first | rfl | cases ha
  obtain ⟨op, now, hw'⟩ : ∃ op now, s'.workers i₀ = .lock ⟨op, now, false⟩ := by
    cases a with
    | apply i now =>
      cases of_decide_eq_true ha
      simp only [Server.step] at hs
      split at hs
      · rename_i op hw
        split_ifs at hs
        cases hs
        exact ⟨op, now, Function.update_self _ _ _⟩
      · cases hs
    | _ => cases ha
  constructor
  · exact h.locks.after_turn ht
  · exact ht.timely h.timely
  · intro j hj
    change j.val < (s'.workers i₀).reached n at hj
    rw [hw'] at hj
    exact absurd hj (Nat.not_lt_zero _)
  · exact fun job hjob j k => (by rintro ⟨⟩)
  · exact fun job hjob x hx r hr => (by rintro ⟨⟩)
  · intro i hl r hr
    change (s'.workers i).locked = true at hl
    obtain ⟨r₀, hr₀, rfl⟩ := List.mem_map.mp hr
    rcases ht.worker_still (i := i) (by rw [hmover]; rintro ⟨⟩) with hw | ⟨-, hw⟩
    · exact h.home i (hw ▸ hl) r₀ hr₀
    · rw [(Worker.aside_facts hw).1] at hl
      cases hl
  · intro x
    show ((w.owed x).map _).length = s'.owes x
    rw [List.length_map, h.length, ht.owes_still (by rw [hmover]; rintro ⟨⟩)]

theorem Inv.observe_stored (h : Inv i₀ w) (hwf : ∀ i, (w.server.shards i).WF)
    (ht : Turn cfg w.server s' a) {job : Job} (hjob : (w.server.workers i₀).job = some job)
    {j : Fin n} {k : Nat} (hj : w.examinedNext i₀ a j = true) (hk : (s'.shards j).view k ≠ none) :
    ((w.observe i₀ a s').trace j k).Excused job.now := by
  show Trace.Excused job.now (if _ then _ else _)
  split_ifs with hview
  · unfold seen
    cases he : w.server.examines i₀ a j with
    | none =>
      rw [examinedNext, he, Option.isSome_none, Bool.or_false] at hj
      exact h.stored job hjob j k hj (hview ▸ hk)
    | some t =>
      -- the entry has been examined in this step and is still there
      obtain ⟨-, ⟨job', deleted, hw⟩, -, -, hshard⟩ := ht.examined he
      have hnow : t = job'.now := h.timely _ _ _ hw rfl
      rw [hw] at hjob
      cases hjob
      have hlive : (s'.shards j).view k = liveAt t ((w.server.shards j).view k) := by
        rw [hshard]
        exact (removeExpiredLeases_spec (hwf j) t).2.1 k
      cases hv : (w.server.shards j).view k with
      | none => rw [hview, hv] at hk; exact absurd rfl hk
      | some e =>
        obtain ⟨id, d⟩ := e
        rw [hview, hv, liveAt_some] at hlive
        split_ifs at hlive with hd
        show Trace.Excused job.now (if t < d then _ else _)
        rw [if_pos hd, ← hnow]
        exact hd
  · trivial

/-- **Nobody else has a record of the shard that is examined**: its lock is free, and no other pass
is under way. -/
theorem Inv.examined_clear (h : Inv i₀ w) (ht : Turn cfg w.server s' a) {j : Fin n} {t : Time}
    (he : w.server.examines i₀ a j = some t) {x : Thread n m} (hx : x ≠ .inl i₀) {r : Record n}
    (hr : r ∈ w.owed x) : r.shard ≠ j := by
  obtain ⟨-, ⟨job, deleted, hw⟩, -, hfree, -⟩ := ht.examined he
  have howes : w.server.owes x ≠ 0 := by
    rw [← h.length x]
    exact Nat.ne_of_gt (List.length_pos_of_mem hr)
  rcases State.owes_cases howes with ⟨i, rfl, hl⟩ | hclean
  · intro hj
    have hi := h.home i hl r hr
    have hmu := h.locks.mu i hl
    rw [← hi, hj, hfree] at hmu
    cases hmu
  · refine absurd (h.locks.one x (.inl i₀) hclean ?_) hx
    rw [State.cleaning_inl, hw]
    rfl

theorem Inv.observe_owed (h : Inv i₀ w) (ht : Turn cfg w.server s' a) {job : Job}
    (hjob : (w.server.workers i₀).job = some job) {x : Thread n m}
    (hx : x = .inl i₀ → (s'.workers i₀).pass = none) {r : Record n}
    (hr : r ∈ (w.observe i₀ a s').owed x) (hj : w.examinedNext i₀ a r.shard = true) :
    r.trace.Excused job.now := by
  change r ∈ (if _ then _ else _) at hr
  by_cases hmover : a.mover = some x
  · rw [if_pos hmover] at hr
    split_ifs at hr with h0
    · cases hr
    · -- the thread that moves is not the pass of the operation, which would still be under way
      have hnone : ∀ j, w.server.examines i₀ a j = none := fun j => by
        by_contra hsome
        obtain ⟨t, he⟩ := Option.ne_none_iff_exists'.mp hsome
        obtain ⟨hm, -, hp, -⟩ := ht.examined he
        rw [hmover] at hm
        exact hp (hx (Option.some.inj hm))
      rw [examinedNext, hnone, Option.isSome_none, Bool.or_false] at hj
      rcases List.mem_append.mp hr with hold | hnew
      · refine h.owed job hjob x (fun hi => ht.pass_none (hx hi) fun _ => ?_) r hold hj
        subst hi
        exact h0
      · obtain ⟨⟨j, k⟩, hgone, rfl⟩ := List.mem_map.mp hnew
        have htrace : w.seen i₀ a j k = w.trace j k := by rw [seen, hnone]
        show (w.seen i₀ a j k).Excused job.now
        rw [htrace]
        exact h.stored job hjob j k hj (mem_gone.mp hgone).1
  · rw [if_neg hmover] at hr
    have hx₀ : x = .inl i₀ → (w.server.workers i₀).pass = none := fun hi =>
      ht.pass_none (hx hi) fun hm => absurd (hi ▸ hm) hmover
    cases he : w.server.examines i₀ a r.shard with
    | none =>
      rw [examinedNext, he, Option.isSome_none, Bool.or_false] at hj
      exact h.owed job hjob x hx₀ r hr hj
    | some t =>
      have hne : x ≠ .inl i₀ := fun hi => hmover (hi ▸ (ht.examined he).1)
      exact absurd rfl (h.examined_clear ht he hne hr)

theorem Inv.observe_home (h : Inv i₀ w) (ht : Turn cfg w.server s' a) {i : Fin n}
    (hl : (s'.workers i).locked = true) {r : Record n}
    (hr : r ∈ (w.observe i₀ a s').owed (.inl i)) : r.shard = i := by
  change r ∈ (if _ then _ else _) at hr
  by_cases hmover : a.mover = some (.inl i)
  · rw [if_pos hmover] at hr
    split_ifs at hr
    · cases hr
    · rcases ht.locked_cases hmover hl with ⟨hl₀, hshards⟩ | ⟨h0, hother⟩
      · rw [gone_eq_nil hshards, List.map_nil, List.append_nil] at hr
        exact h.home i hl₀ r hr
      · have hnil : w.owed (.inl i) = [] := List.length_eq_zero_iff.mp ((h.length _).trans h0)
        rw [hnil, List.nil_append] at hr
        obtain ⟨⟨j, k⟩, hgone, rfl⟩ := List.mem_map.mp hr
        obtain ⟨hv, hv'⟩ := mem_gone.mp hgone
        by_contra hj
        rw [hother j hj] at hv'
        exact hv hv'
  · rw [if_neg hmover] at hr
    rcases ht.worker_still hmover with hw | ⟨-, hw⟩
    · exact h.home i (hw ▸ hl) r hr
    · rw [(Worker.aside_facts hw).1] at hl
      cases hl

theorem Inv.observe_length (h : Inv i₀ w) (hwf : ∀ i, (w.server.shards i).WF)
    (ht : Turn cfg w.server s' a) (x : Thread n m) :
    ((w.observe i₀ a s').owed x).length = s'.owes x := by
  show (if _ then _ else _ : List (Record n)).length = _
  by_cases hmover : a.mover = some x
  · rw [if_pos hmover]
    split_ifs with h0
    · exact h0.symm
    · rw [List.length_append, List.length_map, h.length, ht.owes_moved hwf hmover h0]
  · rw [if_neg hmover, h.length, ht.owes_still hmover]

/-- **Every step of the server keeps the records accounted for.** -/
theorem Inv.after_step (h : Inv i₀ w) (hi : Server.Inv cfg assign w.server) {w' : Watch n m}
    (hs : step cfg assign i₀ w a = some w') : Inv i₀ w' := by
  obtain ⟨s', hs', rfl⟩ := Option.map_eq_some_iff.mp hs
  have ht := step_turn hs'
  split_ifs with hbegins
  · exact h.restart hs' hbegins
  · have happly : ∀ now, a ≠ .apply i₀ now := by
      rintro now rfl
      exact hbegins (decide_eq_true rfl)
    have hjob₀ : ∀ job, (s'.workers i₀).job = some job →
        ∃ job₀, (w.server.workers i₀).job = some job₀ ∧ job₀.now = job.now := fun job hjob => by
      rcases step_job hs' hjob with ⟨job₀, hjob₀, -, hnow⟩ | ⟨ha, -⟩
      · exact ⟨job₀, hjob₀, hnow⟩
      · exact absurd ha (happly _)
    constructor
    · exact h.locks.after_turn ht
    · exact ht.timely h.timely
    · intro j hj
      show (_ || _) = true
      rcases step_reached hs' happly hj with hold | ⟨t, he⟩
      · rw [h.examined j hold]; rfl
      · rw [he]; exact Bool.or_true _
    · intro job hjob j k hj hk
      obtain ⟨job₀, hj₀, hnow⟩ := hjob₀ job hjob
      rw [← hnow]
      exact h.observe_stored hi.wf ht hj₀ hj hk
    · intro job hjob x hx r hr hj
      obtain ⟨job₀, hj₀, hnow⟩ := hjob₀ job hjob
      rw [← hnow]
      exact h.observe_owed ht hj₀ hx hr hj
    · exact fun i hl r hr => h.observe_home ht hl hr
    · exact h.observe_length hi.wf ht

end Step

end Watch

/-! ## The refusal -/

/-- A response that waits for the release of a removed entry is no refusal. -/
def Worker.Unrefused : Worker → Prop
  | .releaseLoad _ response | .releaseSwap _ response _ =>
    ∀ r, response = some r → r.status ≠ LeaseStatus.keyLimitReached
  | _ => True

/-- A locked section refuses nothing for want of capacity. -/
theorem lockedSection_status {maxTTL : Nat} {shard : LeaseShard} {op : Operation} {now : Time}
    {r : Response} (h : (lockedSection maxTTL shard op now).reply = some r) :
    r.status ≠ LeaseStatus.keyLimitReached := by
  have hacquire : ∀ {id ttl : Nat} {status : LeaseStatus}, status ≠ LeaseStatus.keyLimitReached →
      (acquireResponse id status ttl).status ≠ LeaseStatus.keyLimitReached := id
  have hrenew : ∀ {id ttl : Nat} {status : LeaseStatus}, status ≠ LeaseStatus.keyLimitReached →
      (renewResponse id status ttl).status ≠ LeaseStatus.keyLimitReached := id
  have hrelease : ∀ {id : Nat} {status : LeaseStatus}, status ≠ LeaseStatus.keyLimitReached →
      (releaseResponse id status).status ≠ LeaseStatus.keyLimitReached := id
  unfold lockedSection at h
  cases hkind : op.kind with
  | acquire =>
    rw [hkind] at h
    rcases acquireHead_cases shard maxTTL op now with
      ⟨d, -, -, heq⟩ | ⟨_, d, -, -, -, heq⟩ | ⟨_, d, p, -, -, -, heq⟩ | ⟨-, heq⟩
    all_goals simp only [heq] at h; cases h
    · exact hacquire (by decide)
    · exact hacquire (by decide)
  | renew =>
    rw [hkind] at h
    rcases renewBody_cases shard maxTTL op now with
      ⟨-, heq⟩ | ⟨_, d, p, -, -, -, heq⟩ | ⟨_, d, -, -, -, heq⟩ |
      ⟨d, p, -, -, -, -, heq⟩ | ⟨d, -, -, -, heq⟩
    all_goals
      simp only [heq] at h
      cases h
      exact hrenew (by decide)
  | release =>
    rw [hkind] at h
    rcases releaseBody_cases shard op now with
      ⟨-, heq⟩ | ⟨_, d, p, -, -, -, heq⟩ | ⟨_, d, -, -, -, heq⟩
    all_goals
      simp only [heq] at h
      cases h
      exact hrelease (by decide)

/-- What follows a section is no refusal. -/
theorem proceed_refusal {sh sh' : Shared n} {i : Fin n} {job : Job} {response : Option Response}
    {w' : Worker} (hr : ∀ r, response = some r → r.status ≠ LeaseStatus.keyLimitReached)
    (h : proceed cfg sh i job response = (sh', w')) :
    w'.Unrefused ∧ ∀ job' r, w' = .reply job' r → r.status ≠ LeaseStatus.keyLimitReached := by
  cases response with
  | some r =>
    cases h
    refine ⟨trivial, ?_⟩
    rintro job' r' ⟨⟩
    exact hr r rfl
  | none =>
    unfold proceed at h
    dsimp only at h
    split_ifs at h
    · cases h
      refine ⟨trivial, ?_⟩
      rintro job' r' ⟨⟩
      show LeaseStatus.ok ≠ LeaseStatus.keyLimitReached
      decide
    · cases h
      exact ⟨trivial, nofun⟩

/-- **The one refusal for want of capacity** is a failing `reserveKey` after the cleanup. -/
theorem Worker.step_refusal {sh sh' : Shared n} {i : Fin n} {w w' : Worker} {pool : PoolGet}
    (hu : w.Unrefused) (h : w.step cfg sh i pool = some (sh', w')) :
    w'.Unrefused ∧ ∀ job r, w' = .reply job r → r.status = LeaseStatus.keyLimitReached →
      w = .reserveLoad job ∧ job.cleanupAttempted = true ∧ cfg.maxKeys ≤ sh.keys := by
  have hproceed : ∀ {sh₁ : Shared n} {job : Job} {response : Option Response},
      (∀ r, response = some r → r.status ≠ LeaseStatus.keyLimitReached) →
      some (proceed cfg sh₁ i job response) = some (sh', w') →
      w'.Unrefused ∧ ∀ job r, w' = .reply job r → r.status = LeaseStatus.keyLimitReached →
        w = .reserveLoad job ∧ job.cleanupAttempted = true ∧ cfg.maxKeys ≤ sh.keys :=
    fun hr heq => by
      obtain ⟨h1, h2⟩ := proceed_refusal hr (Option.some.inj heq)
      exact ⟨h1, fun job r hw hlimit => absurd hlimit (h2 job r hw)⟩
  cases w with
  | idle | dequeued op | admitted op | reply job response => cases h
  | lock job =>
    simp only [Worker.step] at h
    split_ifs at h
    · exact hproceed (fun r hr => lockedSection_status hr) h
    · cases h
      exact ⟨fun r hr => lockedSection_status hr, by rintro _ _ ⟨⟩⟩
  | releaseLoad job response =>
    simp only [Worker.step] at h
    split at h
    · cases h
      exact ⟨hu, by rintro _ _ ⟨⟩⟩
    · exact hproceed hu h
  | releaseSwap job response current =>
    simp only [Worker.step] at h
    split at h
    · exact hproceed hu h
    · cases h
      exact ⟨hu, by rintro _ _ ⟨⟩⟩
  | reserveLoad job =>
    simp only [Worker.step] at h
    split_ifs at h with hfull hatt
    · cases h
      refine ⟨trivial, ?_⟩
      rintro job' r ⟨⟩ -
      exact ⟨rfl, hatt, hfull⟩
    · cases h
      exact ⟨trivial, by rintro _ _ ⟨⟩⟩
    · cases h
      exact ⟨trivial, by rintro _ _ ⟨⟩⟩
  | reserveSwap job current =>
    simp only [Worker.step] at h
    split_ifs at h
    all_goals cases h; exact ⟨trivial, by rintro _ _ ⟨⟩⟩
  | insert job =>
    simp only [Worker.step] at h
    cases h
    refine ⟨trivial, ?_⟩
    rintro job' r ⟨⟩ hlimit
    cases (show LeaseStatus.ok = LeaseStatus.keyLimitReached from hlimit)
  | cleanup job pass =>
    simp only [Worker.step] at h
    split at h
    · cases h; exact ⟨trivial, by rintro _ _ ⟨⟩⟩
    · cases h; exact ⟨trivial, by rintro _ _ ⟨⟩⟩
    · cases h

/-- A step of a worker is a step of `Worker.step`. -/
theorem worker_of_work {s s' : State n m} {i : Fin n} {pool : PoolGet}
    (hs : step cfg assign s (.work i pool) = some s') :
    (s.workers i).step cfg s.toShared i pool = some (s'.toShared, s'.workers i) := by
  simp only [step] at hs
  cases hw : (s.workers i).step cfg s.toShared i pool with
  | none => rw [hw] at hs; cases hs
  | some r =>
    obtain ⟨sh, w⟩ := r
    rw [hw] at hs
    cases hs
    show some (sh, w) = some (sh, Function.update s.workers i w i)
    rw [Function.update_self]

theorem step_unrefused {s s' : State n m} {a : Act n m} (h : ∀ i, (s.workers i).Unrefused)
    (hs : step cfg assign s a = some s') (i : Fin n) : (s'.workers i).Unrefused := by
  cases step_worker hs i with
  | still hw ha => rw [hw]; exact h i
  | moved pool ha hm => exact (Worker.step_refusal (h i) hm).1
  | dequeued op hw hw' | dropped op hw hw' | admitted op hw hw' | applied op now hw hn hw'
  | responded job r hw hw' => rw [hw']; trivial

namespace Watch

/-- What holds of an observed server in every reachable state. -/
theorem inv_of_exec {i₀ : Fin n} {t₀ : Time} {acts : List (Act n m)} {w : Watch n m}
    (h : Trans.exec (step cfg assign i₀) (init n m t₀) acts = some w) :
    Server.Inv cfg assign w.server ∧ Inv i₀ w ∧ ∀ i, (w.server.workers i).Unrefused := by
  refine Trans.exec_invariant (I := fun w : Watch n m => Server.Inv cfg assign w.server ∧ Inv i₀ w ∧
    ∀ i, (w.server.workers i).Unrefused) ?_ ?_ h
  · rintro w a w' ⟨hi, hw, hu⟩ hs
    obtain ⟨s', hs', heq⟩ := Option.map_eq_some_iff.mp hs
    have hserver : w'.server = s' := by
      rw [← heq]
      split_ifs
      · rfl
      · rfl
    rw [hserver]
    exact ⟨(step_sound hi hs').1, hw.after_step hi hs, step_unrefused hu hs'⟩
  · exact ⟨Server.inv_init cfg assign t₀, inv_init i₀ t₀, fun _ => trivial⟩

/-- What a refusal for want of capacity says about the server at the failing `reserveKey`. -/
structure Refused (cfg : Config) (i₀ : Fin n) (w : Watch n m) (job : Job) : Prop where
  /-- It is the second `reserveKey` of the Acquire, and the capacity is full. -/
  second : w.server.workers i₀ = .reserveLoad job ∧ job.cleanupAttempted = true
  full : cfg.maxKeys ≤ w.server.keys
  /-- The counter counts the stored records, the removed ones that are not counted off yet, and the
  reservations of Acquires that are about to store. -/
  counted : w.server.keys = w.server.total + ∑ x, (w.owed x).length +
    ∑ i, (w.server.workers i).reserves
  /-- The pass of the Acquire has examined every shard. -/
  examined : ∀ j, w.examined j = true
  stored : ∀ j k, (w.server.shards j).view k ≠ none → (w.trace j k).Excused job.now
  /-- The Acquire itself owes nothing, and the others only what is excused. -/
  paid : w.owed (.inl i₀) = []
  owed : ∀ x, ∀ r ∈ w.owed x, r.trace.Excused job.now

theorem Inv.keys_eq {i₀ : Fin n} {w : Watch n m} (h : Inv i₀ w)
    (hi : Server.Inv cfg assign w.server) :
    w.server.keys = w.server.total + ∑ x, (w.owed x).length +
      ∑ i, (w.server.workers i).reserves := by
  have hdebt : ∀ i, (w.server.workers i).debt =
      (w.server.workers i).owes + (w.server.workers i).reserves := fun i => by
    cases w.server.workers i <;> rfl
  have howed : ∑ x, (w.owed x).length =
      ∑ i, (w.server.workers i).owes + ∑ j, (w.server.cleaners j).debt := by
    simp only [h.length, Fintype.sum_sum_type]
    rfl
  have hbalance := hi.balance
  simp only [hdebt, Finset.sum_add_distrib] at hbalance
  omega

/-- **The cleanup before a refusal is effective**, for any number of shards and passes, any
operations and any interleaving. -/
theorem refusal_excused (cfg : Config) (assign : Nat → Fin n) (t₀ : Time) (i₀ : Fin n)
    (acts : List (Act n m)) {w w' : Watch n m}
    (h : Trans.exec (step cfg assign i₀) (init n m t₀) acts = some w) (pool : PoolGet)
    (hs : step cfg assign i₀ w (.work i₀ pool) = some w') {job : Job} {r : Response}
    (hr : w'.server.workers i₀ = .reply job r) (hlimit : r.status = LeaseStatus.keyLimitReached) :
    Refused cfg i₀ w job := by
  obtain ⟨hi, hw, hu⟩ := inv_of_exec h
  obtain ⟨s', hs', rfl⟩ := Option.map_eq_some_iff.mp hs
  change s'.workers i₀ = _ at hr
  obtain ⟨hreserve, hatt, hfull⟩ :=
    (Worker.step_refusal (hu i₀) (worker_of_work hs')).2 job r hr hlimit
  have hjob : (w.server.workers i₀).job = some job := by rw [hreserve]; rfl
  have hexamined : ∀ j, w.examined j = true := fun j => hw.examined j (by
    rw [hreserve]
    show j.val < if job.cleanupAttempted = true then n else 0
    rw [if_pos hatt]
    exact j.isLt)
  exact {
    second := ⟨hreserve, hatt⟩
    full := hfull
    counted := hw.keys_eq hi
    examined := hexamined
    stored := fun j k => hw.stored job hjob j k (hexamined j)
    paid := by
      refine List.length_eq_zero_iff.mp ((hw.length _).trans ?_)
      show (w.server.workers i₀).owes = 0
      rw [hreserve]
      rfl
    owed := fun x r' hr' => hw.owed job hjob x (fun _ => by rw [hreserve]; rfl) r' hr'
      (hexamined r'.shard) }

/-- Key 0 has expired when an Acquire of key 1 finds the capacity full and cleans up. In the room it
makes, key 2 is acquired and released, and the release is not counted off yet when the Acquire of
key 1 tries again. -/
def overtakenActs : List (Act 2 1) :=
  [.activate, .dequeue 0 ⟨1, .acquire, 0, ⟨1, 1, 0⟩, 2, 0⟩, .check 0, .apply 0 0, .work 0 .fresh,
    .work 0 .fresh, .work 0 .fresh, .work 0 .fresh, .respond 0, .tick 2000000,
    .dequeue 1 ⟨2, .acquire, 1, ⟨1, 1, 1⟩, 2, 0⟩, .check 1, .apply 1 2000000, .work 1 .fresh,
    .work 1 .fresh, .work 1 .fresh, .work 1 .fresh, .work 1 .fresh, .work 1 .fresh, .work 1 .fresh,
    .work 1 .fresh, .dequeue 0 ⟨3, .acquire, 2, ⟨1, 1, 2⟩, 2, 0⟩, .check 0, .apply 0 2000000,
    .work 0 .fresh, .work 0 .fresh, .work 0 .fresh, .work 0 .fresh, .respond 0,
    .dequeue 0 ⟨4, .release, 2, ⟨1, 1, 2⟩, 0, 0⟩, .check 0, .apply 0 2000000, .work 0 .fresh,
    .work 1 .fresh]

theorem refusal_excused_overtakenActs :
    ∃ w, Trans.exec (step tinyConfig (Fin.ofNat 2) 1) (init 2 1 0) overtakenActs = some w ∧
      Refused tinyConfig 1 w ⟨⟨2, .acquire, 1, ⟨1, 1, 1⟩, 2, 0⟩, 2000000, true⟩ ∧
      w.server.total = 0 ∧ w.owed (.inl 0) = [⟨0, 2, .touched⟩] :=
  ⟨_, rfl, refusal_excused tinyConfig (Fin.ofNat 2) 0 1 overtakenActs rfl .fresh rfl rfl rfl, rfl,
    rfl⟩

end Watch

end RedLease.Server

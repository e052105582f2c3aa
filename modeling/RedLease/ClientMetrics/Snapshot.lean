import RedLease.ClientMetrics.Recorder
import RedLease.Lib.Family

/-!
# Snapshots of the latency recorder

`Recorder.Snapshot` with its loops over the buckets and the shards, taken while no call of
`ObserveAcquire` is in progress, after any interleaving of calls.

* **`snapshotHistogram_eq`**: the loops add up the shards and accumulate the buckets.
* **`snapshot_exact`**: a snapshot is the cumulative histogram of the durations that were observed,
  counted modulo `2 ^ 64`; shard keys and the order of the calls do not matter.
-/

namespace RedLease.ClientMetrics

open Lib.Trans

/-! ## The loops -/

/-- `LatencyBucket`. -/
@[ext]
structure LatencyBucket where
  upperBound : BitVec 64
  count : BitVec 64
  deriving DecidableEq

/-- `LatencyHistogram`. -/
@[ext]
structure LatencyHistogram where
  count : BitVec 64
  sumMicroseconds : BitVec 64
  buckets : Fin acquireLatencyBucketCount → LatencyBucket

/-- `AcquireLatency`, which is all of a `Snapshot`. -/
structure AcquireLatency where
  acquired : LatencyHistogram
  notAcquired : LatencyHistogram

/-- The body of the loop over the shards: `count` and `snapshot.SumMicroseconds`. -/
def visitShard (r : Recorder) (acquired : Bool) (bucket : Fin (acquireLatencyBucketCount + 1))
    (acc : BitVec 64 × BitVec 64) (shard : Fin recorderShardCount) : BitVec 64 × BitVec 64 :=
  let histogram := (r.shards shard).histogram acquired
  (acc.1 + histogram.load (.bucket bucket),
    if bucket.val = 0 then acc.2 + histogram.load .sumMicroseconds else acc.2)

/-- The body of the loop over the buckets: `snapshot` and `cumulative`. -/
def visitBucket (r : Recorder) (acquired : Bool) (acc : LatencyHistogram × BitVec 64)
    (bucket : Fin (acquireLatencyBucketCount + 1)) : LatencyHistogram × BitVec 64 :=
  let shards := (List.finRange recorderShardCount).foldl (visitShard r acquired bucket)
    (0, acc.1.sumMicroseconds)
  let cumulative := acc.2 + shards.1
  let snapshot := { acc.1 with sumMicroseconds := shards.2 }
  if h : bucket.val < acquireLatencyBucketCount then
    ({ snapshot with
        buckets := Function.update snapshot.buckets ⟨bucket.val, h⟩
          ⟨acquireLatencyBucketUpperBounds ⟨bucket.val, h⟩, cumulative⟩ }, cumulative)
  else (snapshot, cumulative)

/-- `snapshotHistogram`. -/
def snapshotHistogram (r : Recorder) (acquired : Bool) : LatencyHistogram :=
  let acc := (List.finRange (acquireLatencyBucketCount + 1)).foldl (visitBucket r acquired)
    (⟨0, 0, fun _ => ⟨0, 0⟩⟩, 0)
  { acc.1 with count := acc.2 }

/-- `Snapshot`. -/
def snapshot (r : Recorder) : AcquireLatency :=
  ⟨snapshotHistogram r true, snapshotHistogram r false⟩

/-- The loop over the shards adds the totals. -/
theorem foldl_visitShard (r : Recorder) (acquired : Bool)
    (bucket : Fin (acquireLatencyBucketCount + 1)) (acc : BitVec 64 × BitVec 64) :
    (List.finRange recorderShardCount).foldl (visitShard r acquired bucket) acc =
      (acc.1 + r.total acquired (.bucket bucket),
        if bucket.val = 0 then acc.2 + r.total acquired .sumMicroseconds else acc.2) := by
  have hloop : ∀ (l : List (Fin recorderShardCount)) (acc : BitVec 64 × BitVec 64),
      l.foldl (visitShard r acquired bucket) acc =
        (acc.1 + (l.map fun shard =>
            ((r.shards shard).histogram acquired).load (.bucket bucket)).sum,
          if bucket.val = 0 then acc.2 + (l.map fun shard =>
            ((r.shards shard).histogram acquired).load .sumMicroseconds).sum else acc.2) := by
    intro l
    induction l with
    | nil => simp
    | cons shard l ih =>
      intro acc
      rw [List.foldl_cons, ih]
      split_ifs with hzero <;> simp [visitShard, hzero, add_assoc]
  rw [hloop, Recorder.total, Recorder.total, Fin.sum_univ_def, Fin.sum_univ_def]

/-- The total of the first `k` buckets. -/
def cumulative (f : Fin (acquireLatencyBucketCount + 1) → BitVec 64) (k : Nat) : BitVec 64 :=
  ∑ bucket with bucket.val < k, f bucket

theorem cumulative_succ (f : Fin (acquireLatencyBucketCount + 1) → BitVec 64)
    (k : Fin (acquireLatencyBucketCount + 1)) :
    cumulative f (k.val + 1) = cumulative f k.val + f k := by
  have hset : (Finset.univ.filter fun b : Fin (acquireLatencyBucketCount + 1) => b.val < k.val + 1) =
      insert k (Finset.univ.filter fun b => b.val < k.val) := by
    ext b
    simp only [Finset.mem_filter, Finset.mem_univ, true_and, Finset.mem_insert, Fin.ext_iff]
    omega
  rw [cumulative, hset, Finset.sum_insert (by simp), add_comm]
  rfl

/-- What the loop over the buckets has accumulated before bucket `k`. -/
structure Accumulated (r : Recorder) (acquired : Bool) (k : Nat)
    (acc : LatencyHistogram × BitVec 64) : Prop where
  cumulative : acc.2 = cumulative (fun b => r.total acquired (.bucket b)) k
  sum : acc.1.sumMicroseconds = if k = 0 then 0 else r.total acquired .sumMicroseconds
  buckets : ∀ i : Fin acquireLatencyBucketCount, i.val < k → acc.1.buckets i =
    ⟨acquireLatencyBucketUpperBounds i,
      ClientMetrics.cumulative (fun b => r.total acquired (.bucket b)) (i.val + 1)⟩

theorem Accumulated.visit {r : Recorder} {acquired : Bool}
    {bucket : Fin (acquireLatencyBucketCount + 1)} {acc : LatencyHistogram × BitVec 64}
    (h : Accumulated r acquired bucket.val acc) :
    Accumulated r acquired (bucket.val + 1) (visitBucket r acquired acc bucket) := by
  have hcumulative : acc.2 + r.total acquired (.bucket bucket) =
      ClientMetrics.cumulative (fun b => r.total acquired (.bucket b)) (bucket.val + 1) := by
    rw [cumulative_succ, h.cumulative]
  have hsum : (if bucket.val = 0 then acc.1.sumMicroseconds + r.total acquired .sumMicroseconds
      else acc.1.sumMicroseconds) = r.total acquired .sumMicroseconds := by
    rw [h.sum]
    split_ifs <;> simp
  simp only [visitBucket, foldl_visitShard, zero_add, hcumulative, hsum]
  split_ifs with hlast
  · refine ⟨rfl, rfl, fun i hi => ?_⟩
    by_cases hieq : i = ⟨bucket.val, hlast⟩
    · subst hieq
      exact Function.update_self ..
    · refine (Function.update_of_ne hieq ..).trans (h.buckets i ?_)
      have hne : i.val ≠ bucket.val := fun hval => hieq (Fin.ext hval)
      omega
  · exact ⟨rfl, rfl, fun i _ => h.buckets i (by omega)⟩

/-- **The loops of a snapshot** add up the shards and accumulate the buckets. -/
theorem snapshotHistogram_eq (r : Recorder) (acquired : Bool) :
    snapshotHistogram r acquired =
      { count := cumulative (fun b => r.total acquired (.bucket b)) (acquireLatencyBucketCount + 1)
        sumMicroseconds := r.total acquired .sumMicroseconds
        buckets := fun i => ⟨acquireLatencyBucketUpperBounds i,
          cumulative (fun b => r.total acquired (.bucket b)) (i.val + 1)⟩ } := by
  have hloop : Accumulated r acquired (acquireLatencyBucketCount + 1)
      ((List.finRange (acquireLatencyBucketCount + 1)).foldl (visitBucket r acquired)
        (⟨0, 0, fun _ => ⟨0, 0⟩⟩, 0)) :=
    Lib.Family.foldl_finRange (Accumulated r acquired)
      ⟨by simp [cumulative], rfl, fun i hi => absurd hi (Nat.not_lt_zero _)⟩
      fun _ _ h => h.visit
  unfold snapshotHistogram
  generalize (List.finRange (acquireLatencyBucketCount + 1)).foldl (visitBucket r acquired)
    (⟨0, 0, fun _ => ⟨0, 0⟩⟩, 0) = acc at hloop
  refine LatencyHistogram.ext hloop.cumulative (hloop.sum.trans (if_neg (by decide))) ?_
  funext i
  exact hloop.buckets i (i.isLt.trans (Nat.lt_succ_self _))

/-! ## The histogram of the observed durations -/

/-- The cumulative histogram of durations, in nanoseconds, as a snapshot reports it. -/
def histogramOf (durations : List Nat) : LatencyHistogram where
  count := (durations.length : BitVec 64)
  sumMicroseconds := ((durations.map (· / 1000)).sum : Nat)
  buckets := fun i => ⟨acquireLatencyBucketUpperBounds i,
    (durations.countP fun d => d ≤ 2 ^ (firstBucketExponent + i.val) : Nat)⟩

theorem histogramOf_perm {durations durations' : List Nat} (h : durations.Perm durations') :
    histogramOf durations = histogramOf durations' := by
  unfold histogramOf
  rw [h.length_eq, (h.map (· / 1000)).sum_eq]
  simp only [h.countP_eq]

/-- The clamped durations of the calls with a result. -/
def durations (calls : List Observation) (acquired : Bool) : List Nat :=
  (calls.filter fun o => o.acquired = acquired).map fun o => clampedNanoseconds o.elapsed

/-- The durations depend on the arguments other than the shard keys, and on their order only by a
permutation. -/
theorem durations_perm {calls calls' : List Observation}
    (h : (calls.map fun o => (o.elapsed, o.acquired)).Perm
      (calls'.map fun o => (o.elapsed, o.acquired))) (acquired : Bool) :
    (durations calls acquired).Perm (durations calls' acquired) := by
  have hresults : ∀ calls : List Observation, durations calls acquired =
      ((calls.map fun o => (o.elapsed, o.acquired)).filter fun e => e.2 = acquired).map
        fun e => clampedNanoseconds e.1 := by
    intro calls
    rw [durations, List.filter_map, List.map_map]
    rfl
  rw [hresults, hresults]
  exact (h.filter _).map _

theorem toNat_natCast (n : Nat) : (n : BitVec 64).toNat = n % 2 ^ 64 := by
  rw [BitVec.natCast_eq_ofNat, BitVec.toNat_ofNat]

/-- Accumulated over the first `k` buckets, each call with the result counts once, if its bucket is
one of them. -/
theorem cumulative_amounts (calls : List Observation) (acquired : Bool) (k : Nat) :
    cumulative (fun b => amounts calls acquired (.bucket b)) k =
      ((calls.filter fun o => o.acquired = acquired).countP fun o => o.bucket.val < k : Nat) := by
  induction calls with
  | nil => simp [cumulative, amounts]
  | cons o calls ih =>
    have hone : cumulative (fun b => o.amount acquired (.bucket b)) k =
        if o.acquired = acquired ∧ o.bucket.val < k then 1 else 0 := by
      by_cases hresult : o.acquired = acquired
      · simp only [cumulative, Observation.amount, hresult, true_and]
        rw [Finset.sum_ite_eq]
        simp only [Finset.mem_filter, Finset.mem_univ, true_and]
      · simp [cumulative, Observation.amount, hresult]
    have hsplit : cumulative (fun b => amounts (o :: calls) acquired (.bucket b)) k =
        cumulative (fun b => o.amount acquired (.bucket b)) k +
          cumulative (fun b => amounts calls acquired (.bucket b)) k := by
      simp [cumulative, amounts, Finset.sum_add_distrib]
    rw [hsplit, hone, ih]
    by_cases hresult : o.acquired = acquired
    · by_cases hbucket : o.bucket.val < k
      · simp [hresult, hbucket, add_comm]
      · simp [hresult, hbucket]
    · simp [hresult]

theorem amounts_sum (calls : List Observation) (acquired : Bool) :
    amounts calls acquired .sumMicroseconds =
      (((durations calls acquired).map (· / 1000)).sum : Nat) := by
  induction calls with
  | nil => simp [amounts, durations]
  | cons o calls ih =>
    have hcons : amounts (o :: calls) acquired .sumMicroseconds =
        o.amount acquired .sumMicroseconds + amounts calls acquired .sumMicroseconds := by
      simp [amounts]
    rw [hcons, ih]
    by_cases hresult : o.acquired = acquired
    · simp [Observation.amount, durations, hresult, o.microseconds_eq]
    · simp [Observation.amount, durations, hresult]

/-- A snapshot between calls is the histogram of the durations of the calls. -/
theorem Inv.snapshotHistogram_eq {s : State} (h : Inv s) (hq : s.Quiet) (acquired : Bool) :
    snapshotHistogram s.recorder acquired = histogramOf (durations s.calls acquired) := by
  rw [ClientMetrics.snapshotHistogram_eq]
  simp only [h.total_eq hq, cumulative_amounts, amounts_sum]
  refine LatencyHistogram.ext ?_ rfl (funext fun i => LatencyBucket.ext rfl ?_)
  · have hall : (s.calls.filter fun o => o.acquired = acquired).countP
        (fun o => o.bucket.val < acquireLatencyBucketCount + 1) =
        (durations s.calls acquired).length := by
      rw [durations, List.length_map, List.countP_eq_length]
      exact fun o _ => decide_eq_true o.bucket.isLt
    exact congrArg (fun n : Nat => (n : BitVec 64)) hall
  · have hbucket : (s.calls.filter fun o => o.acquired = acquired).countP
        (fun o => o.bucket.val < i.val + 1) = (durations s.calls acquired).countP
          fun d => d ≤ 2 ^ (firstBucketExponent + i.val) := by
      rw [durations, List.countP_map]
      refine List.countP_congr fun o _ => ?_
      have hle := o.bucket_le_iff (i := i.val) i.isLt
      simp only [Function.comp_apply, decide_eq_true_eq]
      rw [Nat.lt_succ_iff, hle]
    exact congrArg (fun n : Nat => (n : BitVec 64)) hbucket

theorem Inv.count_toNat {s : State} (h : Inv s) (hq : s.Quiet) (acquired : Bool) :
    (snapshotHistogram s.recorder acquired).count.toNat =
      (s.calls.countP fun o => o.acquired = acquired) % 2 ^ 64 := by
  rw [h.snapshotHistogram_eq hq acquired]
  refine (toNat_natCast _).trans ?_
  rw [durations, List.length_map, List.countP_eq_length_filter]

/-- Calls made one after the other. -/
def sequential (calls : List Observation) : List Act :=
  calls.flatMap fun o => [.call o, .addBucket 0, .addSum 0]

theorem exec_sequential (calls : List Observation) : ∀ s : State, s.Quiet →
    ∃ s', exec step s (sequential calls) = some s' ∧ s'.Quiet ∧ s'.calls = s.calls ++ calls := by
  induction calls with
  | nil => exact fun s hq => ⟨s, rfl, hq, (List.append_nil _).symm⟩
  | cons o calls ih =>
    rintro ⟨r, made, _, _⟩ ⟨rfl, rfl⟩
    obtain ⟨s', hrun, hq, hcalls⟩ := ih ⟨o.addSum (o.addBucket r), made ++ [o], [], []⟩ ⟨rfl, rfl⟩
    refine ⟨s', hrun, hq, ?_⟩
    rw [hcalls, List.append_assoc]
    rfl

/-- **A snapshot is exact up to the width of its counters.** Whatever the interleaving of the calls
was, a snapshot between calls has the number of calls with each result, the numbers of those with a
clamped duration of at most `2 ^ (17 + i)` ns and the sum of their microseconds, each modulo `2 ^ 64`.
Other shard keys or another order of the calls give the same snapshot. -/
theorem snapshot_exact {as : List Act} {s : State} (hrun : exec step State.init as = some s)
    (hq : s.Quiet) :
    (∀ acquired,
      (snapshotHistogram s.recorder acquired).count.toNat =
        (s.calls.countP fun o => o.acquired = acquired) % 2 ^ 64 ∧
      (∀ i : Fin acquireLatencyBucketCount,
        ((snapshotHistogram s.recorder acquired).buckets i).upperBound.toNat = 2 ^ (17 + i.val) ∧
        ((snapshotHistogram s.recorder acquired).buckets i).count.toNat =
          (s.calls.countP fun o =>
            o.acquired = acquired ∧ (max 0 o.elapsed.toInt) ≤ 2 ^ (17 + i.val)) % 2 ^ 64) ∧
      (snapshotHistogram s.recorder acquired).sumMicroseconds.toNat =
        ((s.calls.filter fun o => o.acquired = acquired).map fun o =>
          (max 0 o.elapsed.toInt).toNat / 1000).sum % 2 ^ 64) ∧
    ∀ as' s', exec step State.init as' = some s' → s'.Quiet →
      (s.calls.map fun o => (o.elapsed, o.acquired)).Perm
        (s'.calls.map fun o => (o.elapsed, o.acquired)) →
      snapshot s'.recorder = snapshot s.recorder := by
  have hinv : ∀ {as s}, exec step State.init as = some s → Inv s := fun h =>
    exec_invariant (I := Inv) Inv.after_step Inv.init h
  have hclamp : ∀ o : Observation, (max 0 o.elapsed.toInt).toNat = clampedNanoseconds o.elapsed := by
    intro o
    unfold clampedNanoseconds
    omega
  refine ⟨fun acquired => ?_, fun as' s' hrun' hq' hperm => ?_⟩
  · refine ⟨(hinv hrun).count_toNat hq acquired, ?_⟩
    rw [(hinv hrun).snapshotHistogram_eq hq acquired]
    refine ⟨fun i => ⟨upperBounds_toNat i, (toNat_natCast _).trans ?_⟩, (toNat_natCast _).trans ?_⟩
    · rw [durations, List.countP_map, List.countP_filter]
      refine congrArg (· % 2 ^ 64) (List.countP_congr fun o _ => ?_)
      simp only [Function.comp_apply, ← Bool.decide_and, decide_eq_true_eq, firstBucketExponent,
        ← hclamp, Int.toNat_le, Nat.cast_pow, Nat.cast_ofNat]
      exact and_comm
    · simp only [durations, List.map_map, Function.comp_def, hclamp]
  · have hsame : ∀ acquired, snapshotHistogram s'.recorder acquired =
        snapshotHistogram s.recorder acquired := fun acquired => by
      rw [(hinv hrun).snapshotHistogram_eq hq, (hinv hrun').snapshotHistogram_eq hq',
        histogramOf_perm (durations_perm hperm acquired)]
    rw [snapshot, snapshot, hsame, hsame]

/-- Two results and an overflow, observed under different shard keys. -/
theorem snapshot_exact_three : ∃ s,
    exec step State.init (sequential
      [⟨1, 50000, true⟩, ⟨2, 150000, true⟩, ⟨3, 20000000000, false⟩]) = some s ∧ s.Quiet ∧
    (snapshotHistogram s.recorder true).count.toNat = 2 ∧
    ((snapshotHistogram s.recorder true).buckets ⟨0, by decide⟩).count.toNat = 1 ∧
    ((snapshotHistogram s.recorder false).buckets ⟨16, by decide⟩).count.toNat = 0 ∧
    (snapshotHistogram s.recorder true).sumMicroseconds.toNat = 200 := by
  obtain ⟨s, hrun, hq, hcalls⟩ := exec_sequential
    [⟨1, 50000, true⟩, ⟨2, 150000, true⟩, ⟨3, 20000000000, false⟩] State.init ⟨rfl, rfl⟩
  have hexact := (snapshot_exact hrun hq).1
  rw [hcalls] at hexact
  refine ⟨s, hrun, hq, (hexact true).1, ((hexact true).2.1 ⟨0, by decide⟩).2,
    ((hexact false).2.1 ⟨16, by decide⟩).2, (hexact true).2.2⟩

/-- The counters wrap: `2 ^ 64` observations of one result are counted as none. -/
theorem snapshot_count_wraps : ∃ as s, exec step State.init as = some s ∧ s.Quiet ∧
    (snapshotHistogram s.recorder true).count.toNat ≠
      s.calls.countP fun o => o.acquired = true := by
  obtain ⟨s, hrun, hq, hcalls⟩ := exec_sequential
    (List.replicate (2 ^ 64) ⟨0, 0, true⟩) State.init ⟨rfl, rfl⟩
  refine ⟨_, s, hrun, hq, ?_⟩
  have hcount : (s.calls.countP fun o => o.acquired = true) = 2 ^ 64 := by
    rw [hcalls, State.init, List.nil_append, List.countP_replicate]
    rfl
  have hinv : Inv s := exec_invariant (I := Inv) Inv.after_step Inv.init hrun
  rw [hinv.count_toNat hq true, hcount, Nat.mod_self]
  exact (Nat.two_pow_pos 64).ne

end RedLease.ClientMetrics

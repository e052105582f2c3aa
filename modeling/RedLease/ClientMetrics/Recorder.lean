import Mathlib.Algebra.BigOperators.Fin
import Mathlib.Data.BitVec
import Mathlib.Tactic.Abel
import RedLease.Lib.Trans

/-!
# The latency recorder

`internal/clientmetrics/recorder.go` and the bounds of `clientmetrics/metrics.go`. A `uint64`, and an
`int64` such as a `time.Duration`, is a `BitVec 64`, so that a conversion between them keeps the bits
and an atomic `Add` wraps. A call of `ObserveAcquire` is two atomic additions, and the calls of
different goroutines interleave between them.

* **`acquireLatencyBucket_le_iff`**: a duration is in one of the buckets up to `i` exactly if it is at
  most `2 ^ (17 + i)` ns.
* **`Inv.after_step`**: what the counters of all shards lack is what the calls in progress still add.
-/

namespace RedLease.ClientMetrics

/-! ## Durations -/

/-- `AcquireLatencyBucketCount`. -/
def acquireLatencyBucketCount : Nat := 17

/-- `overflowBucket`. -/
def overflowBucket : Nat := acquireLatencyBucketCount

/-- `firstBucketExponent`, and `firstAcquireLatencyBucketExponent` of the public package. -/
def firstBucketExponent : Nat := 17

/-- `recorderShardCount`. -/
def recorderShardCount : Nat := 64

/-- `bits.Len64`. -/
def len64 (x : BitVec 64) : Nat := if x = 0 then 0 else x.toNat.log2 + 1

/-- `AcquireLatencyBucketUpperBounds`. -/
def acquireLatencyBucketUpperBounds (index : Fin acquireLatencyBucketCount) : BitVec 64 :=
  1#64 <<< (firstBucketExponent + index.val)

/-- `acquireLatencyBucket`. -/
def acquireLatencyBucket (elapsed : BitVec 64) : Int :=
  if elapsed.sle (1#64 <<< firstBucketExponent) then 0
  else min ((len64 (elapsed - 1) : Int) - firstBucketExponent) overflowBucket

theorem upperBounds_toNat (index : Fin acquireLatencyBucketCount) :
    (acquireLatencyBucketUpperBounds index).toNat = 2 ^ (firstBucketExponent + index.val) := by
  revert index
  decide

/-- A value has at most `k` bits exactly if it is below `2 ^ k`. -/
theorem len64_le_iff (x : BitVec 64) (k : Nat) : len64 x ≤ k ↔ x.toNat < 2 ^ k := by
  unfold len64
  split_ifs with hx
  · subst hx
    simp [Nat.two_pow_pos k]
  · have hne : x.toNat ≠ 0 := fun h => hx (BitVec.eq_of_toNat_eq h)
    rw [← Nat.log2_lt hne]
    omega

/-- The duration in nanoseconds, a negative one as zero. -/
def clampedNanoseconds (elapsed : BitVec 64) : Nat := elapsed.toInt.toNat

/-- `if elapsed < 0 { elapsed = 0 }`. -/
def clamp (elapsed : BitVec 64) : BitVec 64 := if elapsed.slt 0 then 0 else elapsed

theorem clamp_toInt (elapsed : BitVec 64) :
    (clamp elapsed).toInt = (clampedNanoseconds elapsed : Int) := by
  unfold clamp clampedNanoseconds
  split_ifs with h
  · have hneg : elapsed.toInt < 0 := by simpa using BitVec.slt_iff_toInt_lt.mp h
    rw [Int.toNat_of_nonpos hneg.le]
    rfl
  · have hnonneg : 0 ≤ elapsed.toInt := by
      simpa using fun hneg => h (BitVec.slt_iff_toInt_lt.mpr hneg)
    exact (Int.toNat_of_nonneg hnonneg).symm

theorem clamp_toNat (elapsed : BitVec 64) :
    (clamp elapsed).toNat = clampedNanoseconds elapsed := by
  have h := clamp_toInt elapsed
  have hlt := BitVec.isLt (clamp elapsed)
  rw [BitVec.toInt_eq_toNat_cond] at h
  split_ifs at h <;> omega

/-- The test for the first bucket. -/
theorem clamp_sle_first (elapsed : BitVec 64) :
    (clamp elapsed).sle (1#64 <<< firstBucketExponent) ↔
      clampedNanoseconds elapsed ≤ 2 ^ firstBucketExponent := by
  have hbound : (1#64 <<< firstBucketExponent).toInt = 2 ^ firstBucketExponent := by decide
  rw [BitVec.sle_iff_toInt_le, clamp_toInt, hbound]
  exact_mod_cast Iff.rfl

theorem clamp_pred_toNat {elapsed : BitVec 64} (h : 1 ≤ clampedNanoseconds elapsed) :
    (clamp elapsed - 1).toNat = clampedNanoseconds elapsed - 1 := by
  have hle : (1 : BitVec 64) ≤ clamp elapsed := by
    rw [BitVec.le_def, clamp_toNat]
    exact h
  rw [BitVec.toNat_sub_of_le hle, clamp_toNat]
  rfl

/-- Above the first bound the bucket comes from the bit length of one nanosecond less. -/
theorem acquireLatencyBucket_above {elapsed : BitVec 64}
    (h : 2 ^ firstBucketExponent < clampedNanoseconds elapsed) :
    acquireLatencyBucket (clamp elapsed) =
        min ((len64 (clamp elapsed - 1) : Int) - firstBucketExponent) overflowBucket ∧
      ∀ k, len64 (clamp elapsed - 1) ≤ k ↔ clampedNanoseconds elapsed ≤ 2 ^ k := by
  have hpos : 1 ≤ clampedNanoseconds elapsed := (Nat.one_le_two_pow).trans h.le
  refine ⟨if_neg (mt (clamp_sle_first elapsed).mp (not_le.mpr h)), fun k => ?_⟩
  rw [len64_le_iff, clamp_pred_toNat hpos]
  omega

/-- **The buckets up to `i` hold the durations of at most `2 ^ (17 + i)` ns.** -/
theorem acquireLatencyBucket_le_iff (elapsed : BitVec 64) {i : Nat} (hi : i < overflowBucket) :
    acquireLatencyBucket (clamp elapsed) ≤ i ↔
      clampedNanoseconds elapsed ≤ 2 ^ (firstBucketExponent + i) := by
  by_cases h : clampedNanoseconds elapsed ≤ 2 ^ firstBucketExponent
  · rw [acquireLatencyBucket, if_pos ((clamp_sle_first elapsed).mpr h)]
    refine iff_of_true (Int.natCast_nonneg i) (h.trans ?_)
    exact Nat.pow_le_pow_right (by decide) (Nat.le_add_right _ _)
  · obtain ⟨heq, hlen⟩ := acquireLatencyBucket_above (not_le.mp h)
    rw [heq, ← hlen]
    omega

theorem acquireLatencyBucket_nonneg (elapsed : BitVec 64) :
    0 ≤ acquireLatencyBucket (clamp elapsed) := by
  by_cases h : clampedNanoseconds elapsed ≤ 2 ^ firstBucketExponent
  · rw [acquireLatencyBucket, if_pos ((clamp_sle_first elapsed).mpr h)]
  · obtain ⟨heq, hlen⟩ := acquireLatencyBucket_above (not_le.mp h)
    have hmore := mt (hlen firstBucketExponent).mp h
    rw [heq]
    omega

theorem acquireLatencyBucket_le_overflow (elapsed : BitVec 64) :
    acquireLatencyBucket elapsed ≤ overflowBucket := by
  unfold acquireLatencyBucket
  split_ifs
  · exact Int.natCast_nonneg _
  · exact min_le_right _ _

/-! ## The counters -/

/-- `latencyHistogram`. -/
structure LatencyCounters where
  buckets : Fin (acquireLatencyBucketCount + 1) → BitVec 64
  sumMicroseconds : BitVec 64

/-- `recorderShard`. -/
structure RecorderShard where
  acquired : LatencyCounters
  notAcquired : LatencyCounters

/-- `Recorder`. -/
structure Recorder where
  shards : Fin recorderShardCount → RecorderShard

/-- The zero value of a `Recorder`. -/
def Recorder.zero : Recorder := ⟨fun _ => ⟨⟨fun _ => 0, 0⟩, ⟨fun _ => 0, 0⟩⟩⟩

/-- A counter of a histogram. -/
inductive Field where
  | bucket (index : Fin (acquireLatencyBucketCount + 1))
  | sumMicroseconds
  deriving DecidableEq

/-- The atomic `Load` of a counter. -/
def LatencyCounters.load (h : LatencyCounters) : Field → BitVec 64
  | .bucket index => h.buckets index
  | .sumMicroseconds => h.sumMicroseconds

/-- The atomic `Add` to a counter. -/
def LatencyCounters.add (h : LatencyCounters) : Field → BitVec 64 → LatencyCounters
  | .bucket index, x =>
    { h with buckets := Function.update h.buckets index (h.buckets index + x) }
  | .sumMicroseconds, x => { h with sumMicroseconds := h.sumMicroseconds + x }

theorem LatencyCounters.load_add (h : LatencyCounters) (f g : Field) (x : BitVec 64) :
    (h.add f x).load g = h.load g + if f = g then x else 0 := by
  cases f with
  | bucket i =>
    cases g with
    | bucket j =>
      by_cases hij : i = j
      · subst hij
        simp [add, load]
      · simp [add, load, hij, Function.update_of_ne (Ne.symm hij)]
    | sumMicroseconds => simp [add, load]
  | sumMicroseconds =>
    cases g with
    | bucket j | sumMicroseconds => simp [add, load]

/-- The histogram of a result. -/
def RecorderShard.histogram (shard : RecorderShard) (acquired : Bool) : LatencyCounters :=
  if acquired then shard.acquired else shard.notAcquired

/-- An atomic `Add` in one shard, to the histogram of a result. -/
def Recorder.add (r : Recorder) (shard : Fin recorderShardCount) (acquired : Bool) (f : Field)
    (x : BitVec 64) : Recorder :=
  ⟨Function.update r.shards shard
    (if acquired then { r.shards shard with acquired := (r.shards shard).acquired.add f x }
      else { r.shards shard with notAcquired := (r.shards shard).notAcquired.add f x })⟩

/-- A counter, summed over the shards. -/
def Recorder.total (r : Recorder) (acquired : Bool) (f : Field) : BitVec 64 :=
  ∑ shard, ((r.shards shard).histogram acquired).load f

theorem Recorder.load_add (r : Recorder) (shard shard' : Fin recorderShardCount)
    (acquired acquired' : Bool) (f f' : Field) (x : BitVec 64) :
    (((r.add shard acquired f x).shards shard').histogram acquired').load f' =
      ((r.shards shard').histogram acquired').load f' +
        if shard = shard' then (if acquired = acquired' ∧ f = f' then x else 0) else 0 := by
  by_cases hshard : shard = shard'
  · subst hshard
    cases acquired <;> cases acquired' <;>
      simp [Recorder.add, RecorderShard.histogram, LatencyCounters.load_add]
  · simp [Recorder.add, Function.update_of_ne (Ne.symm hshard), hshard]

/-- **The shard of an addition does not matter** for the totals. -/
theorem Recorder.total_add (r : Recorder) (shard : Fin recorderShardCount)
    (acquired acquired' : Bool) (f f' : Field) (x : BitVec 64) :
    (r.add shard acquired f x).total acquired' f' =
      r.total acquired' f' + if acquired = acquired' ∧ f = f' then x else 0 := by
  simp only [Recorder.total, Recorder.load_add, Finset.sum_add_distrib, Finset.sum_ite_eq,
    Finset.mem_univ, if_true]

/-! ## Observations -/

/-- The arguments of a call of `ObserveAcquire`. -/
structure Observation where
  shardKey : BitVec 64
  elapsed : BitVec 64
  acquired : Bool
  deriving DecidableEq

namespace Observation

/-- `uint64(elapsed.Microseconds())` of the clamped duration. -/
def microseconds (o : Observation) : BitVec 64 := (clamp o.elapsed).sdiv 1000

/-- `shardKey&(recorderShardCount-1)`. -/
def shard (o : Observation) : Fin recorderShardCount :=
  ⟨(o.shardKey &&& (BitVec.ofNat 64 recorderShardCount - 1)).toNat, by
    rw [BitVec.toNat_and]
    exact Nat.lt_of_le_of_lt Nat.and_le_right (by decide)⟩

/-- The index into `buckets`. -/
def bucket (o : Observation) : Fin (acquireLatencyBucketCount + 1) :=
  ⟨(acquireLatencyBucket (clamp o.elapsed)).toNat, by
    have hle := acquireLatencyBucket_le_overflow (clamp o.elapsed)
    unfold overflowBucket at hle
    omega⟩

/-- `histogram.buckets[acquireLatencyBucket(elapsed)].Add(1)`. -/
def addBucket (o : Observation) (r : Recorder) : Recorder :=
  r.add o.shard o.acquired (.bucket o.bucket) 1

/-- `histogram.sumMicroseconds.Add(microseconds)`. -/
def addSum (o : Observation) (r : Recorder) : Recorder :=
  r.add o.shard o.acquired .sumMicroseconds o.microseconds

theorem bucket_le_iff (o : Observation) {i : Nat} (hi : i < overflowBucket) :
    o.bucket.val ≤ i ↔ clampedNanoseconds o.elapsed ≤ 2 ^ (firstBucketExponent + i) := by
  rw [← acquireLatencyBucket_le_iff o.elapsed hi]
  have hnonneg := acquireLatencyBucket_nonneg o.elapsed
  show (acquireLatencyBucket (clamp o.elapsed)).toNat ≤ i ↔ _
  omega

theorem microseconds_eq (o : Observation) :
    o.microseconds = ((clampedNanoseconds o.elapsed / 1000 : Nat) : BitVec 64) := by
  have hlt : clampedNanoseconds o.elapsed < 2 ^ 63 := by
    have h := BitVec.toInt_lt (x := o.elapsed)
    unfold clampedNanoseconds
    omega
  have hmsb : (clamp o.elapsed).msb = false := by
    rw [BitVec.msb_eq_false_iff_two_mul_lt, clamp_toNat]
    omega
  have hdiv : o.microseconds = (clamp o.elapsed).udiv 1000 := by
    rw [microseconds, BitVec.sdiv_eq, hmsb]
    rfl
  refine BitVec.eq_of_toNat_eq ?_
  rw [hdiv, BitVec.udiv_eq, BitVec.toNat_udiv, clamp_toNat, BitVec.natCast_eq_ofNat,
    BitVec.toNat_ofNat]
  have hthousand : (1000 : BitVec 64).toNat = 1000 := rfl
  rw [hthousand]
  omega

/-- What a call adds to a counter of the histogram of a result, over all shards. -/
def amount (o : Observation) (acquired : Bool) : Field → BitVec 64
  | .bucket index => if o.acquired = acquired ∧ o.bucket = index then 1 else 0
  | .sumMicroseconds => if o.acquired = acquired then o.microseconds else 0

theorem total_addBucket_bucket (o : Observation) (r : Recorder) (acquired : Bool)
    (index : Fin (acquireLatencyBucketCount + 1)) :
    (o.addBucket r).total acquired (.bucket index) =
      r.total acquired (.bucket index) + o.amount acquired (.bucket index) := by
  simp [addBucket, Recorder.total_add, amount]

theorem total_addBucket_sum (o : Observation) (r : Recorder) (acquired : Bool) :
    (o.addBucket r).total acquired .sumMicroseconds = r.total acquired .sumMicroseconds := by
  simp [addBucket, Recorder.total_add]

theorem total_addSum_bucket (o : Observation) (r : Recorder) (acquired : Bool)
    (index : Fin (acquireLatencyBucketCount + 1)) :
    (o.addSum r).total acquired (.bucket index) = r.total acquired (.bucket index) := by
  simp [addSum, Recorder.total_add]

theorem total_addSum_sum (o : Observation) (r : Recorder) (acquired : Bool) :
    (o.addSum r).total acquired .sumMicroseconds =
      r.total acquired .sumMicroseconds + o.amount acquired .sumMicroseconds := by
  simp [addSum, Recorder.total_add, amount]

end Observation

/-! ## Concurrent calls -/

/-- A recorder and its callers. -/
structure State where
  recorder : Recorder
  /-- The calls so far. -/
  calls : List Observation
  /-- The calls that have not yet added to their bucket. -/
  entered : List Observation
  /-- The calls that have added to their bucket and not yet to `sumMicroseconds`. -/
  counted : List Observation

/-- A new recorder. -/
def State.init : State := ⟨Recorder.zero, [], [], []⟩

/-- What a caller does next. -/
inductive Act where
  /-- `ObserveAcquire` is called. -/
  | call (o : Observation)
  /-- The first addition of one of the calls `entered`. -/
  | addBucket (caller : Nat)
  /-- The second addition of one of the calls `counted`. -/
  | addSum (caller : Nat)

/-- One step of one caller. -/
def step (s : State) : Act → Option State
  | .call o => some { s with calls := s.calls ++ [o], entered := s.entered ++ [o] }
  | .addBucket caller =>
    match s.entered[caller]? with
    | none => none
    | some o => some { s with
        recorder := o.addBucket s.recorder
        entered := s.entered.eraseIdx caller
        counted := s.counted ++ [o] }
  | .addSum caller =>
    match s.counted[caller]? with
    | none => none
    | some o => some { s with
        recorder := o.addSum s.recorder
        counted := s.counted.eraseIdx caller }

/-- No call is in progress. -/
def State.Quiet (s : State) : Prop := s.entered = [] ∧ s.counted = []

/-- What a list of calls adds to a counter. -/
def amounts (calls : List Observation) (acquired : Bool) (f : Field) : BitVec 64 :=
  (calls.map fun o => o.amount acquired f).sum

theorem amounts_concat (calls : List Observation) (o : Observation) (acquired : Bool) (f : Field) :
    amounts (calls ++ [o]) acquired f = amounts calls acquired f + o.amount acquired f := by
  simp [amounts]

theorem amounts_eraseIdx {calls : List Observation} {caller : Nat} {o : Observation}
    (h : calls[caller]? = some o) (acquired : Bool) (f : Field) :
    amounts calls acquired f =
      amounts (calls.eraseIdx caller) acquired f + o.amount acquired f := by
  obtain ⟨hlt, rfl⟩ := List.getElem?_eq_some_iff.mp h
  have hperm := (List.getElem_cons_eraseIdx_perm hlt).map fun o => o.amount acquired f
  rw [amounts, ← hperm.sum_eq, List.map_cons, List.sum_cons, add_comm]
  rfl

/-- What the counters lack is what the calls in progress still add. -/
structure Inv (s : State) : Prop where
  bucket : ∀ acquired index, s.recorder.total acquired (.bucket index) +
    amounts s.entered acquired (.bucket index) = amounts s.calls acquired (.bucket index)
  sum : ∀ acquired, s.recorder.total acquired .sumMicroseconds +
    amounts s.entered acquired .sumMicroseconds + amounts s.counted acquired .sumMicroseconds =
      amounts s.calls acquired .sumMicroseconds

theorem Inv.init : Inv State.init := by
  have hzero : ∀ acquired f, Recorder.zero.total acquired f = 0 := by
    intro acquired f
    refine Finset.sum_eq_zero fun shard _ => ?_
    cases acquired <;> cases f <;> rfl
  constructor
  · intro acquired index
    rw [State.init, hzero, zero_add]
  · intro acquired
    rw [State.init, hzero, zero_add]
    rfl

/-- **Each step moves what is still to be added.** -/
theorem Inv.after_step {s s' : State} {a : Act} (h : Inv s) (hs : step s a = some s') : Inv s' := by
  cases a with
  | call o =>
    cases hs
    constructor
    · intro acquired index
      rw [amounts_concat, amounts_concat, ← h.bucket, add_assoc]
    · intro acquired
      rw [amounts_concat, amounts_concat, ← h.sum]
      abel
  | addBucket caller =>
    simp only [step] at hs
    split at hs
    · cases hs
    · rename_i o ho
      cases hs
      constructor
      · intro acquired index
        rw [o.total_addBucket_bucket, ← h.bucket, amounts_eraseIdx ho]
        abel
      · intro acquired
        rw [o.total_addBucket_sum, amounts_concat, ← h.sum, amounts_eraseIdx ho]
        abel
  | addSum caller =>
    simp only [step] at hs
    split at hs
    · cases hs
    · rename_i o ho
      cases hs
      constructor
      · intro acquired index
        rw [o.total_addSum_bucket]
        exact h.bucket acquired index
      · intro acquired
        rw [o.total_addSum_sum, ← h.sum, amounts_eraseIdx ho]
        abel

/-- Between calls the counters are what the calls add. -/
theorem Inv.total_eq {s : State} (h : Inv s) (hq : s.Quiet) (acquired : Bool) (f : Field) :
    s.recorder.total acquired f = amounts s.calls acquired f := by
  have hbucket := h.bucket acquired
  have hsum := h.sum acquired
  rw [hq.1] at hbucket hsum
  rw [hq.2] at hsum
  cases f with
  | bucket index => simpa [amounts] using hbucket index
  | sumMicroseconds => simpa [amounts] using hsum

end RedLease.ClientMetrics

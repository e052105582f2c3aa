import Mathlib.Data.Finset.Card
import Mathlib.Data.Fintype.Card
import Mathlib.Data.List.FinRange
import Mathlib.Data.List.Sort
import RedLease.Lib.Rank
import RedLease.Protocol

/-!
# Quorums

`client/quorum.go` and the quorum arithmetic of `client/acquire.go`: the local time up to which one
response counts, and the time up to which a quorum of them does.

* **`bestAcquireQuorum_iff`**: `bestAcquireQuorum` returns the quorum-th largest candidate.
* **`bestAcquireQuorum_spec`**: the time that `bestAcquireQuorum` returns is covered by the
  candidates of a quorum of replicas.
* **`Quorum.inter`**: two quorums have a replica in common.
-/

namespace RedLease.Client

/-- `maxServerCount`, also the capacity of the results channel. -/
def maxServerCount : Nat := 5

/-- `Quorum`: the supported majority configurations. -/
inductive Quorum where
  | quorum1Of1
  | quorum2Of3
  | quorum3Of5
  deriving DecidableEq, Repr

/-- `Quorum.parameters`: the number of servers. -/
def Quorum.serverCount : Quorum → Nat
  | .quorum1Of1 => 1
  | .quorum2Of3 => 3
  | .quorum3Of5 => 5

/-- `Quorum.size`. -/
def Quorum.size : Quorum → Nat
  | .quorum1Of1 => 1
  | .quorum2Of3 => 2
  | .quorum3Of5 => 3

theorem Quorum.serverCount_le (q : Quorum) : q.serverCount ≤ maxServerCount := by
  cases q <;> decide

theorem Quorum.majority (q : Quorum) : q.serverCount < q.size + q.size := by
  cases q <;> decide

/-- **Two quorums have a replica in common.** -/
theorem Quorum.inter (q : Quorum) {A B : Finset (Fin q.serverCount)} (hA : q.size ≤ A.card)
    (hB : q.size ≤ B.card) : ∃ r, r ∈ A ∧ r ∈ B := by
  by_contra hnone
  have hdisj : Disjoint A B := Finset.disjoint_left.mpr fun r hrA hrB => hnone ⟨r, hrA, hrB⟩
  have hcard : (A ∪ B).card ≤ q.serverCount :=
    (Finset.card_le_univ _).trans (Fintype.card_fin _).le
  rw [Finset.card_union_of_disjoint hdisj] at hcard
  have hmajority := q.majority
  omega

/-- `candidateValidUntil`. -/
def candidateValidUntil (operationStart : Time) (ttlMS : Nat) : Time :=
  if ttlMS ≤ safetyMarginMS ∨ maxTTLMS < ttlMS then operationStart
  else operationStart + (ttlMS - safetyMarginMS) * millisecond

/-- `isSuccessfulAcquire`. -/
def isSuccessfulAcquire (status : LeaseStatus) : Bool :=
  status = LeaseStatus.ok || status = LeaseStatus.alreadyOwned

section Candidates

variable {n : Nat}

/-- The candidates of the successful replicas: the arrays `candidates` and `successful`. -/
abbrev Candidates (n : Nat) := Fin n → Option Time

/-- `bestAcquireQuorum`: the latest time that a quorum of candidates reaches. -/
def bestAcquireQuorum (candidates : Candidates n) (quorumSize : Nat) : Option Time :=
  let best := ((List.finRange n).filterMap candidates).insertionSort (· ≤ ·)
  if best.length < quorumSize then none else best[best.length - quorumSize]?

/-- `acquireQuorumStillPossible`. -/
def acquireQuorumStillPossible (candidates : Candidates n) (remaining : Nat) (now : Time)
    (quorumSize : Nat) : Bool :=
  quorumSize ≤
    (List.finRange n).countP (fun r => (candidates r).any fun c => now < c) + remaining

/-- Counting over the indices of an array is the size of a set of replicas. -/
theorem countP_finRange (p : Fin n → Bool) :
    (List.finRange n).countP p = (Finset.univ.filter fun r => p r = true).card := by
  have hcount := Multiset.countP_eq_card_filter (fun r => p r = true)
    (↑(List.finRange n) : Multiset (Fin n))
  rw [Multiset.coe_countP] at hcount
  simp only [Bool.decide_eq_true] at hcount
  exact hcount

/-- **`bestAcquireQuorum` is the quorum-th largest candidate.** -/
theorem bestAcquireQuorum_iff {candidates : Candidates n} {quorumSize : Nat} {v : Time}
    (hq : 0 < quorumSize) : bestAcquireQuorum candidates quorumSize = some v ↔
      Lib.KthLargest ((List.finRange n).filterMap candidates) quorumSize v := by
  have hperm := List.perm_insertionSort (· ≤ ·) ((List.finRange n).filterMap candidates)
  have hsorted := Lib.kthLargest_iff_of_sorted (v := v)
    (List.pairwise_insertionSort (· ≤ ·) ((List.finRange n).filterMap candidates)) hq
  unfold bestAcquireQuorum
  dsimp only
  constructor
  · intro h
    split_ifs at h with hlen
    exact (hsorted.mpr ⟨not_lt.mp hlen, h⟩).perm hperm
  · intro h
    obtain ⟨hlen, hv⟩ := hsorted.mp (h.perm hperm.symm)
    rw [if_neg (not_lt.mpr hlen)]
    exact hv

/-- **A quorum of candidates reaches the time that `bestAcquireQuorum` returns.** -/
theorem bestAcquireQuorum_spec {candidates : Candidates n} {quorumSize : Nat} {v : Time}
    (hq : 0 < quorumSize) (h : bestAcquireQuorum candidates quorumSize = some v) :
    ∃ A : Finset (Fin n), quorumSize ≤ A.card ∧ ∀ r ∈ A, ∃ c, candidates r = some c ∧ v ≤ c := by
  have hcount := ((bestAcquireQuorum_iff hq).mp h).1
  rw [List.countP_filterMap, countP_finRange] at hcount
  refine ⟨_, hcount, fun r hr => ?_⟩
  have hr' := (Finset.mem_filter.mp hr).2
  cases hc : candidates r with
  | none => simp [hc] at hr'
  | some c => exact ⟨c, rfl, by simpa [hc] using hr'⟩

end Candidates

end RedLease.Client

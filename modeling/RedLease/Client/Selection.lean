import Mathlib.Data.Fin.VecNotation
import Mathlib.Data.Fintype.Card
import Mathlib.Data.List.OfFn
import RedLease.Client.Quorum

/-!
# The best quorum

`bestAcquireQuorum` as its loop runs: over the slices `candidates` and `successful`, with the array
`best` of `maxServerCount` times that the successful candidates are copied to and that is then sorted
up to `successfulCount`. No value is a panic, an index out of range. The times are any linear order
and `default` is `time.Time{}`: `time.Time.Compare` orders the times of one process, which all have a
monotonic reading.

* **`bestAcquireQuorum_eq`**: on the arrays of a round it does not panic, and it returns what
  `Client.bestAcquireQuorum` returns.
* **`bestAcquireQuorum_best`**: the time that it returns is the best minimum over all quorums of
  successful replicas, which is the largest time that a quorum of them reaches. A further successful
  replica does not lower it, and the order of the replicas does not change it.
-/

namespace RedLease.Client.Slices

universe u

variable {τ : Type u}

/-! ## The loop -/

/-- The array `best` and the number of its entries in use. -/
structure Best (τ : Type u) where
  best : Vector τ maxServerCount
  successfulCount : Nat
  bounded : successfulCount ≤ maxServerCount

/-- The zero values that the loop starts from. -/
def Best.zero [Inhabited τ] : Best τ := ⟨Vector.replicate maxServerCount default, 0, Nat.zero_le _⟩

/-- One iteration: `success` at the index `replica`. -/
def Best.visit (candidates : List τ) (b : Best τ) (entry : Bool × Nat) : Option (Best τ) :=
  let (success, replica) := entry
  if success then
    match candidates[replica]? with
    | none => none
    | some c =>
      if h : b.successfulCount < maxServerCount then
        some ⟨b.best.set b.successfulCount c h, b.successfulCount + 1, h⟩
      else none
  else some b

/-- `best[:successfulCount]`. -/
def Best.used (b : Best τ) : List τ := b.best.toList.take b.successfulCount

/-- `best` after `slices.SortFunc(best[:successfulCount], time.Time.Compare)`. -/
def Best.sorted [LinearOrder τ] (b : Best τ) : List τ :=
  b.used.insertionSort (· ≤ ·) ++ b.best.toList.drop b.successfulCount

/-- `bestAcquireQuorum`: the time, if there is a quorum. -/
def bestAcquireQuorum [LinearOrder τ] [Inhabited τ] (candidates : List τ)
    (successful : List Bool) (quorumSize : Nat) : Option (Option τ) :=
  match successful.zipIdx.foldlM (Best.visit candidates) Best.zero with
  | none => none
  | some b =>
    if b.successfulCount < quorumSize then some none
    else (b.sorted[b.successfulCount - quorumSize]?).map some

/-! ## What the loop collects -/

/-- The candidates of the successful replicas, in their order. -/
def reached (candidates : List τ) (successful : List Bool) : List τ :=
  (candidates.zip successful).filterMap fun e => if e.2 then some e.1 else none

theorem Best.used_length (b : Best τ) : b.used.length = b.successfulCount := by
  have hbounded := b.bounded
  simp [Best.used, hbounded]

theorem Best.used_zero [Inhabited τ] : (Best.zero : Best τ).used = [] := rfl

theorem Best.used_set (b : Best τ) (c : τ) (h : b.successfulCount < maxServerCount) :
    Best.used ⟨b.best.set b.successfulCount c h, b.successfulCount + 1, h⟩ = b.used ++ [c] := by
  simp only [Best.used, Vector.toList_set]
  rw [List.take_add_one]
  have hlen : b.successfulCount < b.best.toList.length := by simpa using h
  rw [List.take_set_of_le (Nat.le_refl _), List.getElem?_set_self hlen]
  rfl

/-- The loop copies the candidates of the successful replicas, if there is room for them. -/
theorem foldlM_visit (candidates : List τ) : ∀ (successful : List Bool) (k : Nat) (b : Best τ),
    k + successful.length ≤ candidates.length →
    b.successfulCount + successful.length ≤ maxServerCount →
    ∃ b', (successful.zipIdx k).foldlM (Best.visit candidates) b = some b' ∧
      b'.used = b.used ++ reached (candidates.drop k) successful
  | [], k, b, _, _ => ⟨b, rfl, by simp [reached]⟩
  | success :: successful, k, b, hlen, hroom => by
    rw [List.length_cons] at hlen hroom
    have hk : k < candidates.length := by omega
    have hdrop : candidates.drop k = candidates[k] :: candidates.drop (k + 1) :=
      List.drop_eq_getElem_cons hk
    rw [List.zipIdx_cons, List.foldlM_cons]
    cases success with
    | false =>
      obtain ⟨b', hfold, hused⟩ :=
        foldlM_visit candidates successful (k + 1) b (by omega) (by omega)
      refine ⟨b', hfold, ?_⟩
      rw [hused, hdrop]
      rfl
    | true =>
      have hfree : b.successfulCount < maxServerCount := by omega
      have hvisit : Best.visit candidates b (true, k) =
          some ⟨b.best.set b.successfulCount candidates[k] hfree, b.successfulCount + 1, hfree⟩ := by
        simp [Best.visit, hk, hfree]
      obtain ⟨b', hfold, hused⟩ := foldlM_visit candidates successful (k + 1)
        ⟨b.best.set b.successfulCount candidates[k] hfree, b.successfulCount + 1, hfree⟩
        (by omega) (by dsimp only; omega)
      refine ⟨b', by rw [hvisit]; exact hfold, ?_⟩
      rw [hused, Best.used_set, hdrop, List.append_assoc]
      rfl

section Selection

variable [LinearOrder τ] [Inhabited τ]

/-- `bestAcquireQuorum` sorts and indexes the candidates of the successful replicas. -/
theorem bestAcquireQuorum_sorted {candidates : List τ} {successful : List Bool} {quorumSize : Nat}
    (hlen : candidates.length = successful.length) (hmax : successful.length ≤ maxServerCount)
    (hq : 0 < quorumSize) :
    bestAcquireQuorum candidates successful quorumSize =
      if (reached candidates successful).length < quorumSize then some none
      else (((reached candidates successful).insertionSort (· ≤ ·))[
        (reached candidates successful).length - quorumSize]?).map some := by
  obtain ⟨b, hfold, hused⟩ := foldlM_visit candidates successful 0 Best.zero (by omega)
    (by simpa [Best.zero] using hmax)
  rw [Best.used_zero, List.nil_append, List.drop_zero] at hused
  unfold bestAcquireQuorum
  rw [hfold, ← hused, b.used_length]
  dsimp only
  refine if_ctx_congr Iff.rfl (fun _ => rfl) fun hcount => ?_
  rw [Best.sorted, List.getElem?_append_left]
  rw [List.length_insertionSort, b.used_length]
  omega

/-- **`bestAcquireQuorum` returns the quorum-th largest candidate of the successful replicas.** -/
theorem bestAcquireQuorum_some_iff {candidates : List τ} {successful : List Bool}
    {quorumSize : Nat} {v : τ} (hlen : candidates.length = successful.length)
    (hmax : successful.length ≤ maxServerCount) (hq : 0 < quorumSize) :
    bestAcquireQuorum candidates successful quorumSize = some (some v) ↔
      Lib.KthLargest (reached candidates successful) quorumSize v := by
  have hperm := List.perm_insertionSort (· ≤ ·) (reached candidates successful)
  have hsorted := Lib.kthLargest_iff_of_sorted (v := v)
    (List.pairwise_insertionSort (· ≤ ·) (reached candidates successful)) hq
  rw [bestAcquireQuorum_sorted hlen hmax hq]
  rw [hperm.length_eq] at hsorted
  constructor
  · intro h
    split_ifs at h with hcount
    · simp at h
    · exact (hsorted.mpr ⟨not_lt.mp hcount, by simpa using h⟩).perm hperm
  · intro h
    obtain ⟨hcount, hv⟩ := hsorted.mp (h.perm hperm.symm)
    rw [if_neg (not_lt.mpr hcount), hv]
    rfl

/-- Without a quorum it reports none, and with one it returns a time. -/
theorem bestAcquireQuorum_total (candidates : List τ) (successful : List Bool) {quorumSize : Nat}
    (hlen : candidates.length = successful.length) (hmax : successful.length ≤ maxServerCount)
    (hq : 0 < quorumSize) : ∃ result, bestAcquireQuorum candidates successful quorumSize =
      some result ∧ (result.isSome ↔ quorumSize ≤ (reached candidates successful).length) := by
  by_cases hcount : (reached candidates successful).length < quorumSize
  · refine ⟨none, by rw [bestAcquireQuorum_sorted hlen hmax hq, if_pos hcount], ?_⟩
    simpa using hcount
  · obtain ⟨v, hv⟩ := Lib.KthLargest.exists_of_le_length hq (not_lt.mp hcount)
    refine ⟨some v, (bestAcquireQuorum_some_iff hlen hmax hq).mpr hv, ?_⟩
    simpa using hcount

end Selection

/-! ## The arrays of a round -/

section Replicas

variable {n m : Nat}

theorem reached_ofFn (candidates : Fin n → τ) (successful : Fin n → Bool) :
    reached (List.ofFn candidates) (List.ofFn successful) =
      (List.finRange n).filterMap fun r => if successful r then some (candidates r) else none := by
  rw [reached, List.ofFn_eq_map, List.ofFn_eq_map, List.zip_map', List.filterMap_map]
  rfl

/-- Counting the candidates is counting the replicas. -/
theorem countP_reached (candidates : Fin n → τ) (successful : Fin n → Bool) (p : τ → Bool) :
    (reached (List.ofFn candidates) (List.ofFn successful)).countP p =
      (Finset.univ.filter fun r => successful r = true ∧ p (candidates r) = true).card := by
  rw [reached_ofFn, List.countP_filterMap, countP_finRange]
  congr 1
  refine Finset.filter_congr fun r _ => ?_
  cases successful r <;> simp

/-- Every successful replica of one round is one of the other, with its candidate. -/
def Within (candidates : Fin n → τ) (successful : Fin n → Bool) (candidates' : Fin m → τ)
    (successful' : Fin m → Bool) : Prop :=
  ∃ e : Fin n ↪ Fin m, ∀ r, successful r = true →
    successful' (e r) = true ∧ candidates' (e r) = candidates r

variable {candidates : Fin n → τ} {successful : Fin n → Bool} {candidates' : Fin m → τ}
  {successful' : Fin m → Bool}

theorem Within.countP_le (h : Within candidates successful candidates' successful')
    (p : τ → Bool) : (reached (List.ofFn candidates) (List.ofFn successful)).countP p ≤
      (reached (List.ofFn candidates') (List.ofFn successful')).countP p := by
  obtain ⟨e, he⟩ := h
  rw [countP_reached, countP_reached]
  refine Finset.card_le_card_of_injOn e (fun r hr => ?_) e.injective.injOn
  obtain ⟨-, hsuccess, hp⟩ := Finset.mem_filter.mp hr
  obtain ⟨hsuccess', hcandidate⟩ := he r hsuccess
  exact Finset.mem_filter.mpr ⟨Finset.mem_univ _, hsuccess', by rwa [hcandidate]⟩

theorem Within.of_perm (σ : Equiv.Perm (Fin n)) :
    Within (candidates ∘ σ) (successful ∘ σ) candidates successful :=
  ⟨σ.toEmbedding, fun _ hr => ⟨hr, rfl⟩⟩

theorem Within.to_perm (σ : Equiv.Perm (Fin n)) :
    Within candidates successful (candidates ∘ σ) (successful ∘ σ) := by
  refine ⟨σ.symm.toEmbedding, fun r hr => ⟨?_, ?_⟩⟩
  · simpa using hr
  · simp

variable [LinearOrder τ] [Inhabited τ] {quorumSize : Nat} {v : τ}

theorem bestAcquireQuorum_ofFn (hn : n ≤ maxServerCount) (hq : 0 < quorumSize) :
    bestAcquireQuorum (List.ofFn candidates) (List.ofFn successful) quorumSize =
        some (some v) ↔
      Lib.KthLargest (reached (List.ofFn candidates) (List.ofFn successful)) quorumSize v :=
  bestAcquireQuorum_some_iff (by simp) (by simpa using hn) hq

/-- **A further successful replica does not lower the time.** -/
theorem Within.best_le (h : Within candidates successful candidates' successful')
    (hn : n ≤ maxServerCount) (hm : m ≤ maxServerCount) (hq : 0 < quorumSize)
    (hv : bestAcquireQuorum (List.ofFn candidates) (List.ofFn successful) quorumSize =
      some (some v)) :
    ∃ v', bestAcquireQuorum (List.ofFn candidates') (List.ofFn successful') quorumSize =
      some (some v') ∧ v ≤ v' := by
  rw [bestAcquireQuorum_ofFn hn hq] at hv
  have hlen : quorumSize ≤ (reached (List.ofFn candidates') (List.ofFn successful')).length :=
    hv.1.trans ((h.countP_le _).trans List.countP_le_length)
  obtain ⟨v', hv'⟩ := Lib.KthLargest.exists_of_le_length hq hlen
  exact ⟨v', (bestAcquireQuorum_ofFn hm hq).mpr hv', hv.mono hv' fun t => h.countP_le _⟩

/-- **The order of the replicas does not change the time.** -/
theorem bestAcquireQuorum_perm (hn : n ≤ maxServerCount) (hq : 0 < quorumSize)
    (σ : Equiv.Perm (Fin n)) :
    bestAcquireQuorum (List.ofFn (candidates ∘ σ)) (List.ofFn (successful ∘ σ)) quorumSize =
      bestAcquireQuorum (List.ofFn candidates) (List.ofFn successful) quorumSize := by
  have hperm : (reached (List.ofFn (candidates ∘ σ)) (List.ofFn (successful ∘ σ))).Perm
      (reached (List.ofFn candidates) (List.ofFn successful)) :=
    List.perm_iff_count.mpr fun c =>
      le_antisymm ((Within.of_perm σ).countP_le _) ((Within.to_perm σ).countP_le _)
  rw [bestAcquireQuorum_sorted (by simp) (by simpa using hn) hq,
    bestAcquireQuorum_sorted (by simp) (by simpa using hn) hq, hperm.length_eq,
    ((List.perm_insertionSort _ _).trans
      (hperm.trans (List.perm_insertionSort _ _).symm)).eq_of_pairwise'
      (List.pairwise_insertionSort (· ≤ ·) _) (List.pairwise_insertionSort (· ≤ ·) _)]

/-- The arrays of a round give what `Client.bestAcquireQuorum` says of the round. -/
theorem bestAcquireQuorum_eq (candidates : Candidates n) (hn : n ≤ maxServerCount)
    (hq : 0 < quorumSize) :
    bestAcquireQuorum (List.ofFn fun r => (candidates r).getD 0)
        (List.ofFn fun r => (candidates r).isSome) quorumSize =
      some (Client.bestAcquireQuorum candidates quorumSize) := by
  have hreached : reached (List.ofFn fun r => (candidates r).getD 0)
      (List.ofFn fun r => (candidates r).isSome) = (List.finRange n).filterMap candidates := by
    rw [reached_ofFn]
    refine List.filterMap_congr fun r _ => ?_
    cases candidates r <;> rfl
  rw [bestAcquireQuorum_sorted (by simp) (by simpa using hn) hq, hreached]
  unfold Client.bestAcquireQuorum
  dsimp only
  rw [List.length_insertionSort]
  split_ifs with hcount
  · rfl
  · have hlt : ((List.finRange n).filterMap candidates).length - quorumSize <
        (((List.finRange n).filterMap candidates).insertionSort (· ≤ ·)).length := by
      rw [List.length_insertionSort]
      omega
    rw [List.getElem?_eq_getElem hlt]
    rfl

/-- **The best quorum.** `bestAcquireQuorum` reports a quorum exactly if enough replicas are
successful. The time is the best minimum over the quorums of successful replicas, and the largest
one that a quorum of them reaches; more successful replicas do not lower it, in any order. -/
theorem bestAcquireQuorum_best (candidates : Fin n → τ) (successful : Fin n → Bool)
    (hn : n ≤ maxServerCount) (hq : 0 < quorumSize) :
    ∃ result,
      bestAcquireQuorum (List.ofFn candidates) (List.ofFn successful) quorumSize = some result ∧
      (result.isSome ↔
        quorumSize ≤ (Finset.univ.filter fun r => successful r = true).card) ∧
      (∀ v, result = some v →
        IsGreatest {min | ∃ S ⊆ Finset.univ.filter fun r => successful r = true,
          S.card = quorumSize ∧ ∃ hne : S.Nonempty, S.inf' hne candidates = min} v ∧
        IsGreatest {t | quorumSize ≤
          (Finset.univ.filter fun r => successful r = true ∧ t ≤ candidates r).card} v ∧
        ∀ m, m ≤ maxServerCount → ∀ (candidates' : Fin m → τ) (successful' : Fin m → Bool),
          Within candidates successful candidates' successful' →
          ∃ v', bestAcquireQuorum (List.ofFn candidates') (List.ofFn successful') quorumSize =
            some (some v') ∧ v ≤ v') ∧
      ∀ σ : Equiv.Perm (Fin n),
        bestAcquireQuorum (List.ofFn (candidates ∘ σ)) (List.ofFn (successful ∘ σ)) quorumSize =
          some result := by
  obtain ⟨result, hresult, hsome⟩ := bestAcquireQuorum_total (List.ofFn candidates)
    (List.ofFn successful) (by simp) (by simpa using hn) hq
  have hlen : (reached (List.ofFn candidates) (List.ofFn successful)).length =
      (Finset.univ.filter fun r => successful r = true).card := by
    rw [← List.countP_true, countP_reached]
    simp
  refine ⟨result, hresult, by rw [hsome, hlen], ?_, fun σ => ?_⟩
  · rintro v rfl
    have hv := (bestAcquireQuorum_ofFn hn hq).mp hresult
    have hgreatest := hv.isGreatest
    simp only [countP_reached, decide_eq_true_eq] at hgreatest
    refine ⟨?_, hgreatest, fun m hm candidates' successful' hwithin =>
      hwithin.best_le hn hm hq hresult⟩
    refine Lib.isGreatest_minima ?_ hq
    simpa only [Finset.filter_filter] using hgreatest
  · rw [bestAcquireQuorum_perm hn hq, hresult]

/-- Three of five, where the latest candidate is not successful. -/
theorem bestAcquireQuorum_best_three_of_five :
    bestAcquireQuorum [5, 1, 4, 2, 3] [false, true, true, true, true] 3 = some (some (2 : Time)) ∧
      IsGreatest {t | 3 ≤ (Finset.univ.filter fun r : Fin 5 =>
        ![false, true, true, true, true] r = true ∧ t ≤ ![5, 1, 4, 2, 3] r).card} (2 : Time) := by
  have hbest : bestAcquireQuorum [5, 1, 4, 2, 3] [false, true, true, true, true] 3 =
      some (some (2 : Time)) := by decide
  obtain ⟨result, hresult, -, htime, -⟩ := bestAcquireQuorum_best ![5, 1, 4, 2, 3]
    ![false, true, true, true, true] (by decide) (Nat.succ_pos 2)
  have hsome : result = some 2 := Option.some.inj (hresult.symm.trans hbest)
  exact ⟨hbest, (htime 2 hsome).2.1⟩

end Replicas

end RedLease.Client.Slices

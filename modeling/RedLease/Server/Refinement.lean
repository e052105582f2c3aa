import Mathlib.Data.Finset.Card
import RedLease.Lib.Trans
import RedLease.Server.Store

/-!
# The store refines the reference machine

`Sim t s m` relates a store to a reference map from the time `t` on: entries that expired by `t` may
linger in the shards or in the map, every live entry is in both, and the counter counts what the
shards store. `t` is a lower bound of every later clock reading, so an entry that is dead at `t` stays
dead.

* **`apply_refines`**: one operation on a store that represents a reference map answers as the
  reference machine and represents its next map.
* **`runStore_eq_reference`**: so does every sequence of operations, with background cleanups
  anywhere in between.
-/

namespace RedLease.Server

open LeaseShard RedLease.Lib

variable {n : Nat}

/-! ## Live entries -/

theorem liveAt_liveAt (a b : Time) (e : Option (LeaseID × Time)) :
    liveAt a (liveAt b e) = liveAt (max a b) e := by
  cases e with
  | none => rfl
  | some e =>
    obtain ⟨id, d⟩ := e
    rw [liveAt_some, liveAt_some]
    by_cases hb : b < d
    · rw [if_pos hb, liveAt_some]
      by_cases ha : a < d
      · rw [if_pos ha, if_pos (max_lt ha hb)]
      · rw [if_neg ha, if_neg fun h => ha (lt_of_le_of_lt (le_max_left a b) h)]
    · rw [if_neg hb, if_neg fun h => hb (lt_of_le_of_lt (le_max_right a b) h)]
      rfl

theorem liveAt_eq_some {t : Time} {e : Option (LeaseID × Time)} {id : LeaseID} {d : Time} :
    liveAt t e = some (id, d) ↔ e = some (id, d) ∧ t < d := by
  rw [liveAt, Option.filter_eq_some_iff]
  simp

/-! ## The simulation relation -/

/-- **The store `s` represents the reference map `m`** at every time from `t` on. -/
structure Sim (cfg : Config) (assign : Nat → Fin n) (t : Time) (s : Store n) (m : Reference) :
    Prop where
  wf : ∀ i, (s.shards i).WF
  ok : s.failed = false
  /-- The counter counts the stored entries, expired ones included. -/
  keys : s.keys = ∑ i, (s.shards i).size
  /-- A key is stored in its own shard only. -/
  home : ∀ i k, i ≠ assign k → (s.shards i).view k = none
  /-- The live entries agree. -/
  agree : ∀ k, liveAt t ((s.shards (assign k)).view k) = liveAt t (m.lookup k)
  /-- No entry outlives the maximal TTL. -/
  bound : ∀ k id d, (s.shards (assign k)).view k = some (id, d) →
    d ≤ t + cfg.maxTTL * millisecond

variable {cfg : Config} {assign : Nat → Fin n} {t now : Time} {s : Store n} {m : Reference}

theorem sim_init (cfg : Config) (assign : Nat → Fin n) (t : Time) :
    Sim cfg assign t (Store.init n) ∅ where
  wf _ := wf_empty
  ok := rfl
  keys := by simp [Store.init]
  home _ _ _ := rfl
  agree k := by simp [Store.init]
  bound k id d h := by simp [Store.init] at h

/-- Time passes, and the map drops what has expired. -/
theorem Sim.advance (h : Sim cfg assign t s m) (hn : t ≤ now) :
    Sim cfg assign now s (m.dropExpired now) where
  wf := h.wf
  ok := h.ok
  keys := h.keys
  home := h.home
  agree k := by
    have := congrArg (liveAt now) (h.agree k)
    rw [liveAt_liveAt, liveAt_liveAt, max_eq_left hn] at this
    rw [Reference.lookup_dropExpired, liveAt_liveAt, max_self]
    exact this
  bound k id d hv := le_trans (h.bound k id d hv) (Nat.add_le_add_right hn _)

/-- One shard and one key of the map change together. -/
theorem Sim.update (h : Sim cfg assign now s m) {key : Nat} {shard : LeaseShard} {keys : Nat}
    {m' : Reference} (hwf : shard.WF)
    (hother : ∀ k, k ≠ key → shard.view k = (s.shards (assign key)).view k)
    (hm : ∀ k, k ≠ key → m'.lookup k = m.lookup k)
    (hkey : liveAt now (shard.view key) = liveAt now (m'.lookup key))
    (hbound : ∀ id d, shard.view key = some (id, d) → d ≤ now + cfg.maxTTL * millisecond)
    (hkeys : keys + (s.shards (assign key)).size = s.keys + shard.size) :
    Sim cfg assign now ⟨keys, Function.update s.shards (assign key) shard, false⟩ m' := by
  have hshard : ∀ i, i ≠ assign key →
      Function.update s.shards (assign key) shard i = s.shards i :=
    fun i hi => Function.update_of_ne hi _ _
  have hself : Function.update s.shards (assign key) shard (assign key) = shard :=
    Function.update_self _ _ _
  have hview : ∀ k, k ≠ key →
      (Function.update s.shards (assign key) shard (assign k)).view k =
        (s.shards (assign k)).view k := by
    intro k hk
    by_cases hi : assign k = assign key
    · rw [hi, hself, hother k hk]
    · rw [hshard _ hi]
  refine ⟨fun i => ?_, rfl, ?_, fun i k hi => ?_, fun k => ?_, fun k id d hv => ?_⟩
  · by_cases hi : i = assign key
    · rw [hi]; simp only [hself]; exact hwf
    · simp only [hshard i hi]; exact h.wf i
  · have := Family.sum_update LeaseShard.size s.shards (assign key) shard
    have hk := h.keys
    simp only
    omega
  · by_cases hi' : i = assign key
    · subst hi'
      have hk : k ≠ key := fun e => hi (by rw [e])
      simp only [hself]
      rw [hother k hk]
      exact h.home _ k hi
    · simp only [hshard i hi']
      exact h.home i k hi
  · by_cases hk : k = key
    · subst hk
      simp only [hself]
      exact hkey
    · simp only [hview k hk]
      rw [hm k hk]
      exact h.agree k
  · by_cases hk : k = key
    · subst hk
      simp only [hself] at hv
      exact hbound id d hv
    · simp only [hview k hk] at hv
      exact h.bound k id d hv

/-- The stored entries are at least as many as the live ones. -/
theorem Sim.size_le (h : Sim cfg assign now s m) (hlive : ∀ k, m.lookup k = liveAt now (m.lookup k)) :
    m.size ≤ s.keys := by
  have hsub : m.keys.toFinset ⊆
      Finset.univ.biUnion fun i => (s.shards i).leases.keys.toFinset := by
    intro k hk
    rw [List.mem_toFinset, Reference.mem_keys_iff, hlive k, ← h.agree k] at hk
    refine Finset.mem_biUnion.mpr ⟨assign k, Finset.mem_univ _, ?_⟩
    rw [List.mem_toFinset, ← AList.mem_keys, ← AList.lookup_isSome, Option.isSome_iff_ne_none]
    intro hnone
    exact hk (by rw [view_eq_none.mpr hnone]; rfl)
  calc m.size = m.keys.toFinset.card := (List.toFinset_card_of_nodup m.keys_nodup).symm
    _ ≤ _ := Finset.card_le_card hsub
    _ ≤ ∑ i, (s.shards i).leases.keys.toFinset.card := Finset.card_biUnion_le
    _ = s.keys := by
      rw [h.keys]
      exact Finset.sum_congr rfl fun i _ => List.toFinset_card_of_nodup (AList.keys_nodup _)

/-- Without expired leftovers the counter is the number of live entries. -/
theorem Sim.le_size (h : Sim cfg assign now s m)
    (hclean : ∀ i k, (s.shards i).view k = liveAt now ((s.shards i).view k)) :
    s.keys ≤ m.size := by
  have hmem : ∀ {i : Fin n} {k : Nat}, k ∈ (s.shards i).leases.keys.toFinset →
      (s.shards i).view k ≠ none := by
    intro i k hk hnone
    rw [List.mem_toFinset, ← AList.mem_keys, ← AList.lookup_isSome] at hk
    rw [show (s.shards i).leases.lookup k = none from view_eq_none.mp hnone] at hk
    cases hk
  have hhome : ∀ {i : Fin n} {k : Nat}, k ∈ (s.shards i).leases.keys.toFinset → i = assign k :=
    fun hk => by_contra fun hne => hmem hk (h.home _ _ hne)
  have hdisj : ∀ i ∈ Finset.univ, ∀ j ∈ Finset.univ, i ≠ j →
      Disjoint (s.shards i).leases.keys.toFinset (s.shards j).leases.keys.toFinset := by
    intro i _ j _ hij
    rw [Finset.disjoint_left]
    intro k hi hj
    exact hij ((hhome hi).trans (hhome hj).symm)
  have hsub : (Finset.univ.biUnion fun i => (s.shards i).leases.keys.toFinset) ⊆
      m.keys.toFinset := by
    intro k hk
    obtain ⟨i, -, hi⟩ := Finset.mem_biUnion.mp hk
    have hne := hmem hi
    rw [List.mem_toFinset, Reference.mem_keys_iff]
    intro hnone
    have hag := h.agree k
    rw [← hhome hi, ← hclean i k, hnone] at hag
    exact hne hag
  calc s.keys = ∑ i, (s.shards i).leases.keys.toFinset.card := by
        rw [h.keys]
        exact Finset.sum_congr rfl fun i _ =>
          (List.toFinset_card_of_nodup (AList.keys_nodup _)).symm
    _ = _ := (Finset.card_biUnion hdisj).symm
    _ ≤ _ := Finset.card_le_card hsub
    _ = m.size := List.toFinset_card_of_nodup m.keys_nodup

/-! ## Cleanup -/

theorem releaseKeys_of_le {count : Nat} (h : count ≤ s.keys) :
    s.releaseKeys count = { s with keys := s.keys - count } := by
  unfold Store.releaseKeys
  by_cases h0 : count = 0
  · rw [if_pos h0, h0, Nat.sub_zero]
  · rw [if_neg h0, if_neg (not_lt.mpr h)]

/-- What the scan of the shards in `is` does: their expired entries are gone and counted. -/
theorem removeExpiredKeysLoop_spec (now : Time) :
    ∀ (is : List (Fin n)) (s : Store n) (deleted : Nat), (∀ i, (s.shards i).WF) →
      (∀ i, ((Store.removeExpiredKeysLoop now is s deleted).1.shards i).WF) ∧
      (∀ i k, ((Store.removeExpiredKeysLoop now is s deleted).1.shards i).view k =
        if i ∈ is then liveAt now ((s.shards i).view k) else (s.shards i).view k) ∧
      (∑ i, ((Store.removeExpiredKeysLoop now is s deleted).1.shards i).size) +
        (Store.removeExpiredKeysLoop now is s deleted).2 = (∑ i, (s.shards i).size) + deleted ∧
      (Store.removeExpiredKeysLoop now is s deleted).1.keys = s.keys ∧
      (Store.removeExpiredKeysLoop now is s deleted).1.failed = s.failed
  | [], s, deleted, h => ⟨h, fun i k => by simp [Store.removeExpiredKeysLoop], rfl, rfl, rfl⟩
  | j :: rest, s, deleted, h => by
    obtain ⟨hwf, hview, hsize⟩ := removeExpiredLeases_spec (h j) now
    have h' : ∀ i, ((s.setShard j ((s.shards j).removeExpiredLeases now).1).shards i).WF := by
      intro i
      by_cases hi : i = j
      · rw [hi, Store.setShard]; simp only [Function.update_self]; exact hwf
      · rw [Store.setShard]; simp only [Function.update_of_ne hi]; exact h i
    obtain ⟨ih1, ih2, ih3, ih4, ih5⟩ := removeExpiredKeysLoop_spec now rest
      (s.setShard j ((s.shards j).removeExpiredLeases now).1)
      (deleted + ((s.shards j).removeExpiredLeases now).2) h'
    have hv : ∀ i k, ((s.setShard j ((s.shards j).removeExpiredLeases now).1).shards i).view k =
        if i = j then liveAt now ((s.shards i).view k) else (s.shards i).view k := by
      intro i k
      by_cases hi : i = j
      · rw [if_pos hi, hi, Store.setShard]; simp only [Function.update_self]; exact hview k
      · rw [if_neg hi, Store.setShard]; simp only [Function.update_of_ne hi]
    refine ⟨ih1, fun i k => ?_, ?_, ih4, ih5⟩
    · rw [Store.removeExpiredKeysLoop, ih2 i k, hv i k]
      by_cases hi : i = j
      · have hin : i ∈ j :: rest := by rw [hi]; exact List.mem_cons_self
        rw [if_pos hi, if_pos hin, liveAt_liveAt, max_self, ite_self]
      · simp [hi]
    · rw [Store.removeExpiredKeysLoop, ih3]
      have := Family.sum_update LeaseShard.size s.shards j
        ((s.shards j).removeExpiredLeases now).1
      simp only [Store.setShard]
      omega

/-- **A cleanup keeps the relation**, and leaves only entries that are live at its time. -/
theorem Sim.cleanup (h : Sim cfg assign t s m) (c : Time) :
    Sim cfg assign (max t c) (s.removeExpiredKeys c) m ∧
      ∀ i k, ((s.removeExpiredKeys c).shards i).view k = liveAt c ((s.shards i).view k) := by
  obtain ⟨hwf, hview, hsize, hkeys, hfail⟩ :=
    removeExpiredKeysLoop_spec c (List.finRange n) s 0 h.wf
  have hle : (Store.removeExpiredKeysLoop c (List.finRange n) s 0).2 ≤
      (Store.removeExpiredKeysLoop c (List.finRange n) s 0).1.keys := by
    rw [hkeys, h.keys]
    omega
  have heq : s.removeExpiredKeys c = { (Store.removeExpiredKeysLoop c (List.finRange n) s 0).1 with
      keys := s.keys - (Store.removeExpiredKeysLoop c (List.finRange n) s 0).2 } := by
    rw [Store.removeExpiredKeys]
    simp only
    rw [releaseKeys_of_le hle, hkeys]
  have hview' : ∀ i k, ((s.removeExpiredKeys c).shards i).view k =
      liveAt c ((s.shards i).view k) := by
    intro i k
    rw [heq]
    simp only [hview i k, List.mem_finRange, if_true]
  refine ⟨⟨fun i => ?_, ?_, ?_, fun i k hi => ?_, fun k => ?_, fun k id d hv => ?_⟩, hview'⟩
  · rw [heq]; exact hwf i
  · rw [heq]; exact hfail.trans h.ok
  · rw [heq]
    have hk := h.keys
    simp only
    omega
  · rw [hview', h.home i k hi]; rfl
  · rw [hview', liveAt_liveAt, max_assoc, max_self]
    have := congrArg (liveAt (max t c)) (h.agree k)
    rwa [liveAt_liveAt, liveAt_liveAt, max_eq_left (le_max_left t c)] at this
  · rw [hview', liveAt_eq_some] at hv
    exact le_trans (h.bound k id d hv.1) (Nat.add_le_add_right (le_max_left t c) _)

/-! ## One operation -/

/-- The section's shard in place of the old one, with the removed entries released. -/
theorem Sim.runSection_eq (h : Sim cfg assign now s m) {i : Fin n} {l : Locked}
    (hsize : l.shard.size + l.removed = (s.shards i).size) :
    s.runSection i l = ⟨s.keys - l.removed, Function.update s.shards i l.shard, false⟩ := by
  have hle : l.removed ≤ (s.setShard i l.shard).keys := by
    have := Family.le_sum (fun i => (s.shards i).size) i
    have hk := h.keys
    show l.removed ≤ s.keys
    omega
  rw [Store.runSection, releaseKeys_of_le hle]
  simp only [Store.setShard, h.ok]

/-- A section that changes the key's entry as the map changes. -/
theorem Sim.runSection (h : Sim cfg assign now s m) {op : Operation} {l : Locked} {m' : Reference}
    (hl : l = lockedSection cfg.maxTTL (s.shards (assign op.key)) op now)
    (hm : ∀ k, k ≠ op.key → m'.lookup k = m.lookup k)
    (hkey : liveAt now (l.shard.view op.key) = liveAt now (m'.lookup op.key)) :
    Sim cfg assign now (s.runSection (assign op.key) l) m' := by
  obtain ⟨hwf, hsize, heff⟩ := lockedSection_spec cfg.maxTTL op now (h.wf (assign op.key))
  rw [← hl] at hwf hsize heff
  rw [h.runSection_eq hsize]
  refine h.update hwf (fun k hk => heff.other hk) hm hkey (fun id d hv => ?_) ?_
  · rcases heff.origin hv with hv' | ⟨-, -, -, -, -, -, -, rfl⟩
    · exact h.bound _ id d hv'
    · have := effectiveTTLMS_le cfg.maxTTL op
      exact Nat.add_le_add_left (Nat.mul_le_mul_right _ this) _
  · have := Family.le_sum (fun i => (s.shards i).size) (assign op.key)
    have hk := h.keys
    omega

/-- A remaining time that is within the maximal TTL is not cut. -/
theorem remainingTTLMS_eq {d : Time} (hd : d ≤ now + cfg.maxTTL * millisecond) :
    remainingTTLMS d now cfg.maxTTL = (d - now) / millisecond := by
  unfold remainingTTLMS
  apply Nat.min_eq_left
  calc (d - now) / millisecond ≤ cfg.maxTTL * millisecond / millisecond :=
        Nat.div_le_div_right (Nat.sub_le_iff_le_add'.mpr hd)
    _ = cfg.maxTTL := Nat.mul_div_cancel _ (by decide)

/-- The map has nothing expired at `now`, as after `dropExpired`. -/
def Clean (now : Time) (m : Reference) : Prop := ∀ k, m.lookup k = liveAt now (m.lookup k)

theorem clean_dropExpired (m : Reference) (now : Time) : Clean now (m.dropExpired now) := by
  intro k
  rw [Reference.lookup_dropExpired, liveAt_liveAt, max_self]

/-- What the map holds for a key, from what the shard stores for it. -/
theorem Sim.lookup_eq (h : Sim cfg assign now s m) (hc : Clean now m) (k : Nat) :
    m.lookup k = liveAt now ((s.shards (assign k)).view k) := by
  rw [hc k, h.agree k]

/-- The store side of `renew` and `release` is their locked section. -/
theorem Sim.renew_eq {op : Operation} {l : Locked} {r : Response} (i : Fin n)
    (heq : renewBody cfg.maxTTL (s.shards i) op now = l) (hr : l.reply = some r) :
    s.renew cfg i op now = (s.runSection i l, r) := by
  simp only [Store.renew, heq, hr, Option.getD_some]

theorem Sim.release_eq {op : Operation} {l : Locked} {r : Response} (i : Fin n)
    (heq : releaseBody (s.shards i) op now = l) (hr : l.reply = some r) :
    s.release i op now = (s.runSection i l, r) := by
  simp only [Store.release, heq, hr, Option.getD_some]

theorem Sim.renew (h : Sim cfg assign now s m) (hc : Clean now m) {op : Operation}
    (hkind : op.kind = .renew) :
    Sim cfg assign now (s.renew cfg (assign op.key) op now).1
        (m.answer cfg.maxTTL cfg.maxKeys op now).1 ∧
      (s.renew cfg (assign op.key) op now).2 =
        (m.answer cfg.maxTTL cfg.maxKeys op now).2 := by
  have hm := h.lookup_eq hc op.key
  have hl : renewBody cfg.maxTTL (s.shards (assign op.key)) op now =
      lockedSection cfg.maxTTL (s.shards (assign op.key)) op now := by
    rw [lockedSection, hkind]
  rcases renewBody_cases (s.shards (assign op.key)) cfg.maxTTL op now with
    ⟨hv, heq⟩ | ⟨id, d, p, hv, hd, hf, heq⟩ | ⟨id, d, hv, hid, hd, heq⟩ |
    ⟨d, p, hv, hd, hf, hcand, heq⟩ | ⟨d, hv, hd, hcand, heq⟩
  · rw [hv, liveAt_none] at hm
    have ha : m.answer cfg.maxTTL cfg.maxKeys op now =
        (m, renewResponse op.requestID LeaseStatus.stale 0) := by
      simp only [Reference.answer, hkind, hm]
    rw [ha, Sim.renew_eq _ heq rfl]
    exact ⟨h.runSection (heq ▸ hl) (fun _ _ => rfl) (by rw [hv, hm]), rfl⟩
  · obtain ⟨-, hview, -⟩ := removeLease_spec (h.wf (assign op.key)) hf
    rw [hv, liveAt_some, if_neg (not_lt.mpr hd)] at hm
    have ha : m.answer cfg.maxTTL cfg.maxKeys op now =
        (m, renewResponse op.requestID LeaseStatus.stale 0) := by
      simp only [Reference.answer, hkind, hm]
    rw [ha, Sim.renew_eq _ heq rfl]
    exact ⟨h.runSection (heq ▸ hl) (fun _ _ => rfl) (by rw [hview, if_pos rfl, hm]), rfl⟩
  · rw [hv, liveAt_some, if_pos hd] at hm
    have ha : m.answer cfg.maxTTL cfg.maxKeys op now =
        (m, renewResponse op.requestID LeaseStatus.stale 0) := by
      simp only [Reference.answer, hkind, hm, if_neg hid]
    rw [ha, Sim.renew_eq _ heq rfl]
    exact ⟨h.runSection (heq ▸ hl) (fun _ _ => rfl) (by rw [hv, hm]), rfl⟩
  · obtain ⟨-, hview, -⟩ := extend_spec (h.wf (assign op.key)) hf
      (now + effectiveTTLMS cfg.maxTTL op * millisecond)
    obtain ⟨p', hf', hid', -⟩ := exists_find_of_view hv
    rw [hf] at hf'
    cases hf'
    have hb : now + effectiveTTLMS cfg.maxTTL op * millisecond ≤
        now + cfg.maxTTL * millisecond :=
      Nat.add_le_add_left (Nat.mul_le_mul_right _ (effectiveTTLMS_le _ _)) _
    rw [hv, liveAt_some, if_pos hd] at hm
    have ha : m.answer cfg.maxTTL cfg.maxKeys op now =
        (m.insert op.key (op.leaseID, now + effectiveTTLMS cfg.maxTTL op * millisecond),
          renewResponse op.requestID LeaseStatus.ok
            (remainingTTLMS (now + effectiveTTLMS cfg.maxTTL op * millisecond) now cfg.maxTTL)) := by
      rw [remainingTTLMS_eq hb]
      simp only [Reference.answer, hkind, hm, if_true]
      rw [show max d (now + min op.requestedTTLMS cfg.maxTTL * millisecond) =
        now + effectiveTTLMS cfg.maxTTL op * millisecond from max_eq_right (le_of_lt hcand)]
    rw [ha, Sim.renew_eq _ heq rfl]
    refine ⟨h.runSection (heq ▸ hl) (fun k hk => AList.lookup_insert_ne hk) ?_, rfl⟩
    rw [hview, if_pos rfl, AList.lookup_insert, hid']
  · rw [hv, liveAt_some, if_pos hd] at hm
    have ha : m.answer cfg.maxTTL cfg.maxKeys op now =
        (m.insert op.key (op.leaseID, d), renewResponse op.requestID LeaseStatus.ok
          (remainingTTLMS d now cfg.maxTTL)) := by
      rw [remainingTTLMS_eq (h.bound _ _ _ hv)]
      simp only [Reference.answer, hkind, hm, if_true]
      rw [show max d (now + min op.requestedTTLMS cfg.maxTTL * millisecond) = d from
        max_eq_left hcand]
    rw [ha, Sim.renew_eq _ heq rfl]
    refine ⟨h.runSection (heq ▸ hl) (fun k hk => AList.lookup_insert_ne hk) ?_, rfl⟩
    rw [hv, AList.lookup_insert]

theorem Sim.release (h : Sim cfg assign now s m) (hc : Clean now m) {op : Operation}
    (hkind : op.kind = .release) :
    Sim cfg assign now (s.release (assign op.key) op now).1
        (m.answer cfg.maxTTL cfg.maxKeys op now).1 ∧
      (s.release (assign op.key) op now).2 =
        (m.answer cfg.maxTTL cfg.maxKeys op now).2 := by
  have hm := h.lookup_eq hc op.key
  have hl : releaseBody (s.shards (assign op.key)) op now =
      lockedSection cfg.maxTTL (s.shards (assign op.key)) op now := by
    rw [lockedSection, hkind]
  rcases releaseBody_cases (s.shards (assign op.key)) op now with
    ⟨hv, heq⟩ | ⟨id, d, p, hv, hd, hf, heq⟩ | ⟨id, d, hv, hid, hd, heq⟩
  · rw [hv, liveAt_none] at hm
    have ha : m.answer cfg.maxTTL cfg.maxKeys op now =
        (m, releaseResponse op.requestID LeaseStatus.ok) := by
      simp only [Reference.answer, hkind, hm]
    rw [ha, Sim.release_eq _ heq rfl]
    exact ⟨h.runSection (heq ▸ hl) (fun _ _ => rfl) (by rw [hv, hm]), rfl⟩
  · obtain ⟨-, hview, -⟩ := removeLease_spec (h.wf (assign op.key)) hf
    by_cases hlive : now < d
    · have hid : id = op.leaseID := hd.resolve_left (not_le.mpr hlive)
      rw [hv, liveAt_some, if_pos hlive] at hm
      have ha : m.answer cfg.maxTTL cfg.maxKeys op now =
          (m.erase op.key, releaseResponse op.requestID LeaseStatus.ok) := by
        simp only [Reference.answer, hkind, hm, if_pos hid]
      rw [ha, Sim.release_eq _ heq rfl]
      refine ⟨h.runSection (heq ▸ hl) (fun k hk => AList.lookup_erase_ne hk) ?_, rfl⟩
      rw [hview, if_pos rfl, AList.lookup_erase]
    · rw [hv, liveAt_some, if_neg hlive] at hm
      have ha : m.answer cfg.maxTTL cfg.maxKeys op now =
          (m, releaseResponse op.requestID LeaseStatus.ok) := by
        simp only [Reference.answer, hkind, hm]
      rw [ha, Sim.release_eq _ heq rfl]
      exact ⟨h.runSection (heq ▸ hl) (fun _ _ => rfl) (by rw [hview, if_pos rfl, hm]), rfl⟩
  · rw [hv, liveAt_some, if_pos hd] at hm
    have ha : m.answer cfg.maxTTL cfg.maxKeys op now =
        (m, releaseResponse op.requestID LeaseStatus.ok) := by
      simp only [Reference.answer, hkind, hm, if_neg hid]
    rw [ha, Sim.release_eq _ heq rfl]
    exact ⟨h.runSection (heq ▸ hl) (fun _ _ => rfl) (by rw [hv, hm]), rfl⟩

/-- What the reference machine answers to Acquire of a key it does not hold. -/
theorem answer_acquire_none (cfg : Config) (now : Time) {op : Operation} (hkind : op.kind = .acquire)
    (hm : m.lookup op.key = none) :
    m.answer cfg.maxTTL cfg.maxKeys op now =
      if effectiveTTLMS cfg.maxTTL op = 0 then
        (m, acquireResponse op.requestID LeaseStatus.ok 0)
      else if cfg.maxKeys ≤ m.size then
        (m, acquireResponse op.requestID LeaseStatus.keyLimitReached 0)
      else
        (m.insert op.key (op.leaseID, now + effectiveTTLMS cfg.maxTTL op * millisecond),
          acquireResponse op.requestID LeaseStatus.ok (effectiveTTLMS cfg.maxTTL op)) := by
  simp only [Reference.answer, hkind, hm]
  rfl

/-- `acquireLocked` past the removal of an expired entry, on a key that is not stored: it answers as
the reference machine, or the counter is at its limit. -/
theorem Sim.acquireTail (h : Sim cfg assign now s m) (hc : Clean now m) (pool : PoolGet)
    {op : Operation} (hkind : op.kind = .acquire)
    (hv : (s.shards (assign op.key)).view op.key = none) :
    (∃ s' r, s.acquireTail cfg pool (assign op.key) op now = (s', some r) ∧
      Sim cfg assign now s' (m.answer cfg.maxTTL cfg.maxKeys op now).1 ∧
      r = (m.answer cfg.maxTTL cfg.maxKeys op now).2) ∨
    (s.acquireTail cfg pool (assign op.key) op now = (s, none) ∧ cfg.maxKeys ≤ s.keys ∧
      effectiveTTLMS cfg.maxTTL op ≠ 0) := by
  have hm := h.lookup_eq hc op.key
  rw [hv, liveAt_none] at hm
  unfold Store.acquireTail
  by_cases hz : effectiveTTLMS cfg.maxTTL op = 0
  · left
    have ha := (answer_acquire_none cfg now hkind hm).trans (if_pos hz)
    rw [ha, if_pos hz]
    exact ⟨s, _, rfl, h, rfl⟩
  · by_cases hfull : cfg.maxKeys ≤ s.keys
    · right
      simp [hz, Store.reserveKey, hfull]
    · left
      have hsz : ¬ cfg.maxKeys ≤ m.size := fun hle => hfull (le_trans hle (h.size_le hc))
      have ha := (answer_acquire_none cfg now hkind hm).trans
        ((if_neg hz).trans (if_neg hsz))
      rw [ha]
      refine ⟨_, _, by simp only [hz, if_false, Store.reserveKey, hfull, if_true]; rfl, ?_, rfl⟩
      obtain ⟨hwf, hview, hsize⟩ := addLease_spec (h.wf (assign op.key)) pool op.leaseID
        (now + effectiveTTLMS cfg.maxTTL op * millisecond) (view_eq_none.mp hv)
      simp only [Store.setShard, h.ok]
      refine h.update hwf (fun k hk => by rw [hview, if_neg hk])
        (fun k hk => AList.lookup_insert_ne hk)
        (by rw [hview, if_pos rfl, AList.lookup_insert]) (fun id d hd => ?_) (by omega)
      rw [hview, if_pos rfl] at hd
      cases hd
      exact Nat.add_le_add_left (Nat.mul_le_mul_right _ (effectiveTTLMS_le _ _)) _

/-- One attempt of Acquire: the answer of the reference machine, or a full counter with nothing
changed but the removal of an expired entry. -/
theorem Sim.acquireLocked (h : Sim cfg assign now s m) (hc : Clean now m) (pool : PoolGet)
    {op : Operation} (hkind : op.kind = .acquire) :
    (∃ s' r, s.acquireLocked cfg pool (assign op.key) op now = (s', some r) ∧
      Sim cfg assign now s' (m.answer cfg.maxTTL cfg.maxKeys op now).1 ∧
      r = (m.answer cfg.maxTTL cfg.maxKeys op now).2) ∨
    (∃ s', s.acquireLocked cfg pool (assign op.key) op now = (s', none) ∧
      Sim cfg assign now s' m ∧ cfg.maxKeys ≤ s'.keys ∧ effectiveTTLMS cfg.maxTTL op ≠ 0 ∧
      m.lookup op.key = none ∧
      ∀ i k, (s'.shards i).view k = (s.shards i).view k ∨ (s'.shards i).view k = none) := by
  have hm := h.lookup_eq hc op.key
  have hl : acquireHead cfg.maxTTL (s.shards (assign op.key)) op now =
      lockedSection cfg.maxTTL (s.shards (assign op.key)) op now := by
    rw [lockedSection, hkind]
  unfold Store.acquireLocked
  rcases acquireHead_cases (s.shards (assign op.key)) cfg.maxTTL op now with
    ⟨d, hv, hd, heq⟩ | ⟨id, d, hv, hid, hd, heq⟩ | ⟨id, d, p, hv, hd, hf, heq⟩ | ⟨hv, heq⟩
  · rw [hv, liveAt_some, if_pos hd] at hm
    have ha : m.answer cfg.maxTTL cfg.maxKeys op now =
        (m, acquireResponse op.requestID LeaseStatus.alreadyOwned
          (remainingTTLMS d now cfg.maxTTL)) := by
      rw [remainingTTLMS_eq (h.bound _ _ _ hv)]
      simp only [Reference.answer, hkind, hm, if_true]
    left
    simp only [heq, ha]
    exact ⟨_, _, rfl, h.runSection (heq ▸ hl) (fun _ _ => rfl) (by rw [hv, hm]), rfl⟩
  · rw [hv, liveAt_some, if_pos hd] at hm
    have ha : m.answer cfg.maxTTL cfg.maxKeys op now =
        (m, acquireResponse op.requestID LeaseStatus.busy 0) := by
      simp only [Reference.answer, hkind, hm, if_neg hid]
    left
    simp only [heq, ha]
    exact ⟨_, _, rfl, h.runSection (heq ▸ hl) (fun _ _ => rfl) (by rw [hv, hm]), rfl⟩
  · obtain ⟨hwf, hview, hsize⟩ := removeLease_spec (h.wf (assign op.key)) hf
    rw [hv, liveAt_some, if_neg (not_lt.mpr hd)] at hm
    simp only [heq]
    have hs := h.runSection (heq ▸ hl) (fun _ _ => rfl) (by rw [hview, if_pos rfl, hm])
    have hsh := h.runSection_eq (i := assign op.key)
      (l := ⟨(s.shards (assign op.key)).removeLease p, 1, none⟩) hsize
    have hv' : ((s.runSection (assign op.key)
        ⟨(s.shards (assign op.key)).removeLease p, 1, none⟩).shards (assign op.key)).view
        op.key = none := by
      rw [hsh]
      simp only [Function.update_self, hview, if_true]
    refine (hs.acquireTail hc pool hkind hv').imp_right fun ⟨h1, h2, h3⟩ =>
      ⟨_, h1, hs, h2, h3, hm, fun i k => ?_⟩
    rw [hsh]
    by_cases hi : i = assign op.key
    · subst hi
      simp only [Function.update_self, hview]
      split_ifs
      · exact Or.inr rfl
      · exact Or.inl rfl
    · simp only [Function.update_of_ne hi, true_or]
  · rw [hv, liveAt_none] at hm
    simp only [heq]
    have hs := h.runSection (heq ▸ hl) (fun _ _ => rfl) (by rw [hv, hm])
    have hsh := h.runSection_eq (i := assign op.key)
      (l := ⟨s.shards (assign op.key), 0, none⟩) rfl
    have hv' : ((s.runSection (assign op.key) ⟨s.shards (assign op.key), 0, none⟩).shards
        (assign op.key)).view op.key = none := by
      rw [hsh]
      simp only [Function.update_self, hv]
    refine (hs.acquireTail hc pool hkind hv').imp_right fun ⟨h1, h2, h3⟩ =>
      ⟨_, h1, hs, h2, h3, hm, fun i k => ?_⟩
    rw [hsh]
    simp only [Function.update_eq_self, true_or]

theorem Sim.acquire (h : Sim cfg assign now s m) (hc : Clean now m) (pool : PoolGet)
    {op : Operation} (hkind : op.kind = .acquire) :
    Sim cfg assign now (s.acquire cfg pool (assign op.key) op now).1
        (m.answer cfg.maxTTL cfg.maxKeys op now).1 ∧
      (s.acquire cfg pool (assign op.key) op now).2 =
        (m.answer cfg.maxTTL cfg.maxKeys op now).2 := by
  unfold Store.acquire
  rcases h.acquireLocked hc pool hkind with ⟨s', r, heq, hs, hr⟩ | ⟨s', heq, hs, -, -, -, -⟩
  · simp only [heq]
    exact ⟨hs, hr⟩
  · simp only [heq]
    obtain ⟨hs2, hview⟩ := hs.cleanup now
    rw [max_self] at hs2
    rcases hs2.acquireLocked hc pool hkind with
      ⟨s3, r, heq3, hs3, hr⟩ | ⟨s3, heq3, hs3, hfull, hz, hm, hkept⟩
    · simp only [heq3]
      exact ⟨hs3, hr⟩
    · simp only [heq3]
      -- the cleanup left nothing expired, so a full counter means as many live entries
      have hclean : ∀ i k, (s3.shards i).view k = liveAt now ((s3.shards i).view k) := by
        intro i k
        rcases hkept i k with e | e
        · rw [e, hview, liveAt_liveAt, max_self]
        · rw [e]; rfl
      rw [answer_acquire_none cfg now hkind hm, if_neg hz,
        if_pos (le_trans hfull (hs3.le_size hclean))]
      exact ⟨hs3, rfl⟩

/-- **One operation on a store answers as the reference machine**, and the store goes on
representing its map. -/
theorem apply_refines (h : Sim cfg assign t s m) (hn : t ≤ now) (pool : PoolGet) (op : Operation) :
    Sim cfg assign now (s.apply cfg pool (assign op.key) op now).1
        (Reference.apply cfg.maxTTL cfg.maxKeys m op now).1 ∧
      (s.apply cfg pool (assign op.key) op now).2 =
        (Reference.apply cfg.maxTTL cfg.maxKeys m op now).2 := by
  have h' := h.advance hn
  have hc := clean_dropExpired m now
  unfold Store.apply Reference.apply
  cases hkind : op.kind with
  | acquire => exact h'.acquire hc pool hkind
  | renew => exact h'.renew hc hkind
  | release => exact h'.release hc hkind

/-! ## Runs -/

/-- One step of a run: an operation at the time it reads, with what the pool returns to it, or a
background cleanup. -/
inductive Event where
  | op (op : Operation) (now : Time) (pool : PoolGet)
  | cleanup (now : Time)

/-- The clock reading of a step. -/
def Event.time : Event → Time
  | .op _ now _ => now
  | .cleanup now => now

/-- The step is an operation. -/
def Event.IsOp : Event → Prop
  | .op .. => True
  | .cleanup _ => False

/-- The responses of the store to a run, each key in the shard that `assign` gives it. -/
def runStore (cfg : Config) (assign : Nat → Fin n) : Store n → List Event → List Response
  | _, [] => []
  | s, .op o now pool :: rest =>
    let r := s.apply cfg pool (assign o.key) o now
    r.2 :: runStore cfg assign r.1 rest
  | s, .cleanup now :: rest => runStore cfg assign (s.removeExpiredKeys now) rest

/-- The responses of the reference machine: it has no cleanups. -/
def runReference (maxTTL maxKeys : Nat) : Reference → List Event → List Response
  | _, [] => []
  | m, .op o now _ :: rest =>
    let r := Reference.apply maxTTL maxKeys m o now
    r.2 :: runReference maxTTL maxKeys r.1 rest
  | m, .cleanup _ :: rest => runReference maxTTL maxKeys m rest

/-- The clock of an operation is not behind that of any earlier step. -/
def Timely (events : List Event) : Prop :=
  events.Pairwise fun e e' => e'.IsOp → e.time ≤ e'.time

/-- From related states, a run whose operations all come at `t` or later. -/
theorem Sim.run : ∀ (events : List Event) (t : Time) (s : Store n) (m : Reference),
    Sim cfg assign t s m → (∀ e ∈ events, e.IsOp → t ≤ e.time) → Timely events →
    runStore cfg assign s events = runReference cfg.maxTTL cfg.maxKeys m events
  | [], _, _, _, _, _, _ => rfl
  | .op o now pool :: rest, t, s, m, h, ht, htl => by
    obtain ⟨hs, hr⟩ := apply_refines h (ht _ List.mem_cons_self trivial) pool o
    rw [Timely, List.pairwise_cons] at htl
    simp only [runStore, runReference, List.cons.injEq]
    exact ⟨hr, Sim.run rest now _ _ hs (fun e he hop => htl.1 e he hop) htl.2⟩
  | .cleanup c :: rest, t, s, m, h, ht, htl => by
    rw [Timely, List.pairwise_cons] at htl
    simp only [runStore, runReference]
    refine Sim.run rest (max t c) _ _ (h.cleanup c).1 (fun e he hop => ?_) htl.2
    exact max_le (ht e (List.mem_cons_of_mem _ he) hop) (htl.1 e he hop)

/-- **The sharded store with lazy expiry refines the eager reference machine**: for every
configuration, every assignment of keys to shards and every run with non-decreasing clock readings
and background cleanups anywhere, the responses are those of the reference machine. -/
theorem runStore_eq_reference (cfg : Config) (assign : Nat → Fin cfg.shardCount)
    (events : List Event) (h : Timely events) :
    runStore cfg assign (Store.init cfg.shardCount) events =
      runReference cfg.maxTTL cfg.maxKeys ∅ events :=
  Sim.run events 0 _ _ (sim_init cfg assign 0) (fun _ _ _ => Nat.zero_le _) h

/-- Three Acquires of one client: of key 0 for 2 ms, of key 1 when the store is full, and of key 1
again once the entry of key 0 has expired in the other shard. -/
def tinyEvents : List Event :=
  let acquire (requestID key : Nat) : Operation := ⟨requestID, .acquire, key, ⟨1, 1, key⟩, 2, 0⟩
  [.op (acquire 1 0) 0 .fresh, .op (acquire 2 1) 1000000 .fresh, .op (acquire 3 1) 2000000 .fresh]

theorem timely_tinyEvents : Timely tinyEvents := by
  simp [Timely, tinyEvents, Event.IsOp, Event.time]

theorem runStore_tinyEvents :
    runStore tinyConfig (Fin.ofNat 2) (Store.init 2) tinyEvents =
      [acquireResponse 1 LeaseStatus.ok 2, acquireResponse 2 LeaseStatus.keyLimitReached 0,
        acquireResponse 3 LeaseStatus.ok 2] :=
  (runStore_eq_reference tinyConfig (Fin.ofNat 2) tinyEvents timely_tinyEvents).trans (by decide)

end RedLease.Server

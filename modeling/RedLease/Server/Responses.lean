import RedLease.Server.Turns

/-!
# The response ring of a connection

What `sendResponses` takes out of the ring is what was put into it, in this order, and when it finds
nothing because a slot is not published, the producer of that slot is still at work.

* `Ring`: the ring and the response in the writer's hand, against the session.
* **`Ring.after_step`**: every step keeps it, and one response at most comes in.
-/

namespace RedLease.Server

open Lib LeaseShard

namespace Exchange

variable {n m : Nat} {cfg : Config} {assign : Nat → Fin n} {fb : Accessors} {c : Nat}
  {s s' : Exchange n m} {e : System.Event n m} {sys : System n m}

/-! ## The response ring -/

/-- The producer has claimed a slot and not published it. -/
def producing (s : Exchange n m) : Origin n → Prop
  | none => s.publishing = true
  | some i => s.handing i = .publishing

/-- The ring and the writer's own response against the session. -/
structure Ring (ss : Session) (s : Exchange n m) : Prop where
  slots : s.slots.map Slot.response = ss.respQueue
  hand : s.hand.map Prod.snd = ss.writer.inHand
  unpublished : ∀ x ∈ s.slots, x.published = false → s.producing x.origin
  flushed : ss.writer.settled = true → s.flushed = s.written.length

theorem ring_init (clock : Time) : Ring .start (init n m clock) where
  slots := rfl
  hand := rfl
  unpublished _ h := nomatch h
  flushed _ := rfl

section Ring

variable {ss ss' : Session}

theorem Ring.congr (h : Ring ss s) (hq : ss'.respQueue = ss.respQueue)
    (hw : ss'.writer = ss.writer) : Ring ss' s where
  slots := h.slots.trans hq.symm
  hand := hw ▸ h.hand
  unpublished := h.unpublished
  flushed he := h.flushed (hw ▸ he)

/-- A producer claims a slot. -/
theorem Ring.claim (h : Ring ss s) (x : Origin n × Response)
    (hq : ss'.respQueue = ss.respQueue ++ [x.2]) (hw : ss'.writer = ss.writer) :
    Ring ss' (s.claim x) := by
  obtain ⟨o, r⟩ := x
  have hslots : (s.slots ++ [Slot.mk o r false]).map Slot.response = ss'.respQueue := by
    rw [List.map_append, h.slots, hq]
    rfl
  cases o with
  | none =>
    refine ⟨hslots, hw ▸ h.hand, fun x hx hp => ?_, fun he => h.flushed (hw ▸ he)⟩
    rcases List.mem_append.mp hx with hx | hx
    · have hold := h.unpublished x hx hp
      cases ho : x.origin with
      | none => rfl
      | some i => rw [ho] at hold; exact hold
    · rw [List.mem_singleton.mp hx]
      rfl
  | some i =>
    refine ⟨hslots, hw ▸ h.hand, fun x hx hp => ?_, fun he => h.flushed (hw ▸ he)⟩
    rcases List.mem_append.mp hx with hx | hx
    · have hold := h.unpublished x hx hp
      cases ho : x.origin with
      | none => rw [ho] at hold; exact hold
      | some j =>
        rw [ho] at hold
        show Function.update s.handing i .publishing j = .publishing
        by_cases hij : j = i
        · rw [hij, Function.update_self]
        · rw [Function.update_of_ne hij]
          exact hold
    · rw [List.mem_singleton.mp hx]
      exact Function.update_self ..

/-- What `sendResponses` does to the ring, and that no response gets lost on the way. -/
theorem Ring.sends (h : Ring ss s) (hs : Sends ss ss') :
    Ring ss' (s.noteWriter ss.writer ss'.writer) ∧
      (s.noteWriter ss.writer ss'.writer).claimed = s.claimed := by
  have hempty : ss.writer.inHand = none → s.hand = none := fun hw =>
    Option.map_eq_none_iff.mp (h.hand.trans hw)
  have moved : ∀ {ss₁ : Session}, ss₁.respQueue = ss.respQueue → ss.writer.inHand = none →
      ss₁.writer.inHand = none → (ss₁.writer.settled = true → ss.writer.settled = true) →
      s.noteWriter ss.writer ss₁.writer = s →
      Ring ss₁ (s.noteWriter ss.writer ss₁.writer) ∧
        (s.noteWriter ss.writer ss₁.writer).claimed = s.claimed := by
    intro ss₁ hq hw hw₁ hsettled hnote
    rw [hnote]
    exact ⟨⟨h.slots.trans hq.symm, h.hand.trans (hw.trans hw₁.symm), h.unpublished,
      fun he => h.flushed (hsettled he)⟩, rfl⟩
  cases hs with
  | popped r rest hw hq =>
    have hslots := h.slots
    rw [hq] at hslots
    obtain ⟨x, xs, hx, rfl, hxs⟩ := List.map_eq_cons_iff.mp hslots
    have hnote : s.noteWriter ss.writer (.buffer x.response) = s.pop := by
      rcases hw with hw | hw | hw <;> rw [hw] <;> rfl
    have hnone : s.hand = none := hempty (by rcases hw with hw | hw | hw <;> rw [hw] <;> rfl)
    dsimp only
    rw [hnote]
    refine ⟨⟨?_, ?_, fun y hy hp => ?_, nofun⟩, ?_⟩
    · simpa only [pop, hx, List.tail_cons] using hxs
    · simp only [pop, hx, List.head?_cons, Option.map_some, Writer.inHand]
    · exact h.unpublished y (List.mem_of_mem_tail hy) hp
    · simp only [claimed, pop, hx, hnone, List.head?_cons, List.tail_cons, Option.map_some,
        Option.toList_some, Option.toList_none, List.map_cons, List.append_assoc, List.nil_append,
        List.cons_append]
  | buffered r hw =>
    rw [hw]
    refine ⟨⟨h.slots, rfl, h.unpublished, nofun⟩, ?_⟩
    simp only [claimed, noteWriter, Option.toList_none, List.append_nil]
  | flushed hw =>
    rw [hw]
    refine ⟨⟨h.slots, h.hand.trans ?_, h.unpublished, fun _ => rfl⟩, rfl⟩
    rw [hw]
    rfl
  | flushing hw =>
    exact moved rfl (by rw [hw]; rfl) rfl nofun (by rw [hw]; rfl)
  | waiting hw | woken err hw hr | drained hw hr hp hq | closed hw | joined hw | done hw =>
    exact moved rfl (by rw [hw]; rfl) rfl (fun _ => by rw [hw]; rfl) (by rw [hw]; rfl)

/-! ### Steps -/

theorem note_aside (hclaims : s.claims c e = none) (hwriter : ∀ choice, e ≠ .writer c choice) :
    s.note c assign fb e sys = s.record c assign fb e sys := by
  unfold note
  dsimp only
  split
  · rename_i c' choice
    exact if_neg fun hcc : c' = c => hwriter choice (hcc ▸ rfl)
  · rw [hclaims]
    rfl

theorem claims_of_ne (h : ∀ r, (s.sys.session c).reader ≠ .enqueue r) :
    s.claims c (.reader c) = none := by
  unfold claims
  dsimp only
  rw [if_pos rfl]
  split
  · rename_i r hr
    exact absurd hr (h r)
  · rfl

theorem claims_enqueue {r : Response} (hr : (s.sys.session c).reader = .enqueue r)
    (hroom : (s.sys.session c).respQueue.length < responseQueueCapacity) :
    s.claims c (.reader c) = some (none, r) := by
  simp only [claims, if_true, hr, hroom]

theorem claims_respond {i : Fin n} {job : Job} {r : Response}
    (hw : s.sys.server.workers i = .reply job r) (hown : job.op.session = c)
    (hroom : (s.sys.session c).respQueue.length < responseQueueCapacity) :
    s.claims c (.respond i) = some (some i, r) := by
  simp only [claims, hw, hown, hroom, and_self, if_true]

/-- What the ring is after a step, and which response has come into it. -/
theorem Ring.after_step (h : Ring (s.sys.session c) s) (ht : Turn cfg assign fb c s e sys) :
    Ring (sys.session c) (s.note c assign fb e sys) ∧
      (s.note c assign fb e sys).claimed = s.claimed ++ (s.claims c e).toList := by
  have hrecord : Ring (s.sys.session c) (s.record c assign fb e sys) :=
    ⟨h.slots, h.hand, h.unpublished, h.flushed⟩
  have aside : s.claims c e = none → (∀ choice, e ≠ .writer c choice) →
      (sys.session c).respQueue = (s.sys.session c).respQueue →
      (sys.session c).writer = (s.sys.session c).writer →
      Ring (sys.session c) (s.note c assign fb e sys) ∧
        (s.note c assign fb e sys).claimed = s.claimed ++ (s.claims c e).toList := by
    intro hclaims hwriter hq hw
    rw [note_aside hclaims hwriter, hclaims, Option.toList_none, List.append_nil]
    exact ⟨hrecord.congr hq hw, rfl⟩
  have claimed : ∀ {x}, s.claims c e = some x → (∀ c' choice, e ≠ .writer c' choice) →
      (sys.session c).respQueue = (s.sys.session c).respQueue ++ [x.2] →
      (sys.session c).writer = (s.sys.session c).writer →
      Ring (sys.session c) (s.note c assign fb e sys) ∧
        (s.note c assign fb e sys).claimed = s.claimed ++ (s.claims c e).toList := by
    intro x hclaims hwriter hq hw
    rw [note_of_claims hwriter, hclaims, Option.elim_some, Option.toList_some, claim_claimed]
    exact ⟨hrecord.claim x hq hw, rfl⟩
  cases ht with
  | aside hsession hreceives hdecodes hclaims hwriter hmine =>
    exact aside hclaims hwriter (by rw [hsession]) (by rw [hsession])
  | received bytes he hsession | hungUp he hsession =>
    subst he
    exact aside rfl nofun (by rw [hsession]) (by rw [hsession])
  | reader he hr hopen hmoves =>
    subst he
    rcases hr.queue hopen with ⟨r, hr', hroom, hq⟩ | ⟨hne, hq⟩
    · exact claimed (claims_enqueue hr' hroom) nofun hq hr.writer_eq
    · exact aside (claims_of_ne hne) nofun hq hr.writer_eq
  | dispatched op he hr hown hsession hmoves =>
    subst he
    exact aside (claims_of_ne (by rw [hr]; nofun)) nofun (by rw [hsession]) (by rw [hsession])
  | writer choice he hw =>
    subst he
    rw [note_writer, show s.claims c (.writer c choice) = none from rfl, Option.toList_none,
      List.append_nil]
    exact hrecord.sends hw
  | responded i job r he hw hown hanswers hpending hroom hsession =>
    subst he
    exact claimed (claims_respond hw hown hroom) nofun (by rw [hsession]) (by rw [hsession])

end Ring

end Exchange

end RedLease.Server

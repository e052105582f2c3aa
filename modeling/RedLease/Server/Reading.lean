import RedLease.Server.Turns

/-!
# The reader of a connection that is served

The bytes of the stream arrive in pieces of any size. `ReadFrame` finds the frames that were sent, in
this order, and the reader ends when all of them are decoded.

* `Reading`: what the reader has consumed, decoded and holds, against what the client sends.
* **`Reading.after_step`** and **`Live.after_step`**: every step of a fair run keeps both.
-/

namespace RedLease.Server

open Lib LeaseShard

/-! ## Frames that arrive in pieces -/

theorem readFrame_eq_self {f : List UInt8} (h : readFrame f = .complete f []) :
    ∃ b₀ b₁ b₂ b₃ payload, f = b₀ :: b₁ :: b₂ :: b₃ :: payload ∧
      payload.length = littleEndian b₀ b₁ b₂ b₃ ∧
      ¬(payload.length < sizeUint32 ∨ maxFrameBytes - sizeUint32 < payload.length) := by
  unfold readFrame at h
  split at h
  · rename_i b₀ b₁ b₂ b₃ rest
    dsimp only at h
    split_ifs at h with hsize hlen
    injection h with htake hdrop
    have hall : rest.take (littleEndian b₀ b₁ b₂ b₃) = rest := by simpa using htake
    have hle : rest.length ≤ littleEndian b₀ b₁ b₂ b₃ := List.drop_eq_nil_iff.mp hdrop
    have heq : rest.length = littleEndian b₀ b₁ b₂ b₃ := by omega
    exact ⟨b₀, b₁, b₂, b₃, rest, rfl, heq, heq ▸ hsize⟩
  · cases h

/-- What `ReadFrame` finds in a part of a stream that begins with frame `f`. -/
theorem readFrame_of_part {f l tail : List UInt8} (h : readFrame f = .complete f [])
    (hl : l <+: f ++ tail) :
    readFrame l = .incomplete ∧ ¬ f <+: l ∨ ∃ rest, l = f ++ rest ∧ readFrame l = .complete f rest := by
  obtain ⟨b₀, b₁, b₂, b₃, payload, rfl, hlen, hsize⟩ := readFrame_eq_self h
  -- fewer than four bytes are no size
  match l, hl with
  | [], _ => exact Or.inl ⟨rfl, by simp⟩
  | [_], _ => exact Or.inl ⟨rfl, by simp⟩
  | [_, _], _ => exact Or.inl ⟨rfl, by simp⟩
  | [_, _, _], _ => exact Or.inl ⟨rfl, by simp⟩
  | c₀ :: c₁ :: c₂ :: c₃ :: rest, hl =>
    simp only [List.cons_append, List.cons_prefix_cons] at hl
    obtain ⟨rfl, rfl, rfl, rfl, hrest⟩ := hl
    simp only [readFrame, ← hlen, if_neg hsize]
    by_cases hshort : rest.length < payload.length
    · rw [if_pos hshort]
      refine Or.inl ⟨rfl, fun hp => ?_⟩
      simp only [List.cons_prefix_cons, true_and] at hp
      exact absurd hp.length_le (Nat.not_le.mpr hshort)
    · rw [if_neg hshort]
      have hpre : payload <+: rest :=
        List.prefix_of_prefix_length_le (List.prefix_append payload tail) hrest
          (Nat.not_lt.mp hshort)
      obtain ⟨rest', rfl⟩ := hpre
      refine Or.inr ⟨rest', by simp, ?_⟩
      rw [List.take_left, List.drop_left]

namespace Exchange

variable {n m : Nat} {cfg : Config} {assign : Nat → Fin n} {fb : Accessors} {c : Nat}
  {s s' : Exchange n m} {e : System.Event n m} {sys : System n m}

/-! ## The stream of requests -/

/-- The client sends these requests in these frames. -/
structure Sent (fb : Accessors) (c : Nat) (frames : List (List UInt8)) (reqs : List Request) :
    Prop where
  frame : ∀ f ∈ frames, readFrame f = .complete f []
  decode : frames.map (fun f => decodeRequest fb f c) = reqs.map Except.ok

/-- What the reader has consumed and decoded of what the client sends. -/
structure Reading (frames : List (List UInt8)) (reqs : List Request) (ss : Session)
    (bytes : List UInt8) (decoded : List Request) : Prop where
  arrived : bytes <+: frames.flatten
  eof : ss.eof = true → bytes = frames.flatten
  consumed : bytes =
    (frames.take (decoded.length + ss.undecoded.toList.length)).flatten ++ ss.input
  undecoded : ∀ f, ss.undecoded = some f → frames[decoded.length]? = some f
  requests : decoded <+: reqs
  current : ∀ op, ss.reader = .phase op ∨ ss.reader = .dispatch op →
    decoded.getLast? = some (.lease op)
  stopped : ss.reader = .stopped → decoded.length = frames.length

theorem reading_init {frames : List (List UInt8)} {reqs : List Request} :
    Reading frames reqs .start [] [] where
  arrived := List.nil_prefix
  eof h := nomatch h
  consumed := rfl
  undecoded _ h := nomatch h
  requests := List.nil_prefix
  current _ h := h.elim nofun nofun
  stopped h := nomatch h

section Reading

variable {frames : List (List UInt8)} {reqs : List Request} {ss : Session} {bytes : List UInt8}
  {decoded : List Request}

theorem Sent.length_eq (h : Sent fb c frames reqs) : frames.length = reqs.length := by
  have := congrArg List.length h.decode
  rwa [List.length_map, List.length_map] at this

theorem Sent.getElem (h : Sent fb c frames reqs) {k : Nat} {f : List UInt8}
    (hf : frames[k]? = some f) : ∃ q, reqs[k]? = some q ∧ decodeRequest fb f c = .ok q := by
  have hk := congrArg (fun l => l[k]?) h.decode
  simp only [List.getElem?_map, hf, Option.map_some] at hk
  obtain ⟨q, hq, heq⟩ := Option.map_eq_some_iff.mp hk.symm
  exact ⟨q, hq, heq.symm⟩

/-- A reader that waits for a frame has consumed the frames of the decoded requests. -/
theorem Reading.input (h : Reading frames reqs ss bytes decoded) (hr : ss.undecoded = none) :
    ss.input <+: (frames.drop decoded.length).flatten ∧
      (ss.eof = true → ss.input = (frames.drop decoded.length).flatten) := by
  have hsplit : frames.flatten =
      (frames.take decoded.length).flatten ++ (frames.drop decoded.length).flatten := by
    rw [← List.flatten_append, List.take_append_drop]
  have hconsumed := h.consumed
  rw [hr, Option.toList_none, List.length_nil, Nat.add_zero] at hconsumed
  refine ⟨?_, fun he => ?_⟩
  · have hpre := h.arrived
    rw [hconsumed, hsplit] at hpre
    exact (List.prefix_append_right_inj _).mp hpre
  · have heq := h.eof he
    rw [hconsumed, hsplit] at heq
    exact List.append_cancel_left heq

/-- What the reader finds in its input: everything is read, or the next frame is there, or it is not
there completely. -/
theorem Reading.next (h : Reading frames reqs ss bytes decoded) (hsent : Sent fb c frames reqs)
    (hr : ss.undecoded = none) :
    (decoded.length = frames.length ∧ ss.input = [] ∧ readFrame ss.input = .incomplete) ∨
      (readFrame ss.input = .incomplete ∧ ss.eof = false) ∨
      ∃ f rest, frames[decoded.length]? = some f ∧ ss.input = f ++ rest ∧
        readFrame ss.input = .complete f rest := by
  obtain ⟨hpre, heof⟩ := h.input hr
  have hle : decoded.length ≤ frames.length := hsent.length_eq ▸ h.requests.length_le
  cases hdrop : frames.drop decoded.length with
  | nil =>
    rw [hdrop, List.flatten_nil, List.prefix_nil] at hpre
    refine Or.inl ⟨le_antisymm hle (List.drop_eq_nil_iff.mp hdrop), hpre, ?_⟩
    rw [hpre]
    rfl
  | cons f tail =>
    have hf : frames[decoded.length]? = some f := by
      rw [← List.head?_drop, hdrop, List.head?_cons]
    have hmem : f ∈ frames := List.mem_of_getElem? hf
    rw [hdrop, List.flatten_cons] at hpre heof
    rcases readFrame_of_part (hsent.frame f hmem) hpre with ⟨hinc, hnot⟩ | ⟨rest, heq, hcomplete⟩
    · refine Or.inr (Or.inl ⟨hinc, Bool.not_eq_true _ ▸ fun he => hnot ?_⟩)
      rw [heof he]
      exact List.prefix_append ..
    · exact Or.inr (Or.inr ⟨f, rest, hf, heq, hcomplete⟩)

/-- The reader reports an error only at the end of the stream. -/
theorem Reading.ends (h : Reading frames reqs ss bytes decoded) (hsent : Sent fb c frames reqs)
    (hlive : Live ss) {phase : Phase} (hp : phase.unavailable = false) {err : ReadError}
    (he : Ends fb phase c ss err) :
    err = .eof ∧ decoded.length = frames.length ∧ ss.undecoded = none := by
  have hnone : ss.reader = .read → ss.undecoded = none := fun hr => by rw [Session.undecoded, hr]
  cases he with
  | invalid size hr hf =>
    rcases h.next hsent (hnone hr) with ⟨-, -, hinc⟩ | ⟨hinc, -⟩ | ⟨f, rest, -, -, hcomplete⟩
    all_goals simp_all
  | closed hr hc =>
    have hstopped := (hlive.ended (hlive.connClosed hc)).1
    rw [hr] at hstopped
    cases hstopped
  | eof hr hf he =>
    rcases h.next hsent (hnone hr) with ⟨hall, hnil, -⟩ | ⟨-, heof⟩ | ⟨f, rest, -, -, hcomplete⟩
    · rw [hnil]
      exact ⟨rfl, hall, hnone hr⟩
    · rw [he] at heof
      cases heof
    · rw [hf] at hcomplete
      cases hcomplete
  | unavailable frame hr hp' => rw [hp] at hp'; cases hp'
  | malformed frame reason hr hd =>
    have hf : frames[decoded.length]? = some frame :=
      h.undecoded frame (by rw [Session.undecoded, hr])
    obtain ⟨q, -, hq⟩ := hsent.getElem hf
    rw [hq] at hd
    cases hd

/-- A frame is decoded. -/
theorem Reading.decode (h : Reading frames reqs ss bytes decoded) (hsent : Sent fb c frames reqs)
    {frame : List UInt8} (hr : ss.reader = .decode frame) {q : Request}
    (hd : decodeRequest fb frame c = .ok q) {r : Reader}
    (hnone : Session.undecoded { ss with reader := r } = none)
    (hcurrent : ∀ op, r = .phase op ∨ r = .dispatch op → q = .lease op) (hstop : r ≠ .stopped) :
    Reading frames reqs { ss with reader := r } bytes (decoded ++ [q]) where
  arrived := h.arrived
  eof := h.eof
  consumed := by
    have hconsumed := h.consumed
    rw [Session.undecoded, hr] at hconsumed
    rw [hnone, List.length_append]
    exact hconsumed
  undecoded f hf := by
    rw [hnone] at hf
    cases hf
  requests := by
    have hf : frames[decoded.length]? = some frame :=
      h.undecoded frame (by rw [Session.undecoded, hr])
    obtain ⟨q', hq', hdecode⟩ := hsent.getElem hf
    rw [hd] at hdecode
    cases hdecode
    obtain ⟨tail, rfl⟩ := h.requests
    rw [List.getElem?_append_right le_rfl, Nat.sub_self] at hq'
    obtain ⟨tail', rfl⟩ : ∃ tail', tail = q :: tail' := by
      cases tail with
      | nil => cases hq'
      | cons q' tail' =>
        cases hq'
        exact ⟨tail', rfl⟩
    exact ⟨tail', by rw [List.append_assoc]; rfl⟩
  current op hop := by
    rw [hcurrent op hop, List.getLast?_concat]
  stopped hs := absurd hs hstop

/-- A step of the reader that neither consumes nor decodes. -/
theorem Reading.moved (h : Reading frames reqs ss bytes decoded) {ss' : Session}
    (hinput : ss'.input = ss.input) (heof : ss'.eof = ss.eof)
    (hundecoded : ss'.undecoded = ss.undecoded)
    (hcurrent : ∀ op, ss'.reader = .phase op ∨ ss'.reader = .dispatch op →
      ss.reader = .phase op ∨ ss.reader = .dispatch op)
    (hstop : ss'.reader = .stopped → decoded.length = frames.length) :
    Reading frames reqs ss' bytes decoded where
  arrived := h.arrived
  eof he := h.eof (heof ▸ he)
  consumed := by rw [hinput, hundecoded]; exact h.consumed
  undecoded f hf := h.undecoded f (hundecoded ▸ hf)
  requests := h.requests
  current op hop := h.current op (hcurrent op hop)
  stopped := hstop

theorem Reading.receive (h : Reading frames reqs ss bytes decoded) {more : List UInt8}
    (hmore : bytes ++ more <+: frames.flatten) :
    Reading frames reqs { ss with input := ss.input ++ more } (bytes ++ more) decoded where
  arrived := hmore
  eof he := by
    rw [h.eof he] at hmore ⊢
    exact ((List.prefix_append _ more).eq_of_length_le hmore.length_le).symm
  consumed := by
    have hconsumed := h.consumed
    rw [hconsumed, List.append_assoc]
    rfl
  undecoded := h.undecoded
  requests := h.requests
  current := h.current
  stopped := h.stopped

end Reading

theorem decodes_of_ne (h : ∀ frame, (s.sys.session c).reader ≠ .decode frame) :
    s.decodes c fb (.reader c) = none := by
  unfold decodes
  dsimp only
  rw [if_pos rfl]
  split
  · rename_i frame hr
    exact absurd hr (h frame)
  · rfl

theorem decodes_decode {frame : List UInt8} (hr : (s.sys.session c).reader = .decode frame)
    {q : Request} (hd : decodeRequest fb frame c = .ok q) :
    s.decodes c fb (.reader c) = some q := by
  simp only [decodes, if_true, hr, hd, Except.toOption]

theorem Sends.same {ss ss' : Session} (h : Sends ss ss') :
    ss'.reader = ss.reader ∧ ss'.input = ss.input ∧ ss'.eof = ss.eof ∧ ss'.pending = ss.pending := by
  cases h <;> exact ⟨rfl, rfl, rfl, rfl⟩

section Steps

variable {frames : List (List UInt8)} {reqs : List Request}

/-- A step of the reader. -/
theorem Reading.read_step (h : Reading frames reqs (s.sys.session c) s.arrived s.requests)
    (hsent : Sent fb c frames reqs) (hlive : Live (s.sys.session c)) {phase : Phase}
    (hopen : ((s.sys.session c).cancelled || phase.unavailable) = false) {ss' : Session}
    (hs : ReaderStep cfg fb phase c (s.sys.session c) ss') :
    Reading frames reqs ss' s.arrived (s.requests ++ (s.decodes c fb (.reader c)).toList) := by
  have hquiet : ∀ {r : Reader}, (s.sys.session c).reader = r → (∀ frame, r ≠ .decode frame) →
      s.requests ++ (s.decodes c fb (.reader c)).toList = s.requests := fun hr hne => by
    rw [decodes_of_ne (hr ▸ hne), Option.toList_none, List.append_nil]
  have hundecoded : ∀ {r : Reader}, (s.sys.session c).reader = r →
      (s.sys.session c).undecoded = Session.undecoded { s.sys.session c with reader := r } :=
    fun hr => by rw [← hr]
  cases hs with
  | read frame rest hr hf =>
    rw [hquiet hr nofun]
    have hnone : (s.sys.session c).undecoded = none := hundecoded hr
    rcases h.next hsent hnone with ⟨-, -, hinc⟩ | ⟨hinc, -⟩ | ⟨f, rest', hget, heq, hcomplete⟩
    · rw [hf] at hinc
      cases hinc
    · rw [hf] at hinc
      cases hinc
    · rw [hf] at hcomplete
      cases hcomplete
      have hconsumed := h.consumed
      rw [hnone, Option.toList_none, List.length_nil, Nat.add_zero, heq] at hconsumed
      refine ⟨h.arrived, h.eof, ?_, fun f hf => ?_, h.requests, fun op hop => hop.elim nofun nofun,
        nofun⟩
      · show s.arrived = (frames.take (s.requests.length + 1)).flatten ++ rest
        rw [List.take_add_one, hget, List.flatten_append, hconsumed, List.append_assoc]
        simp
      · cases hf
        exact hget
  | ended err he =>
    obtain ⟨rfl, hall, hnone⟩ := h.ends hsent hlive (Bool.or_eq_false_iff.mp hopen).2 he
    have hne : ∀ frame, (s.sys.session c).reader ≠ .decode frame := fun frame hr => by
      rw [Session.undecoded, hr] at hnone
      cases hnone
    rw [hquiet rfl hne]
    exact h.moved rfl rfl hnone.symm (fun op hop => hop.elim nofun nofun) fun _ => hall
  | checked frame hr hp' =>
    rw [hquiet hr nofun]
    exact h.moved rfl rfl (hundecoded hr).symm (fun op hop => hop.elim nofun nofun) nofun
  | getTTL frame requestID hr hd =>
    rw [decodes_decode hr hd]
    exact h.decode hsent hr hd rfl (fun op hop => hop.elim nofun nofun) nofun
  | lease frame op hr hd =>
    rw [decodes_decode hr hd]
    refine h.decode hsent hr hd rfl (fun op' hop => ?_) nofun
    rcases hop with hop | hop
    · cases hop
      rfl
    · cases hop
  | refused op hr hp' =>
    rw [hquiet hr nofun]
    exact h.moved rfl rfl (hundecoded hr).symm (fun op hop => hop.elim nofun nofun) nofun
  | admitted op hr hp' =>
    rw [hquiet hr nofun]
    refine h.moved rfl rfl (hundecoded hr).symm (fun op' hop => ?_) nofun
    rcases hop with hop | hop
    · cases hop
    · cases hop
      exact Or.inl hr
  | enqueued r hr hroom =>
    rw [hquiet hr nofun]
    exact h.moved rfl rfl (hundecoded hr).symm (fun op hop => hop.elim nofun nofun) nofun
  | gaveUp r hr hc =>
    rw [hopen] at hc
    cases hc

theorem Reading.after_step {stream : List UInt8} (hstream : stream = frames.flatten)
    (h : Reading frames reqs (s.sys.session c) s.arrived s.requests)
    (hsent : Sent fb c frames reqs) (hlive : Live (s.sys.session c))
    (hfair : Fair c stream s (.sys e)) (ht : Turn cfg assign fb c s e sys) :
    Reading frames reqs (sys.session c) (s.arrived ++ receives c e)
      (s.requests ++ (s.decodes c fb e).toList) := by
  subst hstream
  obtain ⟨hphase, hfair⟩ := hfair
  cases ht with
  | aside hsession hreceives hdecodes hclaims hwriter hmine =>
    rw [hsession, hreceives, hdecodes, Option.toList_none, List.append_nil, List.append_nil]
    exact h
  | received bytes he hsession =>
    subst he
    rw [hsession, show s.decodes c fb (.receive c bytes) = none from rfl, Option.toList_none,
      List.append_nil, receives, if_pos rfl]
    exact h.receive (hfair rfl)
  | hungUp he hsession =>
    subst he
    rw [hsession, show s.decodes c fb (.hangup c) = none from rfl, Option.toList_none,
      List.append_nil, receives, List.append_nil]
    · exact { h with eof := fun _ => hfair rfl }
    · nofun
  | reader he hr hopen hmoves =>
    subst he
    rw [show receives c (.reader c : System.Event n m) = [] from rfl, List.append_nil]
    exact h.read_step hsent hlive hopen hr
  | dispatched op he hr hown hsession hmoves =>
    subst he
    rw [hsession, decodes_of_ne (by rw [hr]; nofun),
      show receives c (.reader c : System.Event n m) = [] from rfl, Option.toList_none,
      List.append_nil, List.append_nil]
    refine h.moved rfl rfl ?_ (fun op hop => hop.elim nofun nofun) nofun
    rw [Session.undecoded, Session.undecoded, hr]
  | writer choice he hw =>
    subst he
    rw [show s.decodes c fb (.writer c choice) = none from rfl,
      show receives c (.writer c choice : System.Event n m) = [] from rfl, Option.toList_none,
      List.append_nil, List.append_nil]
    obtain ⟨hreader, hinput, heof, -⟩ := hw.same
    refine h.moved hinput heof ?_ (fun op hop => hreader ▸ hop) fun hr => h.stopped (hreader ▸ hr)
    rw [Session.undecoded, Session.undecoded, hreader]
  | responded i job r he hw hown hanswers hpending hroom hsession =>
    subst he
    rw [hsession, show s.decodes c fb (.respond i) = none from rfl,
      show receives c (.respond i : System.Event n m) = [] from rfl, Option.toList_none,
      List.append_nil, List.append_nil]
    exact h.moved rfl rfl rfl (fun op hop => hop) fun hr => h.stopped hr

theorem Live.after_step {stream : List UInt8} (h : Live (s.sys.session c))
    (hread : Reading frames reqs (s.sys.session c) s.arrived s.requests)
    (hsent : Sent fb c frames reqs) (hfair : Fair c stream s (.sys e))
    (ht : Turn cfg assign fb c s e sys) : Live (sys.session c) := by
  obtain ⟨hrecv, hended, hcancelled, hclosed⟩ := h
  -- as long as the reader runs nothing has ended
  have running : ∀ {ss : Session}, ss.writer = (s.sys.session c).writer →
      ss.cancelled = (s.sys.session c).cancelled → ss.connClosed = (s.sys.session c).connClosed →
      (s.sys.session c).reader ≠ .stopped → (∀ err, ss.recvDone = some err → err = .eof) →
      Live ss := fun hw hc hcc hr hrecv =>
    ⟨hrecv, fun he => absurd (hended (hw ▸ he)).1 hr, fun hc' => hw ▸ hcancelled (hc ▸ hc'),
      fun hc' => hw ▸ hclosed (hcc ▸ hc')⟩
  cases ht with
  | aside hsession | received bytes he hsession | hungUp he hsession =>
    rw [hsession]; exact ⟨hrecv, hended, hcancelled, hclosed⟩
  | reader he hr hopen hmoves =>
    have hstopped := hr.not_stopped
    have hends : ∀ {err}, Ends fb s.sys.server.phase c (s.sys.session c) err → err = .eof :=
      fun he => (hread.ends hsent ⟨hrecv, hended, hcancelled, hclosed⟩ hfair.1 he).1
    generalize sys.session c = ss' at hr
    cases hr with
    | ended err he =>
      obtain rfl := hends he
      refine running rfl rfl rfl hstopped ?_
      rintro _ ⟨⟩
      rfl
    | _ => exact running rfl rfl rfl hstopped hrecv
  | dispatched op he hr hown hsession hmoves =>
    rw [hsession]
    exact running rfl rfl rfl (by rw [hr]; nofun) hrecv
  | writer choice he hw =>
    generalize sys.session c = ss' at hw
    -- a writer that goes on had not ended
    have active : ∀ {w : Writer}, (s.sys.session c).writer = w → w.ended = false → ∀ {ss : Session},
        (∀ err, ss.recvDone = some err → err = .eof) → ss.writer.ended = false →
        ss.cancelled = (s.sys.session c).cancelled → ss.connClosed = (s.sys.session c).connClosed →
        Live ss := by
      intro w hw he ss hrecv hended hc hcc
      have hne : (s.sys.session c).writer.ended ≠ true := by rw [hw, he]; nofun
      refine ⟨hrecv, fun h => ?_, fun h => ?_, fun h => ?_⟩
      · rw [hended] at h
        cases h
      · exact absurd (hcancelled (hc ▸ h)) hne
      · exact absurd (hclosed (hcc ▸ h)) hne
    cases hw with
    | popped r rest hw hq =>
      rcases hw with hw | hw | hw
      all_goals exact active hw rfl hrecv rfl rfl rfl
    | buffered r hw | flushing hw | flushed hw | waiting hw => exact active hw rfl hrecv rfl rfl rfl
    | woken err hw hr =>
      exact active hw rfl (fun e he => hrecv e (hr e he)) rfl rfl rfl
    | drained hw hr hp hq => exact ⟨hrecv, fun _ => ⟨hr, hp, hq⟩, fun _ => rfl, fun _ => rfl⟩
    | closed hw =>
      exact ⟨hrecv, fun _ => hended (by rw [hw]; rfl), fun _ => rfl, fun _ => rfl⟩
    | joined hw | done hw =>
      exact ⟨hrecv, fun _ => hended (by rw [hw]; rfl), fun _ => rfl, fun _ => rfl⟩
  | responded i job r he hw hown hanswers hpending hroom hsession =>
    rw [hsession]
    refine ⟨hrecv, fun he => ?_, hcancelled, hclosed⟩
    rw [(hended he).2.1] at hpending
    cases hpending

end Steps

end Exchange

end RedLease.Server

import RedLease.Server.Served
import RedLease.Wire.Stream

/-!
# Requests and their answers

What a client gets back over a connection, from the bytes that it writes to those that it reads. The
server's reader, its workers, its writer and its other connections interleave in any way.

* **`written_encodable`**: all that is handed to `BufferFrame` can be encoded.
* **`requests_answered`**: the client decodes one response for each request.
-/

namespace RedLease.Wire

open Lib Lib.FlatBuffers Transport Transport.FrameWriter Server Server.Exchange

section Written

variable {n m : Nat} {cfg : Config} {assign : Nat → Fin n} {fb : Accessors} {c : Nat}
  {s s' : Exchange n m} {frames : List (List UInt8)} {reqs : List Request}

theorem mem_written_noteWriter {w w' : Writer} {x : Origin n × Response}
    (hx : x ∈ (s.noteWriter w w').written) : x ∈ s.written ∨ s.hand = some x := by
  unfold noteWriter at hx
  split at hx
  case h_1 => exact (List.mem_append.mp hx).imp id Option.mem_toList.mp
  all_goals exact Or.inl hx

theorem mem_written_note {e : System.Event n m} {sys : System n m} {x : Origin n × Response}
    (hx : x ∈ (s.note c assign fb e sys).written) : x ∈ s.written ∨ s.hand = some x := by
  cases e with
  | writer c' choice =>
    simp only [note] at hx
    split_ifs at hx with hc
    · exact mem_written_noteWriter (s := s.record c assign fb _ sys) hx
    · exact Or.inl hx
  | _ =>
    refine Or.inl ?_
    simp only [note] at hx
    revert hx
    cases s.claims c _ with
    | none => exact id
    | some y => obtain ⟨_ | i, r⟩ := y <;> exact id

/-- A step hands over the response that the writer holds, or nothing. -/
theorem mem_written {a : ExchangeAct n m} {ss : Session} (hring : Ring ss s)
    (hs : s.step cfg assign fb c a = some s') {x : Origin n × Response} (hx : x ∈ s'.written) :
    x ∈ s.written ∨ s.hand = some x := by
  cases a with
  | sys e =>
    obtain ⟨-, hstep⟩ := Option.ite_none_right_eq_some.mp hs
    obtain ⟨sys, -, rfl⟩ := Option.map_eq_some_iff.mp hstep
    exact mem_written_note hx
  | publish o =>
    obtain ⟨-, -, hwritten, -⟩ := publishStep_cases hs
    exact Or.inl (hwritten ▸ hx)
  | done i =>
    obtain ⟨-, rfl⟩ := doneStep_cases hs
    exact Or.inl hx
  | starve =>
    obtain ⟨ss, w, -, rfl, -⟩ := starveStep_cases hring hs
    exact Or.inl hx

/-- The writer holds what it can encode. -/
theorem encodable_hand (h : s.Inv cfg assign c frames reqs) {x : Origin n × Response}
    (hx : s.hand = some x) : Encodable x.2 := by
  have hhand := h.ring.hand
  rw [hx] at hhand
  have hw : (s.sys.session c).writer = .buffer x.2 := by
    revert hhand
    cases (s.sys.session c).writer with
    | buffer r => rintro ⟨⟩; rfl
    | _ => rintro ⟨⟩
  cases hc : s.sys.sessions c with
  | none =>
    rw [System.session, hc] at hw
    cases hw
  | some ss =>
    rw [System.session_eq hc] at hw
    exact (h.sound.inv.sessions c ss hc).writer x.2 hw

theorem written_encodable (hsent : Sent fb c frames reqs) {clock : Time}
    {acts : List (ExchangeAct n m)}
    (hfair : Trans.Along (step cfg assign fb c) (Fair c frames.flatten) (init n m clock) acts)
    (hs : Trans.exec (step cfg assign fb c) (init n m clock) acts = some s) :
    s.Inv cfg assign c frames reqs ∧ ∀ x ∈ s.written, Encodable x.2 := by
  refine Trans.exec_along
    (I := fun s : Exchange n m => s.Inv cfg assign c frames reqs ∧ ∀ x ∈ s.written, Encodable x.2)
    (fun h hfair hs => ⟨h.1.after_step hsent hfair hs, fun x hx => ?_⟩)
    ⟨inv_init clock, by rintro _ ⟨⟩⟩ hfair hs
  rcases mem_written h.1.ring hs hx with hold | hhand
  · exact h.2 x hold
  · exact encodable_hand h.1 hhand

end Written

/-- What the response has to repeat of a request. -/
def OutboundRequest.responseKey (r : OutboundRequest) : Nat × ClientOperation :=
  (r.requestID.toNat, r.operation)

/-- The server accepts a request whose operation is one. -/
theorem meaning_ok {r : OutboundRequest} (c : Nat) (hmin : ClientOperation.acquire ≤ r.operation)
    (hmax : r.operation ≤ ClientOperation.getTTL) :
    ∃ req, r.meaning c = .ok req ∧ req.key = r.responseKey := by
  unfold OutboundRequest.meaning
  split_ifs with hacq hren hrel hget
  · exact ⟨_, rfl, Prod.ext rfl hacq.symm⟩
  · exact ⟨_, rfl, Prod.ext rfl hren.symm⟩
  · exact ⟨_, rfl, Prod.ext rfl hrel.symm⟩
  · exact ⟨_, rfl, Prod.ext rfl hget.symm⟩
  · exact absurd (operation_getTTL hmin hmax hacq hren hrel) hget

/-- The frames of requests that are accepted are what the server's sessions take for sent. -/
theorem sent_frames {rt : Runtime} (hrt : Documented rt) (c : Nat) {values : List OutboundRequest}
    (h : ∀ r ∈ values,
      ClientOperation.acquire ≤ r.operation ∧ r.operation ≤ ClientOperation.getTTL) :
    ∃ reqs, Sent (generatedAccessors rt.toReader) c (values.map fun r => r.frame rt) reqs ∧
      reqs.map Request.key = values.map OutboundRequest.responseKey := by
  have : Nonempty Request := ⟨.getTTL 0⟩
  choose! req hreq hkey using fun r hr => meaning_ok c (h r hr).1 (h r hr).2
  refine ⟨values.map req, ⟨fun f hf => ?_, ?_⟩, ?_⟩
  · obtain ⟨r, -, rfl⟩ := List.mem_map.mp hf
    exact readFrame_self (r.frame_spec hrt).1
  · rw [List.map_map, List.map_map]
    exact List.map_congr_left fun r hr => ((r.frame_spec hrt).2.1 c).trans (hreq r hr)
  · rw [List.map_map]
    exact List.map_congr_left hkey

variable {n m : Nat}

/-- Whatever requests a client submits and however it batches them, where FlatBuffers is as documented:
in every interleaving of the server's threads in which the connection is served to its end, what
`sendResponses` has written is, in whatever pieces it arrives, one response for each request: with its
ID and its operation, and no other response. A TTL is a `uint64` of the source. -/
theorem requests_answered (rt : Runtime) (hrt : Documented rt) (cfg : Config) (assign : Nat → Fin n)
    (clock : Time) (c : Nat) (net : Net) (hnet : ∀ conn op, net conn op = none)
    (batches : List (List (OutboundRequest × Nat) × Nat))
    (hbatches : ∀ r ∈ sentValues batches,
      ClientOperation.acquire ≤ r.operation ∧ r.operation ≤ ClientOperation.getTTL) :
    ∃ b w, sendRequests rt net batches = some (b, w, .ok ()) ∧
      ∀ (acts : List (ExchangeAct n m)) (s : Exchange n m),
        Trans.Along (step cfg assign (generatedAccessors rt.toReader) c) (Fair c (written w.conn))
          (init n m clock) acts →
        Trans.exec (step cfg assign (generatedAccessors rt.toReader) c) (init n m clock) acts =
          some s →
        (s.sys.session c).writer.ended = true → (∀ x ∈ s.written, x.2.ttlMS < 2 ^ 64) →
        ∀ answers : List (List (Response × Nat) × Nat),
          sentValues answers = s.written.map Prod.snd →
          ∃ b' w', sendResponses rt net answers = some (b', w', .ok ()) ∧
            ∀ src eager fuel, Bufio.Reader.Flowing (Bufio.maxConsecutiveEmptyReads - 1) src →
              src.flatten.length < fuel → src.flatten = written w'.conn →
              ∃ rs : List Response, received (decodeResponse rt) fuel src eager =
                  (rs.map Except.ok, some (.buffer .eof)) ∧
                (rs.map responseKey).Perm
                  ((sentValues batches).map OutboundRequest.responseKey) := by
  obtain ⟨b, w, hsend, hwritten⟩ := sendRequests_spec hrt hnet batches
  obtain ⟨reqs, hsent, hkeys⟩ := sent_frames hrt c hbatches
  refine ⟨b, w, hsend, fun acts s hfair hs hend httl answers hanswers => ?_⟩
  rw [hwritten] at hfair
  obtain ⟨hinv, henc⟩ := written_encodable hsent hfair hs
  obtain ⟨hperm, -⟩ := (hinv.served hsent).returned hend
  rw [hkeys] at hperm
  have hrange : ∀ r ∈ sentValues answers, InRange r ∧ Encodable r := by
    intro a ha
    rw [hanswers] at ha
    obtain ⟨x, hx, rfl⟩ := List.mem_map.mp ha
    -- the ID is that of a request
    have hkey := hperm.subset (List.mem_map_of_mem (f := fun x => responseKey x.2) hx)
    obtain ⟨r, -, hr⟩ := List.mem_map.mp hkey
    have hid : r.requestID.toNat = x.2.requestID := congrArg Prod.fst hr
    exact ⟨⟨hid ▸ r.requestID.toNat_lt, httl x hx⟩, henc x hx⟩
  obtain ⟨frameOf, hframes, b', w', hsend', hwritten'⟩ := sendResponses_spec hrt hnet answers hrange
  refine ⟨b', w', hsend', fun src eager fuel hsrc hfuel hall => ?_⟩
  rw [hwritten'] at hall
  obtain ⟨k, ending, hreceived, -, hfull⟩ :=
    received_part frameOf hframes (hall ▸ List.prefix_rfl) eager hsrc hfuel
  obtain ⟨rfl, rfl⟩ := hfull hall
  rw [List.take_length] at hreceived
  refine ⟨(sentValues answers).map transmitted, ?_, ?_⟩
  · rw [hreceived, List.map_map]
    rfl
  · -- the wire keeps the key
    rw [hanswers, List.map_map, List.map_map]
    exact hperm

/-- A `GET_TTL`. -/
def ttlRequest : OutboundRequest := ⟨1, 0, 0, 0, 0, 0, ClientOperation.getTTL⟩

/-- The client sends it and hangs up. -/
def ttlActs : List (ExchangeAct 2 1) :=
  [.sys (.accept 0), .sys (.receive 0 (ttlRequest.frame plainRuntime)), .sys (.hangup 0),
    .sys (.reader 0), .sys (.reader 0), .sys (.reader 0), .sys (.reader 0), .publish none,
    .sys (.reader 0), .sys (.writer 0 .ready), .sys (.writer 0 .written), .sys (.writer 0 .ready),
    .sys (.writer 0 .written), .sys (.writer 0 .ready), .sys (.writer 0 .responsesDone)]

theorem requests_answered_ttlActs :
    ∃ s w' fuel, ∃ rs : List Response,
      Trans.exec (step tinyConfig (Fin.ofNat 2) goAccessors 0) (init 2 1 0) ttlActs =
        some s ∧
      received (decodeResponse plainRuntime) fuel [written (FrameWriter.conn w')] true =
        (rs.map .ok, some (.buffer .eof)) ∧
      (rs.map responseKey).Perm [(1, ClientOperation.getTTL)] := by
  obtain ⟨s, hs, hend, httl⟩ : ∃ s, Trans.exec (step tinyConfig (Fin.ofNat 2) goAccessors 0)
      (init 2 1 0) ttlActs = some s ∧ (s.sys.session 0).writer.ended = true ∧
        ∀ x ∈ s.written, x.2.ttlMS < 2 ^ 64 := by decide +kernel
  have hfair : Trans.Along (step tinyConfig (Fin.ofNat 2) goAccessors 0)
      (Fair 0 [ttlRequest.frame plainRuntime].flatten) (init 2 1 0) ttlActs := by decide +kernel
  have hnet : ∀ conn op, (fun _ _ => none : Net) conn op = none := fun _ _ => rfl
  obtain ⟨b, w, hsend, hanswered⟩ := requests_answered plainRuntime documented_plainRuntime tinyConfig
    (Fin.ofNat 2) 0 0 _ hnet [([(ttlRequest, 10)], 11)] (by decide)
  obtain ⟨b₀, w₀, hsend₀, hwritten⟩ :=
    sendRequests_spec documented_plainRuntime hnet [([(ttlRequest, 10)], 11)]
  cases hsend.symm.trans hsend₀
  rw [hwritten] at hanswered
  obtain ⟨b', w', -, hreceived⟩ := hanswered ttlActs s hfair hs hend httl
    [(s.written.map fun x => (x.2, 20), 21)] (by simp [sentValues])
  obtain ⟨rs, hrs, hperm⟩ := hreceived [written w'.conn] true _
    (by cases written w'.conn <;> trivial) (Nat.lt_succ_self _) (List.append_nil _)
  exact ⟨s, w', _, rs, hs, hrs, hperm⟩

end RedLease.Wire

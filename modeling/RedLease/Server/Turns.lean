import RedLease.Server.Exchange

/-!
# What a step does to a connection

A client sends well-formed frames and goes away at the end of one, the server is in its quarantine or
active, and writes succeed (`Fair`). Then few of the steps of a session are left: nothing is dropped,
nothing is cancelled before `sendResponses` has returned, and no worker gives up on a response.

* `System.Sound`: what holds of the system in every run; during the quarantine nothing is in a shard.
* `Live`: what is known about the session.
* **`turn`**: what a step of a fair run does to the connection.
-/

namespace RedLease.Server

open Lib LeaseShard

/-! ## Keys -/

/-- What a response has to repeat of a request: its ID and its operation. -/
def Request.key : Request → Nat × ClientOperation
  | .lease op => (op.requestID, OperationKind.code op.kind)
  | .getTTL requestID => (requestID, ClientOperation.getTTL)

/-- What a response has in common with its request. -/
def answerKey (op : Operation) : Nat × ClientOperation := (Request.lease op).key

/-- What a response says of its request. -/
def responseKey (r : Response) : Nat × ClientOperation := (r.requestID, r.operation)

theorem Answers.key {op : Operation} {r : Response} (h : Answers op r) :
    responseKey r = answerKey op :=
  Prod.ext h.requestID h.operation

/-- The request that the reader has decoded and not passed on. -/
def Session.current (ss : Session) : Option (Nat × ClientOperation) :=
  match ss.reader with
  | .phase op | .dispatch op => some (answerKey op)
  | .enqueue r => some (responseKey r)
  | _ => none

/-- The frame that the reader has consumed and not decoded. -/
def Session.undecoded (ss : Session) : Option (List UInt8) :=
  match ss.reader with
  | .check frame | .decode frame => some frame
  | _ => none

/-- `sendResponses` has returned. -/
def Writer.ended : Writer → Bool
  | .returned | .closing | .discard | .done => true
  | _ => false

/-- The response that `sendResponses` has taken and not handed to `BufferFrame`. -/
def Writer.inHand : Writer → Option Response
  | .buffer r => some r
  | _ => none

/-- All that was written is flushed. -/
def Writer.settled : Writer → Bool
  | .take | .wait | .returned | .closing | .discard | .done => true
  | _ => false

theorem Writer.settled_of_ended {w : Writer} (h : w.ended = true) : w.settled = true := by
  cases w <;> first | rfl | cases h

/-- The reader puts its response into the queue, or leaves the queue alone. -/
theorem ReaderStep.queue {cfg : Config} {fb : Accessors} {phase : Phase} {c : Nat}
    {ss ss' : Session} (h : ReaderStep cfg fb phase c ss ss')
    (hopen : (ss.cancelled || phase.unavailable) = false) :
    (∃ r, ss.reader = .enqueue r ∧ ss.respQueue.length < responseQueueCapacity ∧
        ss'.respQueue = ss.respQueue ++ [r]) ∨
      (∀ r, ss.reader ≠ .enqueue r) ∧ ss'.respQueue = ss.respQueue := by
  have still : ∀ {r : Reader}, ss.reader = r → (∀ r', r ≠ .enqueue r') →
      ∀ r', ss.reader ≠ .enqueue r' := fun hr hne => hr ▸ hne
  cases h with
  | enqueued r hr hroom => exact Or.inl ⟨r, hr, hroom, rfl⟩
  | gaveUp r hr hc =>
    rw [hopen] at hc
    cases hc
  | ended err he =>
    refine Or.inr ⟨?_, rfl⟩
    cases he with
    | invalid size hr | closed hr | eof hr | unavailable frame hr | malformed frame reason hr =>
      exact still hr nofun
  | read frame rest hr | checked frame hr | getTTL frame requestID hr | lease frame op hr
  | refused op hr | admitted op hr => exact Or.inr ⟨still hr nofun, rfl⟩

/-! ## The quarantine -/

namespace System

variable {n m : Nat} {cfg : Config} {assign : Nat → Fin n} {fb : Accessors} {s s' : System n m}
  {e : Event n m}

/-- The quarantine does not come back. -/
theorem quarantine_of_step (hi : Inv cfg assign s) (hs : step cfg assign fb s e = some s')
    (hp : s'.server.phase = .quarantine) : s.server.phase = .quarantine := by
  cases step_cases hs with
  | threads a server he ha hstep =>
    have hphase := (step_frame hi.server hstep).1
    cases a with
    | activate =>
      simp only [Server.step] at hstep
      split_ifs at hstep with hq
      exact hq
    | close =>
      cases hstep
      cases hp
    | _ => exact (hphase (by rintro ⟨⟩) (by rintro ⟨⟩)).symm.trans hp
  | dequeued i op rest server he hq hstep =>
    obtain ⟨-, -, rfl⟩ := dequeue_cases hstep
    exact hp
  | checked i op he hw hp₀ => exact hp
  | dropped i op he hw hp₀ =>
    rw [donePending_server] at hp
    exact hp
  | responded i job r ss he hw hc hroom => exact hp
  | unanswered i job r ss he hw hc hd => exact hp
  | session c ss server hstep hserver =>
    rcases hserver with rfl | rfl
    · exact hp
    · have hfail : s.server.toShared.fail.phase = .quarantine := hp
      unfold Shared.fail at hfail
      split_ifs at hfail with hclosed
      rw [hclosed] at hfail
      cases hfail
  | dispatched c ss op he hc hr hroom => exact hp
  | withdrawn c ss op he hc hr hfull hd => exact hp

/-- What holds of every run of the system and is used about one connection. -/
structure Sound (cfg : Config) (assign : Nat → Fin n) (s : System n m) : Prop where
  inv : s.Inv cfg assign
  pending : s.Pending
  gate : s.Gate

theorem sound_init (clock : Time) : (init n m clock).Sound cfg assign where
  inv := inv_init cfg assign clock
  pending := pending_init clock
  gate := ⟨fun _ _ => rfl, fun _ _ _ _ h => nomatch h⟩

theorem Sound.after_step (h : s.Sound cfg assign) (hs : step cfg assign fb s e = some s') :
    s'.Sound cfg assign where
  inv := step_inv h.inv hs
  pending := h.pending.after_step hs
  gate := ⟨fun hp => (h.gate.shut (quarantine_of_step h.inv hs hp) hs).1,
    fun hp => (h.gate.shut (quarantine_of_step h.inv hs hp) hs).2⟩

/-- A writer that goes on without a response. -/
theorem Sound.setWriter (h : s.Sound cfg assign) {c : Nat} {ss : Session}
    (hc : s.sessions c = some ss) {w : Writer} (hw : ∀ r, w ≠ .buffer r) :
    (s.setSession c { ss with writer := w }).Sound cfg assign where
  inv := by
    obtain ⟨hq, hr, -⟩ := h.inv.sessions c ss hc
    exact h.inv.setSession ⟨hq, hr, fun r he => absurd he (hw r)⟩
  pending := by
    refine h.pending.setSession ?_ fun op hop => h.pending.own hc hop
    rw [hc]
    exact Nat.add_comm ..
  gate := by
    refine h.gate.keep id rfl rfl fun c' ss' op hc' hr => ?_
    rcases Family.update_eq_some hc' with ⟨rfl, rfl⟩ | ⟨-, hc'⟩
    · exact ⟨ss, hc, hr⟩
    · exact ⟨ss', hc', hr⟩

/-- A server that serves drops no operation. -/
theorem Sound.active (h : s.Sound cfg assign) (hp : s.server.phase.unavailable = false) {i : Fin n}
    {op : Operation} (hw : s.server.workers i = .dequeued op) : s.server.phase = .active := by
  have hq : s.server.phase ≠ .quarantine := fun hq => by
    have hnil := h.gate.queued hq i
    rw [inShard, hw] at hnil
    cases hnil
  revert hp hq
  cases s.server.phase <;> decide

theorem session_eq {c : Nat} {ss : Session} (hc : s.sessions c = some ss) : s.session c = ss := by
  rw [session, hc, Option.getD_some]

theorem session_setSession (c : Nat) (ss : Session) : (s.setSession c ss).session c = ss := by
  rw [session, setSession_sessions, Function.update_self, Option.getD_some]

theorem session_setSession_of_ne {c c' : Nat} (h : c ≠ c') (ss : Session) :
    (s.setSession c' ss).session c = s.session c := by
  rw [session, setSession_sessions, Function.update_of_ne h]
  rfl

theorem pending_eq (c : Nat) : (s.session c).pending = s.ofSession Session.pending c := by
  unfold session ofSession
  cases s.sessions c <;> rfl

/-- The operation of a worker that has a response is pending for its session. -/
theorem Sound.pending_pos (h : s.Sound cfg assign) {i : Fin n} {job : Job} {r : Response} {c : Nat}
    (hw : s.server.workers i = .reply job r) (hown : job.op.session = c) :
    0 < (s.session c).pending := by
  have hmem : job.op ∈ s.inShard i := by
    rw [inShard, hw]
    exact List.mem_append_left _ List.mem_cons_self
  have hcount : 0 < (s.inShard i).countP fun op => op.session = c :=
    List.countP_pos_iff.mpr ⟨job.op, hmem, decide_eq_true hown⟩
  have hsum : 0 < s.inFlight c := hcount.trans_le (Finset.single_le_sum
    (f := fun j => (s.inShard j).countP fun op => op.session = c)
    (fun _ _ => Nat.zero_le _) (Finset.mem_univ i))
  rw [pending_eq, h.pending.count c]
  exact Nat.add_pos_right _ hsum

end System

namespace Exchange

variable {n m : Nat}

/-! ## What a step notes -/

/-- The responses that were put into the ring, in this order. -/
def claimed (s : Exchange n m) : List (Origin n × Response) :=
  s.written ++ s.hand.toList ++ s.slots.map fun x => (x.origin, x.response)

/-- The two agree on the system and on its history. -/
structure SameHistory (s s' : Exchange n m) : Prop where
  sys : s'.sys = s.sys
  arrived : s'.arrived = s.arrived
  requests : s'.requests = s.requests
  dispatches : s'.dispatches = s.dispatches
  applied : s'.applied = s.applied
  finished : s'.finished = s.finished

theorem claim_history (s : Exchange n m) (x : Origin n × Response) : SameHistory s (s.claim x) := by
  unfold claim
  dsimp only
  split <;> exact ⟨rfl, rfl, rfl, rfl, rfl, rfl⟩

theorem noteWriter_history (s : Exchange n m) (w w' : Writer) : SameHistory s (s.noteWriter w w') := by
  unfold noteWriter pop
  split <;> exact ⟨rfl, rfl, rfl, rfl, rfl, rfl⟩

variable {cfg : Config} {assign : Nat → Fin n} {fb : Accessors} {c : Nat} {s s' : Exchange n m}
  {e : System.Event n m} {sys : System n m}

theorem note_history : SameHistory (s.record c assign fb e sys) (s.note c assign fb e sys) := by
  have hrefl : SameHistory (s.record c assign fb e sys) (s.record c assign fb e sys) :=
    ⟨rfl, rfl, rfl, rfl, rfl, rfl⟩
  unfold note
  dsimp only
  split
  · split_ifs
    · exact noteWriter_history ..
    · exact hrefl
  · cases s.claims c e with
    | none => exact hrefl
    | some x => exact claim_history ..

theorem note_of_claims (he : ∀ c' choice, e ≠ .writer c' choice) :
    s.note c assign fb e sys =
      (s.claims c e).elim (s.record c assign fb e sys) (s.record c assign fb e sys).claim := by
  unfold note
  dsimp only
  split
  · exact absurd rfl (he _ _)
  · rfl

theorem note_writer (choice : Choice) : s.note c assign fb (.writer c choice) sys =
    (s.record c assign fb (.writer c choice) sys).noteWriter (s.sys.session c).writer
      (sys.session c).writer := by
  unfold note
  dsimp only
  rw [if_pos rfl]

theorem claim_claimed (x : Origin n × Response) : (s.claim x).claimed = s.claimed ++ [x] := by
  unfold claim claimed
  dsimp only
  split <;> simp

/-! ## What a step does to the connection -/

/-- What the client and the network do while connection `c` is served: the client sends `stream` and
goes away at its end, and writes succeed. Only `fail` and `Close` call `closeConnections`. -/
def Delivers (c : Nat) (stream arrived : List UInt8) : System.Event n m → Prop
  | .receive c' bytes => c' = c → arrived ++ bytes <+: stream
  | .hangup c' => c' = c → arrived = stream
  | .closeConn c' => c' ≠ c
  | .writer c' choice => c' = c → choice ≠ .writeFailed
  | _ => True

instance (c : Nat) (stream arrived : List UInt8) (e : System.Event n m) :
    Decidable (Delivers c stream arrived e) :=
  match e with
  | .receive c' bytes => inferInstanceAs (Decidable (c' = c → arrived ++ bytes <+: stream))
  | .hangup c' => inferInstanceAs (Decidable (c' = c → arrived = stream))
  | .closeConn c' => inferInstanceAs (Decidable (c' ≠ c))
  | .writer c' choice => inferInstanceAs (Decidable (c' = c → choice ≠ .writeFailed))
  | .server _ | .dequeue _ | .check _ | .respond _ | .accept _ | .reader _ =>
    inferInstanceAs (Decidable True)

/-- The steps of a run in which connection `c` is served: the server is in its quarantine or
active. -/
def Fair (c : Nat) (stream : List UInt8) (s : Exchange n m) : ExchangeAct n m → Prop
  | .sys e => s.sys.server.phase.unavailable = false ∧ Delivers c stream s.arrived e
  | _ => True

instance (c : Nat) (stream : List UInt8) (s : Exchange n m) (a : ExchangeAct n m) :
    Decidable (Fair c stream s a) :=
  match a with
  | .sys e => inferInstanceAs (Decidable (_ ∧ Delivers c stream s.arrived e))
  | .publish _ | .done _ | .starve => inferInstanceAs (Decidable True)

/-- The steps of `sendResponses` and of what follows it that are left in a fair run. -/
inductive Sends (ss : Session) : Session → Prop
  | popped (r : Response) (rest : List Response)
      (hw : ss.writer = .take ∨ ss.writer = .next ∨ ss.writer = .wait)
      (hq : ss.respQueue = r :: rest) :
      Sends ss { ss with respQueue := rest, writer := .buffer r }
  | buffered (r : Response) (hw : ss.writer = .buffer r) : Sends ss { ss with writer := .next }
  | flushing (hw : ss.writer = .next) : Sends ss { ss with writer := .flush }
  | flushed (hw : ss.writer = .flush) : Sends ss { ss with writer := .take }
  | waiting (hw : ss.writer = .take) : Sends ss { ss with writer := .wait }
  | woken (err : Option ReadError) (hw : ss.writer = .wait)
      (hr : ∀ e, err = some e → ss.recvDone = some e) :
      Sends ss { ss with recvDone := err, writer := .take }
  | drained (hw : ss.writer = .wait) (hr : ss.reader = .stopped) (hp : ss.pending = 0)
      (hq : ss.respQueue = []) : Sends ss { ss with writer := .returned }
  | closed (hw : ss.writer = .returned) :
      Sends ss { ss with cancelled := true, connClosed := true, writer := .closing }
  | joined (hw : ss.writer = .closing) : Sends ss { ss with writer := .discard }
  | done (hw : ss.writer = .discard) : Sends ss { ss with writer := .done }

/-- All that a step of a fair run does to connection `c`. -/
inductive Turn (cfg : Config) (assign : Nat → Fin n) (fb : Accessors) (c : Nat) (s : Exchange n m)
    (e : System.Event n m) (sys : System n m) : Prop
  | aside (hsession : sys.session c = s.sys.session c) (hreceives : receives c e = [])
      (hdecodes : s.decodes c fb e = none) (hclaims : s.claims c e = none)
      (hwriter : ∀ choice, e ≠ .writer c choice)
      (hmine : ∀ i, mine c (s.sys.dispatched assign e i).toList = [] ∧
        mine c (s.sys.finished e i).toList = [])
  | received (bytes : List UInt8) (he : e = .receive c bytes)
      (hsession : sys.session c =
        { s.sys.session c with input := (s.sys.session c).input ++ bytes })
  | hungUp (he : e = .hangup c) (hsession : sys.session c = { s.sys.session c with eof := true })
  | reader (he : e = .reader c)
      (h : ReaderStep cfg fb s.sys.server.phase c (s.sys.session c) (sys.session c))
      (hopen : ((s.sys.session c).cancelled || s.sys.server.phase.unavailable) = false)
      (hmoves : ∀ i, s.sys.dispatched assign e i = none)
  | dispatched (op : Operation) (he : e = .reader c) (hr : (s.sys.session c).reader = .dispatch op)
      (hown : op.session = c) (hsession : sys.session c = { s.sys.session c with reader := .read })
      (hmoves : ∀ i, s.sys.dispatched assign e i = if assign op.key = i then some op else none)
  | writer (choice : Choice) (he : e = .writer c choice)
      (h : Sends (s.sys.session c) (sys.session c))
  | responded (i : Fin n) (job : Job) (r : Response) (he : e = .respond i)
      (hw : s.sys.server.workers i = .reply job r) (hown : job.op.session = c)
      (hanswers : Answers job.op r) (hpending : 0 < (s.sys.session c).pending)
      (hroom : (s.sys.session c).respQueue.length < responseQueueCapacity)
      (hsession : sys.session c = { s.sys.session c with
        respQueue := (s.sys.session c).respQueue ++ [r]
        pending := (s.sys.session c).pending - 1 })

/-- What is known about a session while it is served. -/
structure Live (ss : Session) : Prop where
  /-- The reader reports nothing but the end of the stream. -/
  recvDone : ∀ err, ss.recvDone = some err → err = .eof
  /-- `sendResponses` returns when everything is answered. -/
  ended : ss.writer.ended = true → ss.reader = .stopped ∧ ss.pending = 0 ∧ ss.respQueue = []
  /-- Nothing ends the session before that. -/
  cancelled : ss.cancelled = true → ss.writer.ended = true
  connClosed : ss.connClosed = true → ss.writer.ended = true

theorem Live.not_cancelled {ss : Session} (h : Live ss) (hw : ss.writer.ended = false) :
    ss.cancelled = false := by
  cases hc : ss.cancelled with
  | false => rfl
  | true => rw [h.cancelled hc] at hw; cases hw

theorem Live.sends {ss ss' : Session} {phase : Phase} {choice : Choice} (h : Live ss)
    (hs : WriterStep phase ss choice ss') (henc : ss.Encodes) (hp : phase.unavailable = false)
    (hchoice : choice ≠ .writeFailed) : Sends ss ss' := by
  cases hs with
  | popped r rest hw hq => exact .popped r rest (hw.imp_right (Or.imp_right And.left)) hq
  | waiting hw hq => exact .waiting hw
  | woken hw => exact .woken ss.recvDone hw fun _ he => he
  | eof hw hr => exact .woken none hw nofun
  | drained hw hr hpending hq => exact .drained hw hr hpending hq
  | broken err hw hr he => exact absurd (h.recvDone err hr) he
  | cancelled hw hc =>
    rw [hp, Bool.or_false, h.not_cancelled (by rw [hw]; rfl)] at hc
    cases hc
  | unavailable r hw hp' => rw [hp] at hp'; cases hp'
  | rejected r hw he => exact absurd (henc.writer r hw) he
  | buffered r hw hp' he hc => exact .buffered r hw
  | writeFailed hw hc => exact absurd hc hchoice
  | flushing hw hq => exact .flushing hw
  | flushed hw hc => exact .flushed hw
  | closed hw => exact .closed hw
  | joined hw hr => exact .joined hw
  | discarded r rest hw hpending hq =>
    rw [(h.ended (by rw [hw]; rfl)).2.2] at hq
    cases hq
  | done hw hpending hq => exact .done hw

theorem mine_of_ne {op : Operation} (h : op.session ≠ c) {p : Prop} [Decidable p] :
    mine c (if p then some op else none).toList = [] := by
  split_ifs
  · exact List.filter_eq_nil_iff.mpr (by simpa using h)
  · rfl

/-- A step of another session. -/
theorem Turn.other {c' : Nat} {ss' : Session} {server : State n m}
    (hne : c ≠ c')
    (h : System.SessionStep cfg fb s.sys.server.phase c' e (s.sys.sessions c') ss') :
    Turn cfg assign fb c s e ((s.sys.setServer server).setSession c' ss') := by
  have hmine : ∀ i, mine c (s.sys.dispatched assign e i).toList = [] ∧
      mine c (s.sys.finished e i).toList = [] := fun i => by
    have hmoves : s.sys.dispatched assign e i = none ∧ s.sys.finished e i = none := h.moves_none i
    rw [hmoves.1, hmoves.2]
    exact ⟨rfl, rfl⟩
  have hsession := System.session_setSession_of_ne (s := s.sys.setServer server) hne ss'
  generalize s.sys.sessions c' = o at h
  cases h with
  | accepted he hp => subst he; exact .aside hsession rfl rfl rfl nofun hmine
  | received ss bytes he =>
    subst he
    exact .aside hsession (if_neg (Ne.symm hne)) rfl rfl nofun hmine
  | hungUp ss he | closed ss he => subst he; exact .aside hsession rfl rfl rfl nofun hmine
  | reader ss ss' he h =>
    subst he
    exact .aside hsession rfl (if_neg (Ne.symm hne)) (if_neg (Ne.symm hne)) nofun hmine
  | writer ss ss' choice he h =>
    subst he
    exact .aside hsession rfl rfl rfl (fun _ he => hne (System.Event.writer.inj he).1.symm) hmine

/-- A step of the session itself. -/
theorem Turn.own {stream : List UInt8} {ss' : Session} {server : State n m}
    (h : s.sys.Sound cfg assign) (hlive : Live (s.sys.session c))
    (hfair : Fair c stream s (.sys e))
    (hs : System.SessionStep cfg fb s.sys.server.phase c e (s.sys.sessions c) ss') :
    Turn cfg assign fb c s e ((s.sys.setServer server).setSession c ss') := by
  have hmoves : ∀ i, s.sys.dispatched assign e i = none := fun i => (hs.moves_none i).1
  have hsession := System.session_setSession (s := s.sys.setServer server) c ss'
  generalize hc : s.sys.sessions c = o at hs
  obtain ⟨hphase, hfair⟩ := hfair
  cases hs with
  | accepted he hp =>
    subst he
    refine .aside ?_ rfl rfl rfl nofun fun _ => ⟨rfl, rfl⟩
    rw [hsession, System.session, hc]
    rfl
  | received ss bytes he =>
    subst he
    refine .received bytes rfl ?_
    rw [hsession, System.session_eq hc]
  | hungUp ss he =>
    subst he
    refine .hungUp rfl ?_
    rw [hsession, System.session_eq hc]
  | closed ss he =>
    subst he
    exact absurd rfl hfair
  | reader ss ss' he hr =>
    rw [System.session_eq hc] at hlive
    refine .reader he ?_ ?_ hmoves
    · rw [hsession, System.session_eq hc]
      exact hr
    · -- a session that is cancelled has ended, and its reader with it
      rw [System.session_eq hc, hphase, Bool.or_false, ← Bool.not_eq_true]
      exact fun hcancel => hr.not_stopped (hlive.ended (hlive.cancelled hcancel)).1
  | writer ss ss' choice he hw =>
    subst he
    refine .writer choice rfl ?_
    rw [System.session_eq hc] at hlive
    rw [hsession, System.session_eq hc]
    exact hlive.sends hw (h.inv.sessions c ss hc) hphase (hfair rfl)

/-- **What a step of a fair run does to the connection.** -/
theorem turn {stream : List UInt8} (h : s.sys.Sound cfg assign) (hlive : Live (s.sys.session c))
    (hfair : Fair c stream s (.sys e)) (hs : s.sys.step cfg assign fb e = some sys) :
    Turn cfg assign fb c s e sys := by
  have hphase := hfair.1
  cases System.step_cases hs with
  | threads a server he ha hstep | dequeued i op rest server he hq hstep =>
    subst he
    exact .aside rfl rfl rfl rfl nofun fun _ => ⟨rfl, rfl⟩
  | checked i op he hw hp =>
    subst he
    refine .aside rfl rfl rfl rfl nofun fun j => ⟨rfl, ?_⟩
    rw [System.finished_active hp]
    rfl
  | dropped i op he hw hp =>
    exact absurd (h.active hphase hw) hp
  | responded i job r ss he hw hc hroom =>
    subst he
    have hanswers := h.inv.workers i
    rw [hw] at hanswers
    by_cases hown : job.op.session = c
    · rw [hown] at hc
      refine .responded i job r rfl hw hown hanswers (h.pending_pos hw hown) ?_ ?_
      · rw [System.session_eq hc]
        exact hroom
      · rw [hown, System.session_setSession, System.session_eq hc]
    · refine .aside (System.session_setSession_of_ne (Ne.symm hown) _) rfl rfl ?_ nofun
        fun j => ⟨rfl, ?_⟩
      · simp only [claims, hw]
        exact if_neg fun h => hown h.1
      · rw [System.finished_respond hw]
        exact mine_of_ne hown
  | unanswered i job r ss he hw hc hd =>
    subst he
    by_cases hown : job.op.session = c
    · -- the operation is pending, so the session is not cancelled
      have hpos := h.pending_pos hw hown
      rw [hown] at hc
      rw [System.session_eq hc] at hlive hpos
      rw [hphase, Bool.or_false] at hd
      rw [(hlive.ended (hlive.cancelled hd)).2.1] at hpos
      cases hpos
    · refine .aside (System.session_setSession_of_ne (Ne.symm hown) _) rfl rfl ?_ nofun
        fun j => ⟨rfl, ?_⟩
      · simp only [claims, hw]
        exact if_neg fun h => hown h.1
      · rw [System.finished_respond hw]
        exact mine_of_ne hown
  | session c' ss' server hstep hserver =>
    by_cases hcc : c = c'
    · subst hcc
      exact .own h hlive hfair hstep
    · exact .other hcc hstep
  | dispatched c' ss op he hc hr hroom =>
    subst he
    have hown := h.pending.own hc (Or.inr hr)
    have hmoves : ∀ i, s.sys.dispatched assign (.reader c') i =
        if assign op.key = i then some op else none := System.dispatched_room hc hr hroom
    by_cases hcc : c = c'
    · subst hcc
      refine .dispatched op rfl ?_ hown ?_ hmoves
      · rw [System.session_eq hc]
        exact hr
      · rw [System.session_eq hc]
        exact System.session_setSession ..
    · refine .aside (System.session_setSession_of_ne hcc _) rfl (if_neg (Ne.symm hcc))
        (if_neg (Ne.symm hcc)) nofun fun i => ⟨?_, rfl⟩
      rw [hmoves i]
      exact mine_of_ne fun h => hcc (h.symm.trans hown)
  | withdrawn c' ss op he hc hr hfull hd =>
    subst he
    by_cases hcc : c = c'
    · subst hcc
      rw [System.session_eq hc] at hlive
      rw [hphase, Bool.or_false] at hd
      have hstopped := (hlive.ended (hlive.cancelled hd)).1
      rw [hr] at hstopped
      cases hstopped
    · refine .aside (System.session_setSession_of_ne hcc _) rfl (if_neg (Ne.symm hcc))
        (if_neg (Ne.symm hcc)) nofun fun i => ⟨?_, rfl⟩
      rw [System.dispatched_full hc hr hfull]
      rfl

end Exchange

end RedLease.Server

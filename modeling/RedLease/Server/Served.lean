import RedLease.Server.Reading
import RedLease.Server.Responses

/-!
# Every request of a connection is answered once

As long as the server is in its quarantine or active and the writes succeed, `sendResponses` does not
return before one response for each request was written and flushed, and the requests for one shard
are applied and answered in the order in which they were sent.

* `Ledger`: every request that was decoded is answered in the ring or behind it, or is in a shard, or
  with the reader; and for each shard what was dispatched, applied and answered is in one order.
* **`Turn.balance`**: nothing gets lost in a step.
* **`session_served`**: the consequence for a whole run.
-/

namespace RedLease.Server

open Lib LeaseShard

namespace Exchange

variable {n m : Nat} {cfg : Config} {assign : Nat → Fin n} {fb : Accessors} {c : Nat}
  {s s' : Exchange n m} {e : System.Event n m} {sys : System n m}

/-! ## The ledger -/

/-- The request IDs and operations of the responses of one worker. -/
def answers (l : List (Origin n × Response)) (i : Fin n) : List (Nat × ClientOperation) :=
  (l.filter fun x => x.1 = some i).map fun x => responseKey x.2

/-- How many of the operations of connection `c` have this key. -/
def load (c : Nat) (κ : Nat × ClientOperation) (ops : Fin n → List Operation) : Nat :=
  ∑ i, ((mine c (ops i)).map answerKey).count κ

theorem mine_append (l l' : List Operation) : mine c (l ++ l') = mine c l ++ mine c l' :=
  List.filter_append ..

theorem load_append (κ : Nat × ClientOperation) (f g : Fin n → List Operation) :
    load c κ (fun i => f i ++ g i) = load c κ f + load c κ g := by
  unfold load
  rw [← Finset.sum_add_distrib]
  refine Finset.sum_congr rfl fun i _ => ?_
  rw [mine_append, List.map_append, List.count_append]

theorem load_nil (κ : Nat × ClientOperation) {f : Fin n → List Operation}
    (h : ∀ i, mine c (f i) = []) : load c κ f = 0 :=
  Finset.sum_eq_zero fun i _ => by rw [h i]; rfl

theorem load_single (κ : Nat × ClientOperation) {op : Operation} (hown : op.session = c) (j : Fin n) :
    load c κ (fun i => (if j = i then some op else none).toList) = [answerKey op].count κ := by
  unfold load
  rw [Finset.sum_eq_single j]
  · dsimp only
    rw [if_pos rfl, Option.toList_some, mine, List.filter_singleton, decide_eq_true hown]
    rfl
  · intro i _ hij
    dsimp only
    rw [if_neg (Ne.symm hij)]
    rfl
  · exact fun h => absurd (Finset.mem_univ j) h

/-- Dispatches to shard `i`, in the order of their requests. -/
structure Ordered (assign : Nat → Fin n) (i : Fin n) (requests : List Request) (held : Nat)
    (ds : List (Nat × Operation)) : Prop where
  increasing : ds.Pairwise fun d d' => d.1 < d'.1
  bound : ∀ d ∈ ds, d.1 + held < requests.length
  request : ∀ d ∈ ds, requests[d.1]? = some (.lease d.2)
  shard : ∀ d ∈ ds, assign d.2.key = i

/-- Where the requests of the connection and their responses are. -/
structure Ledger (assign : Nat → Fin n) (c : Nat) (s : Exchange n m) : Prop where
  order : ∀ i, (s.dispatches i).map Prod.snd = s.finished i ++ mine c (s.sys.inShard i)
  applied : ∀ i, s.applied i =
    s.finished i ++ mine c ((s.sys.server.workers i).job.map Job.op).toList
  answered : ∀ i, answers s.claimed i = (s.finished i).map answerKey
  sent : ∀ i, Ordered assign i s.requests (s.sys.session c).current.toList.length (s.dispatches i)
  /-- A request is answered in the ring or behind it, in a shard, or with the reader. -/
  count : ∀ κ, (s.requests.map Request.key).count κ =
    (s.claimed.map fun x => responseKey x.2).count κ + load c κ s.sys.inShard +
      (s.sys.session c).current.toList.count κ

theorem ledger_init (clock : Time) : (init n m clock).Ledger assign c where
  order _ := rfl
  applied _ := rfl
  answered _ := rfl
  sent _ := ⟨List.Pairwise.nil, nofun, nofun, nofun⟩
  count κ := by
    rw [load_nil κ fun _ => rfl]
    rfl

/-- What the reader has decoded and what it passes on. -/
theorem current_of_read {phase : Phase} {ss' : Session}
    (h : ReaderStep cfg fb phase c (s.sys.session c) ss')
    (hopen : ((s.sys.session c).cancelled || phase.unavailable) = false) :
    (s.sys.session c).current.toList ++ (s.decodes c fb (.reader c)).toList.map Request.key =
      ((s.claims c (.reader c)).toList.map fun x => responseKey x.2) ++ ss'.current.toList := by
  have hcurrent : ∀ {r : Reader}, (s.sys.session c).reader = r →
      (s.sys.session c).current = Session.current { s.sys.session c with reader := r } :=
    fun hr => by rw [← hr]
  have quiet : ∀ {r : Reader}, (s.sys.session c).reader = r → (∀ frame, r ≠ .decode frame) →
      (∀ r', r ≠ .enqueue r') →
      Session.current { s.sys.session c with reader := r } = ss'.current →
      (s.sys.session c).current.toList ++ (s.decodes c fb (.reader c)).toList.map Request.key =
        ((s.claims c (.reader c)).toList.map fun x => responseKey x.2) ++ ss'.current.toList := by
    intro r hr h1 h2 hsame
    rw [decodes_of_ne (hr ▸ h1), claims_of_ne (hr ▸ h2), hcurrent hr, hsame]
    exact List.append_nil _
  cases h with
  | read frame rest hr hf => exact quiet hr (by rintro _ ⟨⟩) (by rintro _ ⟨⟩) rfl
  | ended err he =>
    cases he with
    | malformed frame reason hr hd =>
      have hnone : s.decodes c fb (.reader c) = none := by
        simp only [decodes, if_true, hr, hd, Except.toOption]
      rw [hnone, claims_of_ne (by rw [hr]; rintro _ ⟨⟩), hcurrent hr]
      rfl
    | invalid size hr hf | closed hr hc | eof hr hf he | unavailable frame hr hp =>
      exact quiet hr (by rintro _ ⟨⟩) (by rintro _ ⟨⟩) rfl
  | checked frame hr hp => exact quiet hr (by rintro _ ⟨⟩) (by rintro _ ⟨⟩) rfl
  | getTTL frame requestID hr hd | lease frame op hr hd =>
    rw [decodes_decode hr hd, claims_of_ne (by rw [hr]; rintro _ ⟨⟩), hcurrent hr]
    rfl
  | refused op hr hp =>
    have hkey : responseKey (statusResponse op LeaseStatus.notReady) = answerKey op :=
      (answers_statusResponse op (by decide)).key
    exact quiet hr (by rintro _ ⟨⟩) (by rintro _ ⟨⟩) (congrArg some hkey.symm)
  | admitted op hr hp => exact quiet hr (by rintro _ ⟨⟩) (by rintro _ ⟨⟩) rfl
  | enqueued r hr hroom =>
    rw [decodes_of_ne (by rw [hr]; rintro _ ⟨⟩), claims_enqueue hr hroom, hcurrent hr]
    rfl
  | gaveUp r hr hc =>
    rw [hopen] at hc
    cases hc

/-- **Nothing gets lost in a step**: what the reader or a worker is done with is passed on. -/
theorem Turn.balance (ht : Turn cfg assign fb c s e sys) (κ : Nat × ClientOperation) :
    (s.sys.session c).current.toList.count κ +
        ((s.decodes c fb e).toList.map Request.key).count κ +
        load c κ (fun i => (s.sys.finished e i).toList) =
      ((s.claims c e).toList.map fun x => responseKey x.2).count κ +
        load c κ (fun i => (s.sys.dispatched assign e i).toList) +
        (sys.session c).current.toList.count κ := by
  cases ht with
  | aside hsession hreceives hdecodes hclaims hwriter hmine =>
    rw [hsession, hdecodes, hclaims, load_nil κ fun i => (hmine i).1, load_nil κ fun i => (hmine i).2]
    simp
  | received bytes he hsession | hungUp he hsession =>
    subst he
    rw [hsession, load_nil κ fun _ => rfl, load_nil κ fun _ => rfl]
    simp [decodes, claims, Session.current]
  | reader he hr hopen hmoves =>
    subst he
    have hflow := congrArg (List.count κ) (current_of_read hr hopen)
    rw [List.count_append, List.count_append] at hflow
    rw [load_nil κ fun _ => rfl, load_nil κ fun i => by rw [hmoves i]; rfl]
    omega
  | dispatched op he hr hown hsession hmoves =>
    subst he
    rw [hsession, decodes_of_ne (by rw [hr]; rintro _ ⟨⟩), claims_of_ne (by rw [hr]; rintro _ ⟨⟩),
      load_nil κ fun _ => rfl]
    simp only [hmoves, load_single κ hown, Session.current, hr]
    simp
  | writer choice he hw =>
    subst he
    have hsame : (sys.session c).current = (s.sys.session c).current := by
      unfold Session.current
      rw [hw.same.1]
    rw [hsame, load_nil κ fun _ => rfl, load_nil κ fun _ => rfl]
    simp [decodes, claims]
  | responded i job r he hw hown hanswers hpending hroom hsession =>
    subst he
    have hnone : load c κ (fun j => (s.sys.dispatched assign (.respond i) j).toList) = 0 :=
      load_nil κ fun _ => rfl
    rw [hsession, claims_respond hw hown hroom, hnone]
    simp only [System.finished_respond hw, load_single κ hown, ← hanswers.key]
    simp [decodes, Session.current, Nat.add_comm]

/-- **The flow of operations through `apply`**: one that a worker is at work on gets there when it
calls `apply`, and leaves when its response is handed over. -/
theorem job_flow (h : s.sys.Sound cfg assign) (hp : s.sys.server.phase.unavailable = false)
    (hs : s.sys.step cfg assign fb e = some sys) (i : Fin n) :
    ((s.sys.server.workers i).job.map Job.op).toList ++ (s.applies i e).toList =
      (s.sys.finished e i).toList ++ ((sys.server.workers i).job.map Job.op).toList := by
  have still : sys.server.workers i = s.sys.server.workers i → s.applies i e = none →
      s.sys.finished e i = none →
      ((s.sys.server.workers i).job.map Job.op).toList ++ (s.applies i e).toList =
        (s.sys.finished e i).toList ++ ((sys.server.workers i).job.map Job.op).toList := by
    intro hw ha hf
    rw [hw, ha, hf, Option.toList_none, List.append_nil, List.nil_append]
  -- worker `j` moves from `w` to `w'`, both outside of `apply`
  have outside : ∀ {j : Fin n} {w w' : Worker}, s.sys.server.workers j = w → w.job = none →
      w'.job = none → sys.server = s.sys.server.setWorker j w' → s.applies i e = none →
      s.sys.finished e i = none →
      ((s.sys.server.workers i).job.map Job.op).toList ++ (s.applies i e).toList =
        (s.sys.finished e i).toList ++ ((sys.server.workers i).job.map Job.op).toList := by
    intro j w w' hw hj hj' hserver ha hf
    rw [hserver, ha, hf]
    by_cases hij : i = j
    · subst hij
      have hself : (s.sys.server.setWorker i w').workers i = w' := Function.update_self ..
      rw [hself, hw, hj, hj']
      rfl
    · have hother : (s.sys.server.setWorker j w').workers i = s.sys.server.workers i :=
        Function.update_of_ne hij ..
      rw [hother, Option.toList_none, List.append_nil, List.nil_append]
  -- worker `j` is done with its job
  have done : ∀ {j : Fin n} {job : Job} {r : Response}, e = .respond j →
      s.sys.server.workers j = .reply job r → sys.server = s.sys.server.setWorker j .idle →
      ((s.sys.server.workers i).job.map Job.op).toList ++ (s.applies i e).toList =
        (s.sys.finished e i).toList ++ ((sys.server.workers i).job.map Job.op).toList := by
    intro j job r he hw hserver
    subst he
    rw [System.finished_respond hw, hserver, show s.applies i (.respond j) = none from rfl,
      Option.toList_none, List.append_nil]
    by_cases hij : j = i
    · subst hij
      have hself : (s.sys.server.setWorker j .idle).workers j = .idle := Function.update_self ..
      rw [hself, hw, if_pos rfl]
      rfl
    · have hother : (s.sys.server.setWorker j .idle).workers i = s.sys.server.workers i :=
        Function.update_of_ne (Ne.symm hij) ..
      rw [hother, if_neg hij]
      rfl
  cases System.step_cases hs with
  | threads a server he ha hstep =>
    subst he
    cases step_worker hstep i with
    | still hw hacting =>
      refine still hw ?_ rfl
      -- a worker that calls `apply` moves
      cases a with
      | apply j now =>
        unfold applies
        dsimp only
        split
        · rename_i op hop
          refine if_neg fun hji => ?_
          subst hji
          simp only [Server.step, hop] at hstep
          split_ifs at hstep
          cases hstep
          have hself : (s.sys.server.setWorker j (.lock ⟨op, now, false⟩)).workers j =
              .lock ⟨op, now, false⟩ := Function.update_self ..
          rw [hself, hop] at hw
          cases hw
        · rfl
      | _ => rfl
    | moved pool hwork hm =>
      subst hwork
      obtain ⟨job, job', hj, hj', hop, -⟩ := (Worker.step_turn hm).job
      show ((s.sys.server.workers i).job.map Job.op).toList ++ [] =
        ((server.workers i).job.map Job.op).toList
      rw [hj, hj', Option.map_some, Option.map_some, hop, List.append_nil]
    | dequeued op hw hw' hd => subst hd; cases ha
    | dropped op hw hw' hphase hc | admitted op hw hw' hactive hc => subst hc; cases ha
    | applied op now hw hn hw' happly =>
      subst happly
      have happlies : s.applies i (.server (.apply i now)) = some op := by
        simp only [applies, hw, if_true]
      rw [happlies, System.setServer_server, hw, hw']
      rfl
    | responded job r hw hw' hr => subst hr; cases ha
  | dequeued j op rest server he hq hstep =>
    subst he
    obtain ⟨hw, -, rfl⟩ := System.dequeue_cases hstep
    exact outside hw rfl rfl rfl rfl rfl
  | checked j op he hw hp' =>
    subst he
    exact outside hw rfl rfl rfl rfl (System.finished_active hp' i)
  | dropped j op he hw hp' => exact absurd (h.active hp hw) hp'
  | responded j job r ss he hw hc hroom | unanswered j job r ss he hw hc hd => exact done he hw rfl
  | session c' ss' server hstep hserver =>
    have hworkers : server.workers = s.sys.server.workers := by
      rcases hserver with rfl | rfl <;> rfl
    have hmoves : s.sys.dispatched assign e i = none ∧ s.sys.finished e i = none :=
      hstep.moves_none i
    refine still (congrFun hworkers i) ?_ hmoves.2
    generalize s.sys.sessions c' = o at hstep
    cases hstep with
    | accepted he | received ss bytes he | hungUp ss he | closed ss he | reader ss ss' he
    | writer ss ss' choice he => subst he; rfl
  | dispatched c' ss op he hc hr hroom | withdrawn c' ss op he hc hr hfull hd =>
    subst he; exact still rfl rfl rfl

/-! ### Steps -/

section Ordered

variable {i : Fin n} {requests : List Request} {held : Nat} {ds : List (Nat × Operation)}

theorem Ordered.more (h : Ordered assign i requests held ds) {more : List Request} {held' : Nat}
    (hheld : held' ≤ held + more.length) : Ordered assign i (requests ++ more) held' ds where
  increasing := h.increasing
  bound d hd := by
    have hlt := h.bound d hd
    rw [List.length_append]
    omega
  request d hd := by
    have hlt := h.bound d hd
    rw [List.getElem?_append_left (by omega)]
    exact h.request d hd
  shard := h.shard

/-- The last request is dispatched. -/
theorem Ordered.push (h : Ordered assign i requests 1 ds) {op : Operation}
    (hlast : requests.getLast? = some (.lease op)) (hi : assign op.key = i) :
    Ordered assign i requests 0 (ds ++ [(requests.length - 1, op)]) where
  increasing := by
    refine List.pairwise_append.mpr ⟨h.increasing, List.pairwise_singleton .., fun d hd d' hd' => ?_⟩
    have hlt := h.bound d hd
    rw [List.mem_singleton.mp hd']
    show d.1 < requests.length - 1
    omega
  bound d hd := by
    rcases List.mem_append.mp hd with hd | hd
    · exact (h.bound d hd).trans' (Nat.lt_succ_self _)
    · have hpos : 0 < requests.length := by
        cases requests with
        | nil => cases hlast
        | cons => exact Nat.succ_pos _
      rw [List.mem_singleton.mp hd]
      show requests.length - 1 + 0 < requests.length
      omega
  request d hd := by
    rcases List.mem_append.mp hd with hd | hd
    · exact h.request d hd
    · rw [List.mem_singleton.mp hd, ← List.getLast?_eq_getElem?]
      exact hlast
  shard d hd := by
    rcases List.mem_append.mp hd with hd | hd
    · exact h.shard d hd
    · rw [List.mem_singleton.mp hd]
      exact hi

end Ordered

theorem Turn.sent {frames : List (List UInt8)} {reqs : List Request}
    (ht : Turn cfg assign fb c s e sys)
    (hread : Reading frames reqs (s.sys.session c) s.arrived s.requests) {i : Fin n}
    (h : Ordered assign i s.requests (s.sys.session c).current.toList.length (s.dispatches i)) :
    Ordered assign i (s.requests ++ (s.decodes c fb e).toList)
      (sys.session c).current.toList.length
      (s.dispatches i ++ (mine c (s.sys.dispatched assign e i).toList).map
        fun op => (s.requests.length - 1, op)) := by
  have keep : mine c (s.sys.dispatched assign e i).toList = [] →
      (sys.session c).current.toList.length ≤
        (s.sys.session c).current.toList.length + (s.decodes c fb e).toList.length →
      Ordered assign i (s.requests ++ (s.decodes c fb e).toList)
        (sys.session c).current.toList.length
        (s.dispatches i ++ (mine c (s.sys.dispatched assign e i).toList).map
          fun op => (s.requests.length - 1, op)) := by
    intro hnone hheld
    rw [hnone, List.map_nil, List.append_nil]
    exact h.more hheld
  cases ht with
  | aside hsession hreceives hdecodes hclaims hwriter hmine =>
    exact keep (hmine i).1 (by rw [hsession]; exact Nat.le_add_right ..)
  | received bytes he hsession | hungUp he hsession =>
    subst he
    exact keep rfl (by rw [hsession]; exact Nat.le_add_right ..)
  | reader he hr hopen hmoves =>
    subst he
    have hflow := congrArg List.length (current_of_read hr hopen)
    simp only [List.length_append, List.length_map] at hflow
    exact keep (by rw [hmoves i]; rfl) (by omega)
  | dispatched op he hr hown hsession hmoves =>
    subst he
    rw [Session.current, hr] at h
    rw [hmoves i, decodes_of_ne (by rw [hr]; nofun), hsession, Option.toList_none, List.append_nil]
    by_cases hi : assign op.key = i
    · rw [if_pos hi, Option.toList_some, mine, List.filter_singleton, decide_eq_true hown]
      exact h.push (hread.current op (Or.inr hr)) hi
    · rw [if_neg hi]
      have hkeep : Ordered assign i (s.requests ++ []) 0 (s.dispatches i) := h.more (Nat.zero_le _)
      rw [List.append_nil] at hkeep
      show Ordered assign i s.requests 0 (s.dispatches i ++ [])
      rw [List.append_nil]
      exact hkeep
  | writer choice he hw =>
    subst he
    refine keep rfl ?_
    rw [Session.current, Session.current, hw.same.1]
    exact Nat.le_add_right ..
  | responded j job r he hw hown hanswers hpending hroom hsession =>
    subst he
    exact keep rfl (by rw [hsession]; exact Nat.le_add_right ..)

theorem answers_append (l l' : List (Origin n × Response)) (i : Fin n) :
    answers (l ++ l') i = answers l i ++ answers l' i := by
  rw [answers, List.filter_append, List.map_append]
  rfl

/-- The response of a worker answers the operation it is done with. -/
theorem Turn.answers (ht : Turn cfg assign fb c s e sys) (i : Fin n) :
    answers (s.claims c e).toList i = (mine c (s.sys.finished e i).toList).map answerKey := by
  cases ht with
  | aside hsession hreceives hdecodes hclaims hwriter hmine =>
    rw [hclaims, (hmine i).2]
    rfl
  | received bytes he hsession => subst he; rfl
  | hungUp he hsession => subst he; rfl
  | reader he hr hopen hmoves =>
    subst he
    rcases hr.queue hopen with ⟨r, hr', hroom, hq⟩ | ⟨hne, hq⟩
    · rw [claims_enqueue hr' hroom]
      rfl
    · rw [claims_of_ne hne]
      rfl
  | dispatched op he hr hown hsession hmoves =>
    subst he
    rw [claims_of_ne (by rw [hr]; nofun)]
    rfl
  | writer choice he hw => subst he; rfl
  | responded j job r he hw hown hanswers hpending hroom hsession =>
    subst he
    rw [claims_respond hw hown hroom, System.finished_respond hw]
    by_cases hij : j = i
    · subst hij
      rw [if_pos rfl, Option.toList_some, Option.toList_some, mine, List.filter_singleton,
        decide_eq_true hown, Exchange.answers, List.filter_singleton, decide_eq_true rfl]
      exact congrArg (fun κ => [κ]) hanswers.key
    · have hne : (some j : Origin n) ≠ some i := fun h => hij (Option.some.inj h)
      rw [if_neg hij, Option.toList_some, Exchange.answers, List.filter_singleton,
        decide_eq_false hne]
      rfl

/-- **A step of the system keeps the ledger.** -/
theorem Ledger.after_sys {frames : List (List UInt8)} {reqs : List Request}
    (h : s.Ledger assign c) (hsound : s.sys.Sound cfg assign)
    (hread : Reading frames reqs (s.sys.session c) s.arrived s.requests)
    (hring : Ring (s.sys.session c) s) (hp : s.sys.server.phase.unavailable = false)
    (hs : s.sys.step cfg assign fb e = some sys) (ht : Turn cfg assign fb c s e sys) :
    (s.note c assign fb e sys).Ledger assign c := by
  have hnote : SameHistory (s.record c assign fb e sys) (s.note c assign fb e sys) := note_history
  have hclaimed := (hring.after_step ht).2
  have hflow : ∀ i, mine c (s.sys.inShard i) ++ mine c (s.sys.dispatched assign e i).toList =
      mine c (s.sys.finished e i).toList ++ mine c (sys.inShard i) := fun i => by
    rw [← mine_append, System.flow hs i, mine_append]
  constructor
  case order =>
    intro i
    rw [hnote.dispatches, hnote.finished, hnote.sys]
    show (s.dispatches i ++ (mine c _).map _).map Prod.snd =
      s.finished i ++ mine c _ ++ mine c (sys.inShard i)
    rw [List.map_append, h.order i, List.map_map, List.append_assoc, List.append_assoc, ← hflow i]
    congr 2
    exact List.map_id _
  case applied =>
    intro i
    rw [hnote.applied, hnote.finished, hnote.sys]
    show s.applied i ++ mine c _ = s.finished i ++ mine c _ ++ mine c _
    rw [h.applied i, List.append_assoc, List.append_assoc, ← mine_append, ← mine_append,
      job_flow hsound hp hs i]
    rfl
  case answered =>
    intro i
    rw [hclaimed, hnote.finished, answers_append, h.answered i, ht.answers i]
    exact (List.map_append ..).symm
  case sent =>
    intro i
    rw [hnote.requests, hnote.dispatches, hnote.sys]
    exact ht.sent hread (h.sent i)
  case count =>
    intro κ
    have hbalance := ht.balance κ
    have hcount := h.count κ
    have hload : load c κ s.sys.inShard +
        load c κ (fun i => (s.sys.dispatched assign e i).toList) =
        load c κ (fun i => (s.sys.finished e i).toList) + load c κ sys.inShard := by
      rw [← load_append, ← load_append]
      exact congrArg (load c κ) (funext fun i => System.flow hs i)
    rw [hclaimed, hnote.requests, hnote.sys]
    show ((s.requests ++ (s.decodes c fb e).toList).map Request.key).count κ = _ +
      load c κ sys.inShard + (sys.session c).current.toList.count κ
    rw [List.map_append, List.map_append, List.count_append, List.count_append]
    omega

/-- What does not concern the ledger. -/
theorem Ledger.congr (h : s.Ledger assign c) (hd : s'.dispatches = s.dispatches)
    (hf : s'.finished = s.finished) (ha : s'.applied = s.applied) (hr : s'.requests = s.requests)
    (hc : s'.claimed = s.claimed) (hshard : s'.sys.inShard = s.sys.inShard)
    (hworkers : s'.sys.server.workers = s.sys.server.workers)
    (hcurrent : (s'.sys.session c).current = (s.sys.session c).current) : s'.Ledger assign c where
  order i := by rw [hd, hf, hshard]; exact h.order i
  applied i := by rw [ha, hf, hworkers]; exact h.applied i
  answered i := by rw [hc, hf]; exact h.answered i
  sent i := by rw [hr, hcurrent, hd]; exact h.sent i
  count κ := by rw [hr, hc, hshard, hcurrent]; exact h.count κ

/-! ## The invariant -/

theorem publish_same (o : Origin n) (x : Slot n) :
    (x.publish o).origin = x.origin ∧ (x.publish o).response = x.response := by
  unfold Slot.publish
  split_ifs
  · exact ⟨rfl, rfl⟩
  · exact ⟨rfl, rfl⟩

theorem unpublished_of_publish {o : Origin n} {x : Slot n} (h : (x.publish o).published = false) :
    x.published = false ∧ x.origin ≠ o := by
  unfold Slot.publish at h
  split_ifs at h with ho
  exact ⟨h, ho⟩

/-- A producer publishes its slots. -/
theorem publishStep_cases {o : Origin n} (hs : s.publishStep o = some s') :
    s'.slots = s.slots.map (Slot.publish o) ∧ s'.hand = s.hand ∧ s'.written = s.written ∧
      s'.flushed = s.flushed ∧ SameHistory s s' ∧
      ∀ o', o' ≠ o → s.producing o' → s'.producing o' := by
  unfold publishStep at hs
  cases o with
  | none =>
    simp only at hs
    split_ifs at hs
    cases hs
    refine ⟨rfl, rfl, rfl, rfl, ⟨rfl, rfl, rfl, rfl, rfl, rfl⟩, fun o' hne ho' => ?_⟩
    cases o' with
    | none => exact absurd rfl hne
    | some i => exact ho'
  | some i =>
    simp only at hs
    split_ifs at hs
    cases hs
    refine ⟨rfl, rfl, rfl, rfl, ⟨rfl, rfl, rfl, rfl, rfl, rfl⟩, fun o' hne ho' => ?_⟩
    cases o' with
    | none => exact ho'
    | some j =>
      have hji : j ≠ i := fun h => hne (congrArg some h)
      exact (Function.update_of_ne hji ..).trans ho'

theorem doneStep_cases {i : Fin n} (hs : s.doneStep i = some s') :
    s.handing i = .counting ∧ s' = { s with handing := Function.update s.handing i .free } := by
  unfold doneStep at hs
  split_ifs at hs with hi
  exact ⟨hi, (Option.some.inj hs).symm⟩

/-- When no producer is between its claim and its publication, the next slot is published. -/
theorem Ring.headPublished {ss : Session} (h : Ring ss s) (hq : s.quiet = true) :
    s.headPublished = true := by
  unfold Exchange.headPublished
  split
  · rfl
  · rename_i x xs hx
    by_contra hp
    have hproducing := h.unpublished x (hx ▸ List.mem_cons_self) (Bool.not_eq_true _ ▸ hp)
    simp only [quiet, Bool.and_eq_true, Bool.not_eq_true', decide_eq_true_eq] at hq
    cases ho : x.origin with
    | none =>
      rw [ho] at hproducing
      rw [show s.publishing = true from hproducing] at hq
      cases hq.1
    | some i =>
      rw [ho] at hproducing
      have hfree := hq.2 i
      rw [show s.handing i = .publishing from hproducing] at hfree
      cases hfree

/-- `sendResponses` finds nothing and waits or flushes; it does not return. -/
theorem starveStep_cases {ss : Session} (hring : Ring ss s) (hs : s.starveStep c = some s') :
    ∃ ss w, s.sys.sessions c = some ss ∧
      s' = { s with sys := s.sys.setSession c { ss with writer := w } } ∧
      (ss.writer = .take ∧ w = .wait ∨ ss.writer = .next ∧ w = .flush) := by
  unfold starveStep at hs
  by_cases hhead : s.headPublished = true ∨ s.sys.sessions c = none
  · rw [if_pos hhead] at hs
    cases hs
  rw [if_neg hhead] at hs
  rw [not_or] at hhead
  obtain ⟨ss, hc⟩ := Option.ne_none_iff_exists'.mp hhead.2
  simp only [setWriter, System.session_eq hc] at hs
  refine ⟨ss, ?_⟩
  split at hs
  · rename_i hw
    cases hs
    exact ⟨.wait, hc, rfl, Or.inl ⟨hw, rfl⟩⟩
  · rename_i hw
    cases hs
    exact ⟨.flush, hc, rfl, Or.inr ⟨hw, rfl⟩⟩
  · split_ifs at hs with hdone
    exact absurd (hring.headPublished hdone.2.2) hhead.1
  · cases hs

/-- What holds of every state of a fair run. -/
structure Inv (cfg : Config) (assign : Nat → Fin n) (c : Nat) (frames : List (List UInt8))
    (reqs : List Request) (s : Exchange n m) : Prop where
  sound : s.sys.Sound cfg assign
  reading : Reading frames reqs (s.sys.session c) s.arrived s.requests
  live : Live (s.sys.session c)
  ring : Ring (s.sys.session c) s
  ledger : s.Ledger assign c

section Inv

variable {frames : List (List UInt8)} {reqs : List Request}

theorem inv_init (clock : Time) : (init n m clock).Inv cfg assign c frames reqs where
  sound := System.sound_init clock
  reading := reading_init
  live := ⟨nofun, nofun, nofun, nofun⟩
  ring := ring_init clock
  ledger := ledger_init clock

theorem Inv.publish (h : s.Inv cfg assign c frames reqs) {o : Origin n}
    (hs : s.publishStep o = some s') : s'.Inv cfg assign c frames reqs := by
  obtain ⟨hslots, hhand, hwritten, hflushed, hhist, hproducing⟩ := publishStep_cases hs
  have hclaimed : s'.claimed = s.claimed := by
    unfold claimed
    rw [hslots, hhand, hwritten, List.map_map]
    congr 1
    refine List.map_congr_left fun x _ => ?_
    exact Prod.ext (publish_same o x).1 (publish_same o x).2
  refine ⟨?_, ?_, ?_, ?_, ?_⟩
  · rw [hhist.sys]
    exact h.sound
  · rw [hhist.sys, hhist.arrived, hhist.requests]
    exact h.reading
  · rw [hhist.sys]
    exact h.live
  · rw [hhist.sys]
    refine ⟨?_, hhand ▸ h.ring.hand, fun x hx hp => ?_, fun he => ?_⟩
    · rw [hslots, List.map_map, ← h.ring.slots]
      exact List.map_congr_left fun x _ => (publish_same o x).2
    · rw [hslots] at hx
      obtain ⟨y, hy, rfl⟩ := List.mem_map.mp hx
      obtain ⟨hp, hne⟩ := unpublished_of_publish hp
      rw [(publish_same o y).1]
      exact hproducing _ hne (h.ring.unpublished y hy hp)
    · rw [hflushed, hwritten]
      exact h.ring.flushed he
  · exact h.ledger.congr hhist.dispatches hhist.finished hhist.applied hhist.requests hclaimed
      (by rw [hhist.sys]) (by rw [hhist.sys]) (by rw [hhist.sys])

theorem Inv.done (h : s.Inv cfg assign c frames reqs) {i : Fin n} (hs : s.doneStep i = some s') :
    s'.Inv cfg assign c frames reqs := by
  obtain ⟨hi, rfl⟩ := doneStep_cases hs
  refine ⟨h.sound, h.reading, h.live, ⟨h.ring.slots, h.ring.hand, fun x hx hp => ?_, h.ring.flushed⟩,
    h.ledger.congr rfl rfl rfl rfl rfl rfl rfl rfl⟩
  have hold := h.ring.unpublished x hx hp
  cases ho : x.origin with
  | none => rw [ho] at hold; exact hold
  | some j =>
    rw [ho] at hold
    have hji : j ≠ i := by
      rintro rfl
      rw [show s.handing j = .publishing from hold] at hi
      cases hi
    exact (Function.update_of_ne hji ..).trans hold

theorem Inv.starve (h : s.Inv cfg assign c frames reqs) (hs : s.starveStep c = some s') :
    s'.Inv cfg assign c frames reqs := by
  obtain ⟨ss, w, hc, rfl, hw⟩ := starveStep_cases h.ring hs
  obtain ⟨hsound, hread, hlive, hring, hledger⟩ := h
  have hsession : (s.sys.setSession c { ss with writer := w }).session c = { ss with writer := w } :=
    System.session_setSession ..
  have hold := System.session_eq hc
  rw [hold] at hread hlive hring
  have hbuffer : ss.writer.inHand = none ∧ w.inHand = none ∧ ss.writer.ended = false ∧
      w.ended = false ∧ (w.settled = true → ss.writer.settled = true) := by
    rcases hw with ⟨hw, rfl⟩ | ⟨hw, rfl⟩
    · rw [hw]
      exact ⟨rfl, rfl, rfl, rfl, fun _ => rfl⟩
    · rw [hw]
      exact ⟨rfl, rfl, rfl, rfl, nofun⟩
  obtain ⟨hhand, hhand', hended, hended', hsettled⟩ := hbuffer
  constructor
  case sound =>
    refine hsound.setWriter hc fun r hr => ?_
    rw [hr] at hhand'
    cases hhand'
  case reading =>
    show Reading frames reqs ((s.sys.setSession c _).session c) s.arrived s.requests
    rw [hsession]
    exact hread.moved rfl rfl rfl (fun op hop => hop) hread.stopped
  case live =>
    show Live ((s.sys.setSession c _).session c)
    rw [hsession]
    have hne : ss.writer.ended ≠ true := by rw [hended]; nofun
    refine ⟨hlive.recvDone, fun he => ?_, fun hc => absurd (hlive.cancelled hc) hne,
      fun hc => absurd (hlive.connClosed hc) hne⟩
    rw [show w.ended = true from he] at hended'
    cases hended'
  case ring =>
    show Ring ((s.sys.setSession c _).session c) _
    rw [hsession]
    exact ⟨hring.slots, hring.hand.trans (hhand.trans hhand'.symm), hring.unpublished,
      fun he => hring.flushed (hsettled he)⟩
  case ledger =>
    refine hledger.congr rfl rfl rfl rfl rfl rfl rfl ?_
    show ((s.sys.setSession c _).session c).current = _
    rw [hsession, hold]
    rfl

/-- **Every fair step keeps the invariant.** -/
theorem Inv.after_step (h : s.Inv cfg assign c frames reqs) (hsent : Sent fb c frames reqs)
    {a : ExchangeAct n m} (hfair : Fair c frames.flatten s a)
    (hs : s.step cfg assign fb c a = some s') : s'.Inv cfg assign c frames reqs := by
  cases a with
  | sys e =>
    simp only [step] at hs
    split_ifs at hs
    obtain ⟨sys, hstep, rfl⟩ := Option.map_eq_some_iff.mp hs
    have ht := turn h.sound h.live hfair hstep
    have hnote : SameHistory (s.record c assign fb e sys) (s.note c assign fb e sys) := note_history
    have hsys : (s.note c assign fb e sys).sys = sys := hnote.sys
    refine ⟨?_, ?_, ?_, ?_, h.ledger.after_sys h.sound h.reading h.ring hfair.1 hstep ht⟩
    · rw [hsys]
      exact h.sound.after_step hstep
    · rw [hsys, hnote.arrived, hnote.requests]
      exact h.reading.after_step rfl hsent h.live hfair ht
    · rw [hsys]
      exact h.live.after_step h.reading hsent hfair ht
    · rw [hsys]
      exact (h.ring.after_step ht).1
  | publish o => exact h.publish hs
  | done i => exact h.done hs
  | starve => exact h.starve hs

theorem inv_of_exec (hsent : Sent fb c frames reqs) {clock : Time} {acts : List (ExchangeAct n m)}
    (hfair : Trans.Along (step cfg assign fb c) (Fair c frames.flatten) (init n m clock) acts)
    (hs : Trans.exec (step cfg assign fb c) (init n m clock) acts = some s) :
    s.Inv cfg assign c frames reqs :=
  Trans.exec_along (fun h hfair hs => h.after_step hsent hfair hs) (inv_init clock) hfair hs

/-! ## Every request is answered once -/

/-- What was dispatched, applied and written, and what has to be done before `sendResponses`
returns. -/
structure Served (assign : Nat → Fin n) (c : Nat) (reqs : List Request) (s : Exchange n m) :
    Prop where
  /-- A dispatch is one of the requests, to the shard of its key, in the order of the requests. -/
  dispatched : ∀ i, (s.dispatches i).Pairwise (fun d d' => d.1 < d'.1) ∧
    ∀ d ∈ s.dispatches i, reqs[d.1]? = some (.lease d.2) ∧ assign d.2.key = i
  applied : ∀ i, s.applied i <+: (s.dispatches i).map Prod.snd
  written : ∀ i, answers s.written i <+: (s.dispatches i).map fun d => answerKey d.2
  /-- `sendResponses` has returned: there is one response for each request, with its ID and its
  operation, all are flushed, and the shards have nothing left. -/
  returned : (s.sys.session c).writer.ended = true →
    (s.written.map fun x => responseKey x.2).Perm (reqs.map Request.key) ∧
      s.flushed = s.written.length ∧
      ∀ i, s.applied i = (s.dispatches i).map Prod.snd ∧
        answers s.written i = (s.dispatches i).map fun d => answerKey d.2

theorem job_among (w : Worker) : (w.job.map Job.op).toList <+: w.operation.toList := by
  cases w with
  | idle | dequeued op | admitted op => exact List.nil_prefix
  | _ => exact List.prefix_rfl

/-- The operations at work are among those in the shard. -/
theorem Ledger.applied_in_order (h : s.Ledger assign c) (i : Fin n) :
    s.applied i <+: (s.dispatches i).map Prod.snd := by
  rw [h.applied i, h.order i]
  refine (List.prefix_append_right_inj _).mpr ?_
  have hpre : ((s.sys.server.workers i).job.map Job.op).toList <+: s.sys.inShard i :=
    (job_among _).trans (List.prefix_append ..)
  exact hpre.filter _

theorem Ledger.answers_in_order (h : s.Ledger assign c) (i : Fin n) :
    answers s.written i <+: (s.dispatches i).map fun d => answerKey d.2 := by
  have hwritten : answers s.written i <+: answers s.claimed i := by
    unfold claimed
    rw [List.append_assoc, answers_append]
    exact List.prefix_append ..
  have hfinished : (s.finished i).map answerKey <+: (s.dispatches i).map fun d => answerKey d.2 := by
    have hmap : ((s.dispatches i).map fun d => answerKey d.2) =
        ((s.dispatches i).map Prod.snd).map answerKey := by
      rw [List.map_map]
      rfl
    rw [hmap, h.order i, List.map_append]
    exact List.prefix_append ..
  rw [h.answered i] at hwritten
  exact hwritten.trans hfinished

theorem Inv.served (h : s.Inv cfg assign c frames reqs) (hsent : Sent fb c frames reqs) :
    s.Served assign c reqs := by
  refine ⟨fun i => ⟨(h.ledger.sent i).increasing, fun d hd => ⟨?_, (h.ledger.sent i).shard d hd⟩⟩,
    h.ledger.applied_in_order, h.ledger.answers_in_order, fun hend => ?_⟩
  · -- what was decoded is the beginning of what is sent
    have hget := (h.ledger.sent i).request d hd
    obtain ⟨tail, rfl⟩ := h.reading.requests
    rw [List.getElem?_append_left (List.getElem?_eq_some_iff.mp hget).1]
    exact hget
  · obtain ⟨hstopped, hpending, hqueue⟩ := h.live.ended hend
    have hmine : ∀ i, mine c (s.sys.inShard i) = [] := by
      have hcount := h.sound.pending.count c
      rw [← System.pending_eq, hpending] at hcount
      have hzero : s.sys.inFlight c = 0 := by omega
      intro i
      have hi := Finset.sum_eq_zero_iff.mp hzero i (Finset.mem_univ i)
      exact List.filter_eq_nil_iff.mpr (List.countP_eq_zero.mp hi)
    have hclaimed : s.claimed = s.written := by
      have hslots : s.slots = [] := List.map_eq_nil_iff.mp (h.ring.slots.trans hqueue)
      have hhand : s.hand = none := by
        refine Option.map_eq_none_iff.mp (h.ring.hand.trans ?_)
        revert hend
        cases (s.sys.session c).writer <;> first | exact fun _ => rfl | nofun
      rw [claimed, hslots, hhand]
      simp
    have hrequests : s.requests = reqs :=
      h.reading.requests.eq_of_length ((h.reading.stopped hstopped).trans hsent.length_eq)
    have hfinished : ∀ i, (s.dispatches i).map Prod.snd = s.finished i := fun i => by
      rw [h.ledger.order i, hmine i, List.append_nil]
    refine ⟨List.perm_iff_count.mpr fun κ => ?_, h.ring.flushed (Writer.settled_of_ended hend),
      fun i => ⟨?_, ?_⟩⟩
    · have hcount := h.ledger.count κ
      rw [hrequests, hclaimed, load_nil κ hmine, Session.current, hstopped] at hcount
      exact hcount.symm
    · refine (h.ledger.applied_in_order i).eq_of_length_le ?_
      rw [hfinished i, h.ledger.applied i, List.length_append]
      exact Nat.le_add_right ..
    · have hmap : ((s.dispatches i).map fun d => answerKey d.2) =
          ((s.dispatches i).map Prod.snd).map answerKey := by
        rw [List.map_map]
        rfl
      rw [hmap, hfinished i, ← h.ledger.answered i, hclaimed]

end Inv

/-- **Every request of a connection is answered once, and in order for each shard**, in every
interleaving of its reader and its writer with the workers and the other connections. -/
theorem session_served (cfg : Config) (assign : Nat → Fin n) (fb : Accessors) (clock : Time)
    (c : Nat) (frames : List (List UInt8)) (reqs : List Request) (hsent : Sent fb c frames reqs)
    (acts : List (ExchangeAct n m))
    (hfair : Trans.Along (step cfg assign fb c) (Fair c frames.flatten) (init n m clock) acts)
    {s : Exchange n m} (hs : Trans.exec (step cfg assign fb c) (init n m clock) acts = some s) :
    s.Served assign c reqs :=
  (inv_of_exec hsent hfair hs).served hsent

/-- A Release, a request for the TTL, and a Renew, of keys of one shard. -/
def plainFrames : List (List UInt8) :=
  [[68, 0, 0, 0, 24, 0, 0, 0, 0, 0, 0, 0, 0, 0, 14, 0, 44, 0, 36, 0, 35, 0, 0, 0, 0, 0, 4, 0, 14, 0, 0,
    0, 0, 0, 0, 0, 0, 0, 0, 0, 1, 0, 0, 0, 1, 0, 0, 0, 1, 0, 0, 0, 0, 0, 0, 0, 0, 0, 0, 0, 0, 0, 0, 3,
    1, 0, 0, 0, 0, 0, 0, 0],
    System.getTTLFrame 2,
    [68, 0, 0, 0, 16, 0, 0, 0, 12, 0, 52, 0, 44, 0, 43, 0, 0, 0, 4, 0, 12, 0, 0, 0, 2, 0, 0, 0, 0, 0,
      0, 0, 1, 0, 0, 0, 1, 0, 0, 0, 1, 0, 0, 0, 0, 0, 0, 0, 232, 3, 0, 0, 0, 0, 0, 0, 0, 0, 0, 0, 0,
      0, 0, 2, 3, 0, 0, 0, 0, 0, 0, 0]]

/-- The requests in `plainFrames`. -/
def plainRequests : List Request :=
  [.lease ⟨1, .release, 0, ⟨1, 1, 1⟩, 0, 0⟩, .getTTL 2, .lease ⟨3, .renew, 2, ⟨1, 1, 1⟩, 1000, 0⟩]

/-- The worker answers while the reader goes on, and the writer finds a slot that is not published. -/
def plainActs : List (ExchangeAct 2 1) :=
  [.sys (.accept 0), .sys (.server .activate), .sys (.receive 0 plainFrames.flatten),
    .sys (.hangup 0), .sys (.reader 0), .sys (.reader 0), .sys (.reader 0), .sys (.reader 0),
    .sys (.reader 0), .sys (.dequeue 0), .sys (.check 0), .sys (.server (.apply 0 0)),
    .sys (.server (.work 0 .fresh)), .sys (.reader 0), .sys (.reader 0), .sys (.reader 0),
    .sys (.respond 0), .starve, .sys (.reader 0), .publish none, .publish (some 0), .done 0,
    .sys (.reader 0), .sys (.reader 0), .sys (.reader 0), .sys (.reader 0), .sys (.reader 0),
    .sys (.reader 0), .sys (.writer 0 .recvDone), .sys (.writer 0 .ready),
    .sys (.writer 0 .written), .sys (.dequeue 0), .sys (.check 0), .sys (.server (.apply 0 0)),
    .sys (.server (.work 0 .fresh)), .sys (.respond 0), .publish (some 0), .done 0,
    .sys (.writer 0 .ready), .sys (.writer 0 .written), .sys (.writer 0 .ready),
    .sys (.writer 0 .written), .sys (.writer 0 .ready), .sys (.writer 0 .written),
    .sys (.writer 0 .ready), .sys (.writer 0 .responsesDone)]

theorem session_served_plainActs :
    ∃ s, Trans.exec (step tinyConfig (Fin.ofNat 2) goAccessors 0) (init 2 1 0) plainActs =
        some s ∧ s.Served (Fin.ofNat 2) 0 plainRequests ∧
      s.flushed = 3 ∧ (s.dispatches 0).map Prod.fst = [0, 2] ∧
      s.written.map (fun x => x.2.requestID) = [1, 2, 3] := by
  obtain ⟨s, hs, hfacts⟩ : ∃ s, Trans.exec (step tinyConfig (Fin.ofNat 2) goAccessors 0)
      (init 2 1 0) plainActs = some s ∧ s.flushed = 3 ∧
        (s.dispatches 0).map Prod.fst = [0, 2] ∧
        s.written.map (fun x => x.2.requestID) = [1, 2, 3] := by decide +kernel
  have hfair : Trans.Along (step tinyConfig (Fin.ofNat 2) goAccessors 0)
      (Fair 0 plainFrames.flatten) (init 2 1 0) plainActs := by decide +kernel
  have hsent : Sent goAccessors 0 plainFrames plainRequests := by
    refine ⟨fun f hf => ?_, by decide +kernel⟩
    simp only [plainFrames, List.mem_cons, List.not_mem_nil, or_false] at hf
    rcases hf with rfl | rfl | rfl <;> rfl
  exact ⟨s, hs, session_served tinyConfig (Fin.ofNat 2) goAccessors 0 0 plainFrames plainRequests
    hsent plainActs hfair hs, hfacts⟩

end Exchange

end RedLease.Server

import RedLease.Lib.Mutex
import RedLease.Server.Phases

/-!
# The end of a server

What `Close` leaves behind (`server/server.go`). It stores the phase, cancels the context, closes the
connections under `connectionMu`, waits for `connectionWG`, closes the channels `stop` and waits for
the rest. Nothing on the path of a request asks whether the server is closing, so each of these
steps relies on the one before:

* the listener checks the phase and registers a connection under `connectionMu`. When `Close` has
  the mutex, every connection that will ever be registered is registered;
* a session that runs is counted by `connectionWG`, and the reader of one that is over has stopped
  (`System.Quiet`). After `connectionWG.Wait()` nobody is left to dispatch;
* a worker returns when its queue is empty after `stop`, so the queue stays empty.

`Past k` says how far `Close` has come; it is never undone. **`ShutInv.after_step`** is the invariant
and **`ShutInv.drained`** what follows from it once a call of `Close` has returned.
-/

namespace RedLease.Server

open Lib LeaseShard

/-! ## Sessions that are over -/

/-- What a session keeps. -/
structure Session.Later (ss ss' : Session) : Prop where
  discarding : ss.over = true → ss'.over = true
  stopped : ss.reader = .stopped → ss'.reader = .stopped
  /-- `discardResponses` starts after the reader has stopped. -/
  joined : ss'.over = true → ss.over = true ∨ ss.reader = .stopped

theorem Session.Later.refl (ss : Session) : ss.Later ss := ⟨id, id, Or.inl⟩

theorem Session.Later.of_eq {ss ss' : Session} (hr : ss'.reader = ss.reader)
    (hw : ss'.writer = ss.writer) : ss.Later ss' := by
  have hover : ss'.over = ss.over := by
    unfold Session.over
    rw [hw]
  exact ⟨fun h => hover.trans h, fun h => hr.trans h, fun h => Or.inl (hover.symm.trans h)⟩

theorem WriterStep.later {phase : Phase} {ss ss' : Session} {choice : Choice}
    (h : WriterStep phase ss choice ss') : ss.Later ss' := by
  -- before `discardResponses` the writer only has to stay there
  have before : ∀ {ss' : Session}, ss'.reader = ss.reader → ss.over = false → ss'.over = false →
      ss.Later ss' := fun hr ho ho' =>
    ⟨fun h => absurd (ho ▸ h) nofun, fun h => hr.trans h, fun h => absurd (ho' ▸ h) nofun⟩
  cases h with
  | joined hw hr =>
    exact ⟨fun _ => rfl, fun h => h, fun _ => Or.inr hr⟩
  | discarded r rest hw hp hq =>
    exact ⟨fun _ => rfl, fun h => h, fun _ => Or.inl (by rw [Session.over, hw])⟩
  | done hw hp hq => exact ⟨fun _ => rfl, fun h => h, fun _ => Or.inl (by rw [Session.over, hw])⟩
  | popped r rest hw hq =>
    refine before rfl ?_ rfl
    rcases hw with hw | hw | ⟨hw, -⟩ <;> rw [Session.over, hw]
  | writeFailed hw hc =>
    refine before rfl ?_ rfl
    rcases hw with ⟨r, hw⟩ | hw <;> rw [Session.over, hw]
  | waiting hw hq | woken hw | eof hw hr | drained hw hr hp hq | broken err hw hr he
  | cancelled hw hc | unavailable r hw hp | rejected r hw he | buffered r hw hp he hc
  | flushing hw hq | flushed hw hc | closed hw => exact before rfl (by rw [Session.over, hw]) rfl

/-- A step of a session whose reader moves. -/
theorem Session.Later.of_reader {ss ss' : Session} (hr : ss.reader ≠ .stopped)
    (hw : ss'.writer = ss.writer) : ss.Later ss' := by
  have hover : ss'.over = ss.over := by
    unfold Session.over
    rw [hw]
  exact ⟨fun h => hover.trans h, fun h => absurd h hr, fun h => Or.inl (hover.symm.trans h)⟩

namespace System

variable {n m : Nat} {cfg : Config} {assign : Nat → Fin n} {fb : Accessors} {s s' : System n m}

/-- The sessions after a step: a new one, or a later state of one that was there. -/
theorem session_of_step {e : Event n m} (hs : step cfg assign fb s e = some s') {c : Nat}
    {ss' : Session} (hc' : s'.sessions c = some ss') :
    (e = .accept c ∧ ss' = .start) ∨ ∃ ss, s.sessions c = some ss ∧ ss.Later ss' := by
  have same : s.sessions c = some ss' → ∃ ss, s.sessions c = some ss ∧ ss.Later ss' := fun h =>
    ⟨ss', h, .refl ss'⟩
  have replaced : ∀ {c₀ : Nat} {ss₀ ss₁ : Session}, s.sessions c₀ = some ss₀ →
      Function.update s.sessions c₀ (some ss₁) c = some ss' → ss₀.Later ss₁ →
      ∃ ss, s.sessions c = some ss ∧ ss.Later ss' := by
    intro c₀ ss₀ ss₁ h₀ h hlater
    rcases Family.update_eq_some h with ⟨rfl, rfl⟩ | ⟨-, h⟩
    · exact ⟨ss₀, h₀, hlater⟩
    · exact same h
  cases step_cases hs with
  | threads a server he ha hstep | dequeued i op rest server he hq hstep | checked i op he hw hp =>
    exact Or.inr (same hc')
  | dropped i op he hw hp =>
    unfold donePending at hc'
    split at hc'
    · rename_i ss₀ hc₀
      exact Or.inr (replaced hc₀ hc' (.of_eq rfl rfl))
    · exact Or.inr (same hc')
  | responded i job r ss he hw hc hroom | unanswered i job r ss he hw hc hd =>
    exact Or.inr (replaced hc hc' (.of_eq rfl rfl))
  | session c₀ ss₀ server hstep hserver =>
    generalize hc₀ : s.sessions c₀ = o at hstep
    cases hstep with
    | accepted he hp =>
      rcases Family.update_eq_some hc' with ⟨rfl, rfl⟩ | ⟨-, h⟩
      · exact Or.inl ⟨he, rfl⟩
      · exact Or.inr (same h)
    | received ss bytes he | hungUp ss he | closed ss he =>
      exact Or.inr (replaced hc₀ hc' (.of_eq rfl rfl))
    | reader ss ss₁ he h =>
      exact Or.inr (replaced hc₀ hc' (.of_reader h.not_stopped h.writer_eq))
    | writer ss ss₁ choice he h => exact Or.inr (replaced hc₀ hc' h.later)
  | dispatched c₀ ss op he hc hr hroom | withdrawn c₀ ss op he hc hr hfull hd =>
    exact Or.inr (replaced hc hc' (.of_reader (by rw [hr]; nofun) rfl))

/-- The reader of a session that is over has stopped. -/
def Quiet (s : System n m) : Prop :=
  ∀ {c ss}, s.sessions c = some ss → ss.over = true → ss.reader = .stopped

end System

/-! ## How far `Close` has come -/

/-- The part of `Close` that a call is in. -/
def CloseCall.level : CloseCall → Nat
  | .idle | .entering | .returned => 0
  | .store => 1
  | .cancel | .lock => 2
  | .closing _ => 3
  | .waitConnections => 4
  | .stop _ | .waitAll => 5

namespace Life

variable {n m : Nat} {cfg : Config} {assign : Nat → Fin n} {fb : Accessors} {s s' : Life n m}

/-- A call of `Close` has come to part `k`, or `Close` is done. -/
def Past (s : Life n m) (k : Nat) : Prop := (∃ id, k ≤ (s.closes id).level) ∨ s.closeOnce = .done

theorem Past.mono {j k : Nat} (h : s.Past k) (hjk : j ≤ k) : s.Past j :=
  h.imp_left fun ⟨id, hid⟩ => ⟨id, hjk.trans hid⟩

/-- What a step does to the calls of `Close`. -/
inductive Closing (s s' : Life n m) : Prop
  | still (hc : s'.closes = s.closes) (ho : s'.closeOnce = s.closeOnce)
  | called (id : Nat) (hc : s'.closes = Function.update s.closes id .entering)
      (hid : s.closes id = .idle ∨ s.closes id = .returned) (ho : s'.closeOnce = s.closeOnce)
  | moved (id : Nat) (h : CloseStep s id s')

theorem closing {a : LifeAct n m} (hs : step cfg assign fb s a = some s') : Closing s s' := by
  cases step_cases hs with
  | callClose id hc => exact .called id rfl hc rfl
  | close id h => exact .moved id h
  | fail id h =>
    cases h with
    | closedConn c todo hc =>
      obtain ⟨sys, heq⟩ := s.closeConn_eq c
      rw [heq]
      exact .still rfl rfl
    | _ => exact .still rfl rfl
  | _ => exact .still rfl rfl

/-- A call of `Close` goes on, or `Close` is done with it. -/
theorem CloseStep.closes_eq {id : Nat} (h : CloseStep s id s') :
    ∃ call, s'.closes = Function.update s.closes id call ∧
      ((s.closes id).level ≤ call.level ∧ call ≠ .returned ∨ s'.closeOnce = .done) ∧
      (s'.closeOnce = .done → s.Past 5) ∧ (s.closeOnce = .done → s'.closeOnce = .done) := by
  -- a call that is not the last one to leave says nothing about `closeOnce`
  have keep : s.closeOnce = .done → s.closeOnce = .done := fun h => h
  cases h with
  | entered hc ho => exact ⟨.store, rfl, Or.inl ⟨by rw [hc]; decide, nofun⟩, nofun, by simp [ho]⟩
  | late hc ho => exact ⟨.returned, rfl, Or.inr ho, Or.inr, keep⟩
  | returned hc hexited =>
    exact ⟨.returned, rfl, Or.inr rfl, fun _ => Or.inl ⟨id, by rw [hc]; decide⟩, fun _ => rfl⟩
  | stored hc => exact ⟨.cancel, rfl, Or.inl ⟨by rw [hc]; decide, nofun⟩, Or.inr, keep⟩
  | cancelled hc => exact ⟨.lock, rfl, Or.inl ⟨by rw [hc]; decide, nofun⟩, Or.inr, keep⟩
  | locked hc hmu =>
    exact ⟨.closing _, rfl, Or.inl ⟨by rw [hc]; exact Nat.le_succ 2, nofun⟩, Or.inr, keep⟩
  | closedConn c todo hc =>
    obtain ⟨sys, heq⟩ := s.closeConn_eq c
    rw [heq]
    exact ⟨.closing todo, rfl, Or.inl ⟨by rw [hc]; exact le_rfl, nofun⟩, Or.inr, keep⟩
  | unlocked hc =>
    exact ⟨.waitConnections, rfl, Or.inl ⟨by rw [hc]; exact Nat.le_succ 3, nofun⟩, Or.inr, keep⟩
  | joined hc hwg => exact ⟨.stop 0, rfl, Or.inl ⟨by rw [hc]; decide, nofun⟩, Or.inr, keep⟩
  | stopped i hc =>
    exact ⟨.stop (i + 1), rfl, Or.inl ⟨by rw [hc]; exact le_rfl, nofun⟩, Or.inr, keep⟩
  | allStopped next hc =>
    exact ⟨.waitAll, rfl, Or.inl ⟨by rw [hc]; exact le_rfl, nofun⟩, Or.inr, keep⟩

/-- **What `Close` has done stays done.** -/
theorem Past.after_step {k : Nat} (h : s.Past k) {a : LifeAct n m}
    (hs : step cfg assign fb s a = some s') : s'.Past k := by
  cases closing hs with
  | still hc ho =>
    unfold Past
    rw [hc, ho]
    exact h
  | called id hc hid ho =>
    unfold Past
    rw [hc, ho]
    refine h.imp_left fun ⟨id', hk⟩ => ⟨id', ?_⟩
    by_cases heq : id' = id
    · have hzero : (s.closes id).level = 0 := by rcases hid with hid | hid <;> rw [hid] <;> rfl
      rw [heq, hzero] at hk
      omega
    · rw [Function.update_of_ne heq]
      exact hk
  | moved id hstep =>
    obtain ⟨call, hc, hup, -, hdone⟩ := hstep.closes_eq
    rcases h with ⟨id', hk⟩ | ho
    · by_cases heq : id' = id
      · subst heq
        refine hup.imp (fun ⟨hle, _⟩ => ⟨id', ?_⟩) fun ho => ho
        rw [hc, Function.update_self]
        exact hk.trans hle
      · refine Or.inl ⟨id', ?_⟩
        rw [hc, Function.update_of_ne heq]
        exact hk
    · exact Or.inr (hdone ho)

/-- `Close` comes to part `k` in the step of the call that does. -/
theorem Past.of_step {k : Nat} (hk : k ≤ 5) {a : LifeAct n m}
    (hs : step cfg assign fb s a = some s') (h : s'.Past k) :
    s.Past k ∨ ∃ id, CloseStep s id s' ∧ (s.closes id).level < k ∧ k ≤ (s'.closes id).level := by
  cases closing hs with
  | still hc ho =>
    unfold Past at h
    rw [hc, ho] at h
    exact Or.inl h
  | called id hc hid ho =>
    rcases h with ⟨id', hid'⟩ | hdone
    · by_cases heq : id' = id
      · rw [hc, heq, Function.update_self] at hid'
        exact Or.inl (Or.inl ⟨id, hid'.trans (Nat.zero_le _)⟩)
      · rw [hc, Function.update_of_ne heq] at hid'
        exact Or.inl (Or.inl ⟨id', hid'⟩)
    · exact Or.inl (Or.inr (ho.symm.trans hdone))
  | moved id hstep =>
    obtain ⟨call, hc, -, hdone, -⟩ := hstep.closes_eq
    rcases h with ⟨id', hid'⟩ | ho
    · by_cases heq : id' = id
      · subst heq
        rcases Nat.lt_or_ge (s.closes id').level k with hlt | hge
        · exact Or.inr ⟨id', hstep, hlt, hid'⟩
        · exact Or.inl (Or.inl ⟨id', hge⟩)
      · rw [hc, Function.update_of_ne heq] at hid'
        exact Or.inl (Or.inl ⟨id', hid'⟩)
    · exact Or.inl ((hdone ho).mono hk)

/-! ## `connectionMu` -/

/-- Who is in a section under `connectionMu`. -/
def inside (s : Life n m) : Holder → Prop
  | .listener => ∃ c, s.listener = .registering c
  | .fail id => ∃ todo, s.fails id = .closing todo
  | .close id => ∃ todo, s.closes id = .closing todo

theorem inside_setFail {id : Nat} {call : FailCall} (hcall : ∀ todo, call ≠ .closing todo)
    {x : Holder} (hx : (s.setFail id call).inside x) : s.inside x ∧ x ≠ .fail id := by
  cases x with
  | listener | close id' => exact ⟨hx, nofun⟩
  | fail id' =>
    obtain ⟨todo, htodo⟩ := hx
    have hupdate : Function.update s.fails id call id' = .closing todo := htodo
    by_cases heq : id' = id
    · rw [heq, Function.update_self] at hupdate
      exact absurd hupdate (hcall todo)
    · rw [Function.update_of_ne heq] at hupdate
      exact ⟨⟨todo, hupdate⟩, fun h => heq (Holder.fail.inj h)⟩

theorem inside_setClose {id : Nat} {call : CloseCall} (hcall : ∀ todo, call ≠ .closing todo)
    {x : Holder} (hx : (s.setClose id call).inside x) : s.inside x ∧ x ≠ .close id := by
  cases x with
  | listener | fail id' => exact ⟨hx, nofun⟩
  | close id' =>
    obtain ⟨todo, htodo⟩ := hx
    have hupdate : Function.update s.closes id call id' = .closing todo := htodo
    by_cases heq : id' = id
    · rw [heq, Function.update_self] at hupdate
      exact absurd hupdate (hcall todo)
    · rw [Function.update_of_ne heq] at hupdate
      exact ⟨⟨todo, hupdate⟩, fun h => heq (Holder.close.inj h)⟩

/-- A call that enters `closeConnections` or goes on in it. -/
theorem inside_closing {id : Nat} {todo : List Nat} {x : Holder}
    (hx : (s.setClose id (.closing todo)).inside x) : s.inside x ∨ x = .close id := by
  cases x with
  | listener => exact Or.inl hx
  | fail id' => exact Or.inl hx
  | close id' =>
    obtain ⟨todo', htodo⟩ := hx
    have hupdate : Function.update s.closes id (.closing todo) id' = .closing todo' := htodo
    by_cases heq : id' = id
    · exact Or.inr (congrArg _ heq)
    · rw [Function.update_of_ne heq] at hupdate
      exact Or.inl ⟨todo', hupdate⟩

theorem inside_failing {id : Nat} {todo : List Nat} {x : Holder}
    (hx : (s.setFail id (.closing todo)).inside x) : s.inside x ∨ x = .fail id := by
  cases x with
  | listener => exact Or.inl hx
  | close id' => exact Or.inl hx
  | fail id' =>
    obtain ⟨todo', htodo⟩ := hx
    have hupdate : Function.update s.fails id (.closing todo) id' = .closing todo' := htodo
    by_cases heq : id' = id
    · exact Or.inr (congrArg _ heq)
    · rw [Function.update_of_ne heq] at hupdate
      exact Or.inl ⟨todo', hupdate⟩

/-- `connectionMu` does its work. -/
def Exclusive (s : Life n m) : Prop := Mutex.Exclusive s.connectionMu s.inside

theorem Exclusive.fail_step (h : s.Exclusive) {id : Nat} (hs : FailStep s id s') :
    s'.Exclusive := by
  cases hs with
  | locked hc hmu =>
    unfold Exclusive at h
    rw [hmu] at h
    exact h.lock fun x hx => inside_failing hx
  | closedConn c todo hc =>
    obtain ⟨sys, heq⟩ := s.closeConn_eq c
    rw [heq]
    refine h.mono fun x hx => (inside_failing hx).elim (fun h => h) ?_
    rintro rfl
    exact ⟨_, hc⟩
  | unlocked hc =>
    have hin : s.inside (.fail id) := ⟨_, hc⟩
    exact h.unlock hin fun x hx => inside_setFail (by nofun) hx
  | _ => exact h.mono fun x hx => (inside_setFail (by nofun) hx).1

theorem Exclusive.close_step (h : s.Exclusive) {id : Nat} (hs : CloseStep s id s') :
    s'.Exclusive := by
  cases hs with
  | locked hc hmu =>
    unfold Exclusive at h
    rw [hmu] at h
    exact h.lock fun x hx => inside_closing hx
  | closedConn c todo hc =>
    obtain ⟨sys, heq⟩ := s.closeConn_eq c
    rw [heq]
    refine h.mono fun x hx => (inside_closing hx).elim (fun h => h) ?_
    rintro rfl
    exact ⟨_, hc⟩
  | unlocked hc =>
    have hin : s.inside (.close id) := ⟨_, hc⟩
    exact h.unlock hin fun x hx => inside_setClose (by nofun) hx
  | _ => exact h.mono fun x hx => (inside_setClose (by nofun) hx).1

theorem Exclusive.after_step (h : s.Exclusive) {a : LifeAct n m}
    (hs : step cfg assign fb s a = some s') : s'.Exclusive := by
  -- the listener goes to a place outside
  have away : ∀ {l : Listener} {next : Nat}, (∀ c, l ≠ .registering c) →
      Mutex.Exclusive s.connectionMu { s with listener := l, nextConn := next }.inside := by
    intro l next hl
    refine h.mono fun x hx => ?_
    cases x with
    | listener => exact hx.elim fun c hc => absurd hc (hl c)
    | fail id => exact hx
    | close id => exact hx
  cases step_cases hs with
  | fail id hf => exact h.fail_step hf
  | close id hc => exact h.close_step hc
  | callFail id hc => exact h.mono fun x hx => (inside_setFail (by nofun) hx).1
  | callClose id hc => exact h.mono fun x hx => (inside_setClose (by nofun) hx).1
  | accepted hl | turnedAway c hl hp | acceptError hl => exact away (by nofun)
  | checked c hl hmu hp =>
    unfold Exclusive at h
    rw [hmu] at h
    refine h.lock fun x hx => ?_
    cases x with
    | listener => exact Or.inr rfl
    | fail id | close id => exact Or.inl hx
  | registered c hl =>
    refine h.unlock (x := .listener) ⟨c, hl⟩ fun x hx => ?_
    cases x with
    | listener => exact hx.elim nofun
    | fail id | close id => exact ⟨hx, nofun⟩
  | _ => exact h

/-! ## What a step does to what `Close` waits for -/

theorem registering_of_step {a : LifeAct n m} (hs : step cfg assign fb s a = some s') {c : Nat}
    (hl : s'.listener = .registering c) :
    s.listener = .registering c ∨ s.phase.unavailable = false := by
  cases step_cases hs with
  | checked c' hl' hmu hp => exact Or.inr hp
  | accepted hl' | turnedAway c' hl' hp | registered c' hl' | acceptError hl' => cases hl
  | fail id h | close id h =>
    cases h with
    | closedConn c' todo hc =>
      obtain ⟨sys, heq⟩ := s.closeConn_eq c'
      rw [heq] at hl
      exact Or.inl hl
    | _ => exact Or.inl hl
  | _ => exact Or.inl hl

/-- What a step does to `connectionWG`. -/
inductive Count (s s' : Life n m) : Prop
  | still (h : s'.connectionWG = s.connectionWG)
  | added (c : Nat) (hl : s.listener = .registering c) (h : s'.connectionWG = c :: s.connectionWG)
  | removed (c : Nat) (h : s'.connectionWG = s.connectionWG.erase c)
      (hc : ∀ ss, s'.sys.sessions c = some ss → ss.over = true)

theorem count_of_step {a : LifeAct n m} (hs : step cfg assign fb s a = some s') : Count s s' := by
  cases step_cases hs with
  | registered c hl => exact .added c hl rfl
  | refused c hc hss => exact .removed c rfl fun ss hss' => nomatch hss.symm.trans hss'
  | ended c ss hss hover =>
    exact .removed c rfl fun ss' hss' => Option.some.inj (hss.symm.trans hss') ▸ hover
  | fail id h | close id h =>
    cases h with
    | closedConn c todo hc =>
      obtain ⟨sys, heq⟩ := s.closeConn_eq c
      rw [heq]
      exact .still rfl
    | _ => exact .still rfl
  | _ => exact .still rfl

/-- What a step does to the workers: `stop` is closed, or a worker returns. -/
inductive Halt (s s' : Life n m) : Prop
  | still (hstop : s'.stop = s.stop) (he : s'.exited = s.exited)
  | stopped (i : Fin n) (hpast : s.Past 5) (hstop : s'.stop = Function.update s.stop i true)
      (he : s'.exited = s.exited)
  | exited (i : Fin n) (hi : s.stop i = true) (hsys : s'.sys = s.sys) (hq : s.sys.inShard i = [])
      (hstop : s'.stop = s.stop) (he : s'.exited = Function.update s.exited i true)

theorem halt_of_step {a : LifeAct n m} (hs : step cfg assign fb s a = some s') : Halt s s' := by
  cases step_cases hs with
  | exited i hstop hw hq =>
    refine .exited i hstop rfl ?_ rfl rfl
    rw [System.inShard, hw, hq]
    rfl
  | fail id h =>
    cases h with
    | closedConn c todo hc =>
      obtain ⟨sys, heq⟩ := s.closeConn_eq c
      rw [heq]
      exact .still rfl rfl
    | _ => exact .still rfl rfl
  | close id h =>
    cases h with
    | stopped i hc => exact .stopped i (Or.inl ⟨id, by rw [hc]; exact le_rfl⟩) rfl rfl
    | closedConn c todo hc =>
      obtain ⟨sys, heq⟩ := s.closeConn_eq c
      rw [heq]
      exact .still rfl rfl
    | _ => exact .still rfl rfl
  | _ => exact .still rfl rfl

theorem Halt.exited_mono (h : Halt s s') {i : Fin n} (hi : s.exited i = true) :
    s'.exited i = true := by
  cases h with
  | still hstop he | stopped j hpast hstop he => rw [he]; exact hi
  | exited j hj hsys hq hstop he =>
    rw [he]
    by_cases hij : i = j
    · rw [hij, Function.update_self]
    · rw [Function.update_of_ne hij]
      exact hi

theorem Halt.stop_mono (h : Halt s s') {i : Fin n} (hi : s.stop i = true) : s'.stop i = true := by
  cases h with
  | still hstop he | exited j hj hsys hq hstop he => rw [hstop]; exact hi
  | stopped j hpast hstop he =>
    rw [hstop]
    by_cases hij : i = j
    · rw [hij, Function.update_self]
    · rw [Function.update_of_ne hij]
      exact hi

theorem done_of_step {a : LifeAct n m} (hs : step cfg assign fb s a = some s')
    (hd : s.closeOnce = .done) : s'.closeOnce = .done := by
  cases closing hs with
  | still hc ho | called id hc hid ho => exact ho.trans hd
  | moved id hstep =>
    obtain ⟨call, -, -, -, hdone⟩ := hstep.closes_eq
    exact hdone hd

theorem returned_of_step {a : LifeAct n m} (hs : step cfg assign fb s a = some s') {id : Nat}
    (hid : s'.closes id = .returned) : s.closes id = .returned ∨ s'.closeOnce = .done := by
  cases closing hs with
  | still hc ho => exact Or.inl (hc ▸ hid)
  | called id' hc hid' ho =>
    rw [hc] at hid
    by_cases heq : id = id'
    · rw [heq, Function.update_self] at hid
      cases hid
    · rw [Function.update_of_ne heq] at hid
      exact Or.inl hid
  | moved id' hstep =>
    obtain ⟨call, hc, hup, -⟩ := hstep.closes_eq
    by_cases heq : id = id'
    · subst heq
      rw [hc, Function.update_self] at hid
      exact Or.inr (hup.resolve_left fun h => h.2 hid)
    · rw [hc, Function.update_of_ne heq] at hid
      exact Or.inl hid

theorem closeConn_session {c₀ c : Nat} {ss' : Session}
    (hc' : (s.closeConn c₀).sys.sessions c = some ss') :
    ∃ ss, s.sys.sessions c = some ss ∧ ss.Later ss' := by
  unfold closeConn at hc'
  split at hc'
  · rename_i ss₀ hss₀
    rcases Family.update_eq_some hc' with ⟨rfl, rfl⟩ | ⟨-, h⟩
    · exact ⟨ss₀, hss₀, .of_eq rfl rfl⟩
    · exact ⟨ss', h, .refl ss'⟩
  · exact ⟨ss', hc', .refl ss'⟩

/-- The sessions after a step: a new one that `connectionWG` counts, or a later state of one. -/
theorem session_of_step {a : LifeAct n m} (hs : step cfg assign fb s a = some s') {c : Nat}
    {ss' : Session} (hc' : s'.sys.sessions c = some ss') :
    (c ∈ s'.connectionWG ∧ s.phase.unavailable = false ∧ ss' = .start) ∨
      ∃ ss, s.sys.sessions c = some ss ∧ ss.Later ss' := by
  cases step_cases hs with
  | worked e sys hm hsys =>
    rcases System.session_of_step hsys hc' with ⟨rfl, -⟩ | hlater
    · cases hm
    · exact Or.inr hlater
  | ran c₀ hc hss hp =>
    rcases Family.update_eq_some hc' with ⟨rfl, rfl⟩ | ⟨-, h⟩
    · exact Or.inl ⟨hc, hp, rfl⟩
    · exact Or.inr ⟨ss', h, .refl ss'⟩
  | fail id h | close id h =>
    cases h with
    | closedConn c₀ todo hc => exact Or.inr (closeConn_session hc')
    | _ => exact Or.inr ⟨ss', hc', .refl ss'⟩
  | _ => exact Or.inr ⟨ss', hc', .refl ss'⟩

/-- The operations of a shard after a step. -/
theorem flow_of_step (hf : s.FailInv) {a : LifeAct n m} (hs : step cfg assign fb s a = some s')
    (i : Fin n) : ∃ d f : Option Operation,
      s'.accepted i = s.accepted i ++ d.toList ∧ s'.finished i = s.finished i ++ f.toList ∧
      s.sys.inShard i ++ d.toList = f.toList ++ s'.sys.inShard i ∧
      (d ≠ none → ∃ c ss op, s.sys.sessions c = some ss ∧ ss.reader = .dispatch op) := by
  have still : SameNotes s s' → s'.sys.inShard i = s.sys.inShard i → ∃ d f : Option Operation,
      s'.accepted i = s.accepted i ++ d.toList ∧ s'.finished i = s.finished i ++ f.toList ∧
      s.sys.inShard i ++ d.toList = f.toList ++ s'.sys.inShard i ∧
      (d ≠ none → ∃ c ss op, s.sys.sessions c = some ss ∧ ss.reader = .dispatch op) := by
    intro hnotes hshard
    refine ⟨none, none, ?_, ?_, ?_, fun h => absurd rfl h⟩
    · rw [hnotes.accepted, Option.toList_none, List.append_nil]
    · rw [hnotes.finished, Option.toList_none, List.append_nil]
    · rw [hshard, Option.toList_none, List.append_nil, List.nil_append]
  cases sysStep hf.swap hs with
  | worked e sys ha hm hsys h =>
    subst h
    refine ⟨s.sys.dispatched assign e i, s.sys.finished e i, rfl, rfl, System.flow hsys i, ?_⟩
    intro hd
    by_contra hnone
    push Not at hnone
    exact hd (System.dispatched_eq_none s.sys e (fun c ss op hc hr => hnone c ss op hc hr) i)
  | phase p hp hsys hphases hnotes hq | session c ss hss hsys hphases hnotes hq =>
    exact still hnotes (by rw [hsys]; rfl)
  | same hsys hphases hnotes hq => exact still hnotes (by rw [hsys])

theorem pending_of_step (hf : s.FailInv) {a : LifeAct n m}
    (hs : step cfg assign fb s a = some s') (h : s.sys.Pending) : s'.sys.Pending := by
  cases sysStep hf.swap hs with
  | worked e sys ha hm hsys heq =>
    subst heq
    have hp := h.after_step hsys
    exact ⟨hp.own, hp.count⟩
  | phase p hp hsys hphases hnotes hq =>
    rw [hsys]
    exact ⟨h.own, h.count⟩
  | same hsys hphases hnotes hq =>
    rw [hsys]
    exact h
  | session c ss hss hsys hphases hnotes hq =>
    rw [hsys]
    rcases hss with ⟨hnone, rfl⟩ | ⟨ss₀, hsome, rfl⟩
    · refine h.setSession ?_ fun op hop => hop.elim nofun nofun
      rw [hnone]
      rfl
    · refine h.setSession ?_ fun op hop => h.own hsome hop
      rw [hsome]
      exact Nat.add_comm ..

/-! ## The invariant -/

/-- Where the shutdown stands. -/
structure ShutInv (s : Life n m) : Prop where
  fail : s.FailInv
  exclusive : s.Exclusive
  closed : s.Past 2 → s.phase = .closed
  /-- Every connection that the listener let through is registered. -/
  registered : s.Past 3 → ∀ c, s.listener ≠ .registering c
  joined : s.Past 5 → s.connectionWG = []
  stop : ∀ {i}, s.stop i = true → s.Past 5
  exited : ∀ {i}, s.exited i = true → s.stop i = true ∧ s.sys.inShard i = []
  done : s.closeOnce = .done → ∀ i, s.exited i = true
  returned : ∀ {id}, s.closes id = .returned → s.closeOnce = .done
  /-- A session that runs is counted. -/
  counted : ∀ {c ss}, s.sys.sessions c = some ss → ss.over = false → c ∈ s.connectionWG
  quiet : s.sys.Quiet
  pending : s.sys.Pending
  ledger : ∀ i, s.accepted i = s.finished i ++ s.sys.inShard i

theorem shutInv_init (clock : Time) : (init n m clock).ShutInv where
  fail := failInv_init clock
  exclusive := by
    intro x hx
    cases x with
    | listener | fail id | close id => exact hx.elim nofun
  closed := by
    rintro (⟨id, hid⟩ | hd)
    · cases hid
    · cases hd
  registered _ _ := nofun
  joined _ := rfl
  stop := nofun
  exited := nofun
  done := nofun
  returned := nofun
  counted := nofun
  quiet := nofun
  pending := System.pending_init clock
  ledger _ := rfl

/-- After `connectionWG.Wait()` nobody is left to dispatch. -/
theorem ShutInv.no_dispatch (h : s.ShutInv) (hpast : s.Past 5) {c : Nat} {ss : Session}
    {op : Operation} (hc : s.sys.sessions c = some ss) : ss.reader ≠ .dispatch op := by
  have hover : ss.over = true := by
    by_contra hnot
    have hmem := h.counted hc (Bool.not_eq_true _ ▸ hnot)
    rw [h.joined hpast] at hmem
    cases hmem
  rw [h.quiet hc hover]
  nofun

theorem ShutInv.closed_step (h : s.ShutInv) {a : LifeAct n m}
    (hs : step cfg assign fb s a = some s') (hpast : s'.Past 2) : s'.phase = .closed := by
  rcases Past.of_step (by decide) hs hpast with hbefore | ⟨id, hstep, hlt, hge⟩
  · exact closed_of_rank (h.closed hbefore ▸ (sysStep h.fail.swap hs).rank_le)
  · cases hstep with
    | stored hc => rfl
    | entered hc ho | late hc ho => simp [setClose, CloseCall.level] at hge
    | _ => simp_all [CloseCall.level]

/-- The listener registers no connection once `Close` has had `connectionMu`. -/
theorem ShutInv.registered_step (h : s.ShutInv) {a : LifeAct n m}
    (hs : step cfg assign fb s a = some s') (hpast : s'.Past 3) (c : Nat) :
    s'.listener ≠ .registering c := by
  intro hl
  rcases Past.of_step (by decide) hs hpast with hbefore | ⟨id, hstep, hlt, hge⟩
  · rcases registering_of_step hs hl with hl' | hp
    · exact h.registered hbefore c hl'
    · rw [h.closed (hbefore.mono (by decide))] at hp
      cases hp
  · cases hstep with
    | locked hc hmu =>
      have hfree := h.exclusive
      unfold Exclusive at hfree
      rw [hmu] at hfree
      have hin : s.inside .listener := ⟨c, hl⟩
      exact hfree.free hin
    | entered hc ho | late hc ho | stored hc | cancelled hc =>
      simp [setClose, CloseCall.level] at hge
    | _ => simp_all [CloseCall.level]

theorem ShutInv.joined_step (h : s.ShutInv) {a : LifeAct n m}
    (hs : step cfg assign fb s a = some s') (hpast : s'.Past 5) : s'.connectionWG = [] := by
  rcases Past.of_step (by decide) hs hpast with hbefore | ⟨id, hstep, hlt, hge⟩
  · have hempty := h.joined hbefore
    cases count_of_step hs with
    | still hwg => rw [hwg, hempty]
    | added c hl hwg => exact absurd hl (h.registered (hbefore.mono (by decide)) c)
    | removed c hwg hc => rw [hwg, hempty, List.erase_nil]
  · cases hstep with
    | joined hc hwg => exact hwg
    | stopped i hc | allStopped next hc | returned hc hexited =>
      rw [hc] at hlt; cases Nat.lt_irrefl _ hlt
    | closedConn c todo hc =>
      obtain ⟨sys, heq⟩ := s.closeConn_eq c
      rw [heq] at hge
      simp [setClose, CloseCall.level] at hge
    | _ => simp [setClose, CloseCall.level] at hge

theorem ShutInv.stop_step (h : s.ShutInv) {a : LifeAct n m}
    (hs : step cfg assign fb s a = some s') {i : Fin n} (hi : s'.stop i = true) : s'.Past 5 := by
  refine Past.after_step ?_ hs
  cases halt_of_step hs with
  | still hstop he => exact h.stop (hstop ▸ hi)
  | stopped j hpast hstop he => exact hpast
  | exited j hj hsys hq hstop he => exact h.stop (hstop ▸ hi)

/-- The queue of a worker that has returned stays empty. -/
theorem ShutInv.exited_step (h : s.ShutInv) {a : LifeAct n m}
    (hs : step cfg assign fb s a = some s') {i : Fin n} (hi : s'.exited i = true) :
    s'.stop i = true ∧ s'.sys.inShard i = [] := by
  have hold : s.exited i = true → s'.stop i = true ∧ s'.sys.inShard i = [] := by
    intro hi
    obtain ⟨hstop, hempty⟩ := h.exited hi
    refine ⟨(halt_of_step hs).stop_mono hstop, ?_⟩
    obtain ⟨d, f, -, -, hflow, hd⟩ := flow_of_step h.fail hs i
    have hnone : d = none := by
      by_contra hne
      obtain ⟨c, ss, op, hc, hr⟩ := hd hne
      exact h.no_dispatch (h.stop hstop) hc hr
    rw [hempty, hnone] at hflow
    exact (List.append_eq_nil_iff.mp hflow.symm).2
  cases halt_of_step hs with
  | still hstop he | stopped j hpast hstop he => exact hold (he ▸ hi)
  | exited j hj hsys hq hstop he =>
    by_cases hij : i = j
    · subst hij
      rw [hstop, hsys]
      exact ⟨hj, hq⟩
    · rw [he, Function.update_of_ne hij] at hi
      exact hold hi

theorem ShutInv.done_step (h : s.ShutInv) {a : LifeAct n m}
    (hs : step cfg assign fb s a = some s') (hd : s'.closeOnce = .done) (i : Fin n) :
    s'.exited i = true := by
  cases closing hs with
  | still hc ho | called id hc hid ho => exact (halt_of_step hs).exited_mono (h.done (ho ▸ hd) i)
  | moved id hstep =>
    refine (halt_of_step hs).exited_mono ?_
    cases hstep with
    | entered hc ho => cases hd
    | returned hc hexited => exact hexited i
    | closedConn c todo hc =>
      obtain ⟨sys, heq⟩ := s.closeConn_eq c
      rw [heq] at hd
      exact h.done hd i
    | _ => exact h.done hd i

theorem ShutInv.counted_step (h : s.ShutInv) {a : LifeAct n m}
    (hs : step cfg assign fb s a = some s') {c : Nat} {ss' : Session}
    (hc : s'.sys.sessions c = some ss') (hover : ss'.over = false) : c ∈ s'.connectionWG := by
  rcases session_of_step hs hc with ⟨hmem, -⟩ | ⟨ss, hss, hlater⟩
  · exact hmem
  · have hmem : c ∈ s.connectionWG := by
      refine h.counted hss ?_
      by_contra hnot
      have hover' := hlater.discarding (Bool.not_eq_false _ ▸ hnot)
      rw [hover] at hover'
      cases hover'
    cases count_of_step hs with
    | still hwg => rw [hwg]; exact hmem
    | added c' hl hwg => rw [hwg]; exact List.mem_cons_of_mem _ hmem
    | removed c' hwg hc' =>
      rw [hwg]
      refine (List.mem_erase_of_ne fun heq => ?_).mpr hmem
      subst heq
      rw [hc' ss' hc] at hover
      cases hover

/-- **Every step keeps where the shutdown stands.** -/
theorem ShutInv.after_step (h : s.ShutInv) {a : LifeAct n m}
    (hs : step cfg assign fb s a = some s') : s'.ShutInv where
  fail := h.fail.after_step hs
  exclusive := h.exclusive.after_step hs
  closed := h.closed_step hs
  registered := h.registered_step hs
  joined := h.joined_step hs
  stop := h.stop_step hs
  exited := h.exited_step hs
  done := h.done_step hs
  returned hid := by
    rcases returned_of_step hs hid with hbefore | hd
    · exact done_of_step hs (h.returned hbefore)
    · exact hd
  counted := h.counted_step hs
  quiet := by
    intro c ss' hc hover
    rcases session_of_step hs hc with ⟨-, -, rfl⟩ | ⟨ss, hss, hlater⟩
    · cases hover
    · exact hlater.stopped ((hlater.joined hover).elim (h.quiet hss) fun hr => hr)
  pending := pending_of_step h.fail hs h.pending
  ledger i := by
    obtain ⟨d, f, hacc, hfin, hflow, -⟩ := flow_of_step h.fail hs i
    rw [hacc, hfin, h.ledger i, List.append_assoc, hflow, List.append_assoc]

theorem shutInv_of_exec {clock : Time} {acts : List (LifeAct n m)}
    (h : Trans.exec (step cfg assign fb) (init n m clock) acts = some s) : s.ShutInv :=
  Trans.exec_invariant (fun hi hs => hi.after_step hs) (shutInv_init clock) h

/-! ## After `Close` -/

/-- Nothing is left in the shards, and nothing more can get there. -/
structure Drained (cfg : Config) (assign : Nat → Fin n) (fb : Accessors) (s : Life n m) : Prop where
  /-- The workers are done with every operation that was dispatched. -/
  finished : ∀ i, s.finished i = s.accepted i
  queues : ∀ i, s.sys.queues i = []
  pending : ∀ c ss, s.sys.sessions c = some ss → ss.pending = 0
  later : ∀ acts s', Trans.exec (step cfg assign fb) s acts = some s' →
    s'.accepted = s.accepted ∧ ∀ i, s'.sys.queues i = []

theorem ShutInv.inShard_nil (h : s.ShutInv) (hd : s.closeOnce = .done) (i : Fin n) :
    s.sys.inShard i = [] :=
  (h.exited (h.done hd i)).2

theorem ShutInv.pending_zero (h : s.ShutInv) (hd : s.closeOnce = .done) {c : Nat} {ss : Session}
    (hc : s.sys.sessions c = some ss) : ss.pending = 0 := by
  have hcount := h.pending.count c
  have hflight : s.sys.inFlight c = 0 := by
    unfold System.inFlight
    refine Finset.sum_eq_zero fun i _ => ?_
    rw [h.inShard_nil hd i, List.countP_nil]
  have hheld : ss.held = 0 := by
    unfold Session.held
    split
    · rename_i op hr
      exact absurd hr (h.no_dispatch (Or.inr hd) hc)
    · rfl
  rw [System.ofSession_some hc, System.ofSession_some hc, hheld, hflight] at hcount
  exact hcount

/-- Nothing is dispatched once `Close` is done. -/
theorem ShutInv.accepted_step (h : s.ShutInv) (hd : s.closeOnce = .done) {a : LifeAct n m}
    (hs : step cfg assign fb s a = some s') : s'.accepted = s.accepted := by
  funext i
  obtain ⟨d, f, hacc, -, -, hdispatch⟩ := flow_of_step h.fail hs i
  have hnone : d = none := by
    by_contra hne
    obtain ⟨c, ss, op, hc, hr⟩ := hdispatch hne
    exact h.no_dispatch (Or.inr hd) hc hr
  rw [hacc, hnone, Option.toList_none, List.append_nil]

/-- **`Close` drains the server.** -/
theorem ShutInv.drained (h : s.ShutInv) (hd : s.closeOnce = .done) : s.Drained cfg assign fb where
  finished i := by rw [h.ledger i, h.inShard_nil hd i, List.append_nil]
  queues i := (List.append_eq_nil_iff.mp (h.inShard_nil hd i)).2
  pending _ _ hc := h.pending_zero hd hc
  later acts s' hrun := by
    obtain ⟨hi, hd', hacc⟩ := Trans.exec_invariant
      (I := fun t => t.ShutInv ∧ t.closeOnce = .done ∧ t.accepted = s.accepted)
      (fun ⟨hi, hd, hacc⟩ hs =>
        ⟨hi.after_step hs, done_of_step hs hd, (hi.accepted_step hd hs).trans hacc⟩)
      ⟨h, hd, rfl⟩ hrun
    exact ⟨hacc, fun i => (List.append_eq_nil_iff.mp (hi.inShard_nil hd' i)).2⟩

end Life

end RedLease.Server

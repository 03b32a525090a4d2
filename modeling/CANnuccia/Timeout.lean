import CANnuccia.Moves

/-!
# The bootloader's timeout

The timer is started once, before the loop. From then on it runs, with `main`
still waiting in IDLE, until its interrupt is dispatched or a PROG_REQ stops it;
after that it stays quiet.
-/
namespace CANnuccia.Pump

open Util CanMsgs
open Mealy (Machine Transition Run outputs Happened Before)

variable {B : Backend} {devId : U8} {tr : List (Trans B)} {d d' : Dev B} {i : Input}
variable {outs : List Event}

/-- The interrupt can no longer come. -/
structure Over (tr : List (Trans B)) (d : Dev B) : Prop where
  quiet : B.oneShot.Quiet d.timer
  started : d.pc ≠ .timerStart
  retired : .cnTimerStop ∈ outputs tr ∨ .onTimeout ∈ outputs tr

/-- Where `main` can be, and in which state, while the timer still runs. -/
def Running : Pc → State → Prop
  | .timerStart, _ | .progReqLocked, _ | .progReqResp, _ => False
  | .unlockIsLocked, _ | .unlockCall, _ | .unlockSet, _ | .unlockReply, _ | .commitWrites, _ => False
  | .flashLock, s | .jump, s => s = .done
  | .loopTest, s => s = .idle ∨ s = .done
  | _, s => s = .idle

theorem Running.started {pc : Pc} {s : State} (h : Running pc s) : pc ≠ .timerStart := by
  rintro rfl
  exact h

inductive TimerPhase (tr : List (Trans B)) (d : Dev B) : Prop where
  | before : d.pc = .timerStart → d.state = .idle → d.timer = B.timer.reset → TimerPhase tr d
  | running : B.oneShot.Armed d.timer → Running d.pc d.state → TimerPhase tr d
  | ended : Over tr d → TimerPhase tr d

theorem running_dispatch (m : Msg) {s : State} (h : s = .idle) : Running (dispatch m) s := by
  have he := dispatch_entry m
  generalize dispatch m = pc at *
  cases pc <;> simp_all [Pc.entry, Running]

/-- `main` touches a started timer only to stop it. -/
theorem callTimer_cases {pc : Pc} {t t' : B.timer.Timer} (hpc : pc ≠ .timerStart)
    (h : callTimer pc t = some t') :
    (pc = .progReqStop ∧ t' = B.timer.cnTimerStop t) ∨ (pc ≠ .progReqStop ∧ t' = t) := by
  unfold callTimer at h
  split at h
  · contradiction
  · exact .inl ⟨rfl, (Option.some.inj h).symm⟩
  · exact .inr ⟨by assumption, (Option.some.inj h).symm⟩

/-- A quiet timer stays quiet and no interrupt comes. -/
theorem Over.moved (ho : Over tr d) (h : Moved devId d i d' outs) :
    Over (tr ++ [⟨d, i, outs, d'⟩]) d' ∧ i ≠ .irq := by
  have hret : Event.cnTimerStop ∈ outputs (tr ++ [⟨d, i, outs, d'⟩]) ∨
      Event.onTimeout ∈ outputs (tr ++ [⟨d, i, outs, d'⟩]) := by
    rw [Mealy.outputs_append, List.mem_append, List.mem_append]
    exact ho.retired.imp .inl .inl
  cases h with
  | main hm ht =>
    rcases callTimer_cases ho.started ht with ⟨_, rfl⟩ | ⟨_, rfl⟩
    · exact ⟨⟨B.oneShot.stop_quiet _, move_started hm, hret⟩, by simp⟩
    · exact ⟨⟨ho.quiet, move_started hm, hret⟩, by simp⟩
  | silence hpc => exact ⟨⟨ho.quiet, by simp, hret⟩, by simp⟩
  | receive m hpc =>
    have hentry : dispatch m ≠ .timerStart := by
      intro he
      have := dispatch_entry m
      rw [he] at this
      cases this
    exact ⟨⟨ho.quiet, hentry, hret⟩, by simp⟩
  | expire ht => exact ⟨⟨B.oneShot.quiet_expire ho.quiet ht, ho.started, hret⟩, by simp⟩
  | timeout ht | spurious ht =>
    rw [B.oneShot.quiet_irq ho.quiet] at ht
    cases ht

/-- The one interrupt ends the timer's run. -/
theorem TimerPhase.irq_over (hp : TimerPhase tr d) (h : Moved devId d .irq d' outs) :
    Over (tr ++ [⟨d, .irq, outs, d'⟩]) d' := by
  cases hp with
  | before _ _ hreset =>
    cases h with
    | timeout ht | spurious ht =>
      rw [hreset, B.oneShot.quiet_irq B.oneShot.reset_quiet] at ht
      cases ht
  | running harm hrun =>
    cases h with
    | timeout ht => exact ⟨(B.oneShot.armed_irq harm ht).1, hrun.started, .inr (by simp)⟩
    | spurious ht => cases (B.oneShot.armed_irq harm ht).2
  | ended ho => exact (ho.moved h).1

theorem timerPhase_step (hp : TimerPhase tr d) (h : Moved devId d i d' outs) :
    TimerPhase (tr ++ [⟨d, i, outs, d'⟩]) d' := by
  have hphase := hp
  have hmoved := h
  cases hp with
  | before hpc hs hreset =>
    cases h with
    | main hm ht =>
      obtain ⟨t, hstart, harm⟩ := B.oneShot.start_armed
      rw [hpc, hreset, callTimer, hstart] at ht
      cases ht
      refine .running harm ?_
      cases hm <;> simp_all [Running]
    | silence h | receive m h => rw [hpc] at h; cases h
    | expire ht => rw [hreset, B.oneShot.reset_expire] at ht; cases ht
    | timeout _ | spurious _ => exact .ended (hphase.irq_over hmoved)
  | running harm hrun =>
    cases h with
    | main hm ht =>
      rcases callTimer_cases hrun.started ht with ⟨hpc, rfl⟩ | ⟨hpc, rfl⟩
      · refine .ended ⟨B.oneShot.stop_quiet _, move_started hm, .inl ?_⟩
        cases hm <;> simp_all
      · refine .running harm ?_
        cases hm <;> simp_all [Running]
    | silence hpc => exact .running harm (by simp_all [Running])
    | receive m hpc => exact .running harm (running_dispatch m (by simp_all [Running]))
    | expire ht => exact .running (B.oneShot.armed_expire harm ht) hrun
    | timeout _ | spurious _ => exact .ended (hphase.irq_over hmoved)
  | ended ho => exact .ended (ho.moved h).1

/-- The timer is over wherever `main` comes only without it. -/
theorem TimerPhase.past (hp : TimerPhase tr d) (hpc : d.pc ≠ .timerStart)
    (hrun : ¬ Running d.pc d.state) : Over tr d := by
  cases hp with
  | before hstart _ _ => exact absurd hstart hpc
  | running _ hr => exact absurd hr hrun
  | ended ho => exact ho

variable {flash : ResetFlash B}

theorem timerPhase_run (h : Run (step B devId) (boot flash) tr d) : TimerPhase tr d :=
  run_invariant h (.before rfl rfl rfl) fun _ hp hm => timerPhase_step hp hm

/-- Once the timer is over no run goes through the timeout function again. -/
theorem Over.no_timeout {tr' : List (Trans B)} (ho : Over tr d) (h : Run (step B devId) d tr' d') :
    .onTimeout ∉ outputs tr' := by
  have hinv : Over (tr ++ tr') d' ∧ .onTimeout ∉ outputs tr' := by
    refine h.invariant (I := fun w s => Over (tr ++ w) s ∧ .onTimeout ∉ outputs w)
      ⟨by simpa using ho, by simp⟩ ?_
    rintro w s i s' outs _ ⟨hover, hno⟩ hstep
    have hm := step_moved hstep
    obtain ⟨hover', hirq⟩ := hover.moved hm
    refine ⟨by simpa using hover', ?_⟩
    rw [Mealy.outputs_append, Mealy.outputs_singleton, List.mem_append]
    rintro (ht | ht)
    · exact hno ht
    · exact hirq (moved_onTimeout hm ht)
  exact hinv.2

/-- A PROG_DONE does not end the loop in IDLE. -/
def DoneAfterIdle (t : Trans B) : Prop :=
  t.pre.pc = .progDoneSet → t.input = .main → t.pre.state ≠ .idle

instance (t : Trans B) : Decidable (DoneAfterIdle t) := inferInstanceAs (Decidable (_ → _ → _))

/-- Either the timer is over or `main` still waits in the loop. -/
def Waiting (tr : List (Trans B)) (d : Dev B) : Prop :=
  Over tr d ∨ (d.state = .idle ∧ d.pc ≠ .flashLock ∧ d.pc ≠ .jump)

theorem waiting_step (hp : TimerPhase tr d) (hw : Waiting tr d) (h : Moved devId d i d' outs)
    (hC : DoneAfterIdle ⟨d, i, outs, d'⟩) : Waiting (tr ++ [⟨d, i, outs, d'⟩]) d' := by
  rcases hw with ho | ⟨hs, hlock, hjump⟩
  · exact .inl (ho.moved h).1
  · cases timerPhase_step hp h with
    | before hpc' hs' _ => exact .inr ⟨hs', by simp [hpc'], by simp [hpc']⟩
    | running _ hrun' =>
      -- the timer still runs, so the state was not changed
      have hmoved := h
      cases h with
      | main hm _ => cases hm <;> simp_all [Waiting, Running, DoneAfterIdle]
      | silence hpc => exact .inr ⟨hs, by simp, by simp⟩
      | receive m hpc =>
        have hentry := dispatch_entry m
        refine .inr ⟨hs, ?_, ?_⟩ <;> intro he <;> simp_all [Pc.entry]
      | expire _ | spurious _ => exact .inr ⟨hs, hlock, hjump⟩
      | timeout _ => exact .inl (hp.irq_over hmoved)
    | ended ho' => exact .inl ho'

theorem waiting_run (h : Run (step B devId) (boot flash) tr d) (hC : ∀ t ∈ tr, DoneAfterIdle t) :
    Waiting tr d :=
  run_invariant_where h hC (.inr ⟨rfl, by simp [boot], by simp [boot]⟩)
    fun hrun hw hm hCt => waiting_step (timerPhase_run hrun) hw hm hCt

/-- If no PROG_DONE is handled in IDLE, the jump finds the timer expired or
stopped, and the timeout function never runs again. -/
theorem jump_timer_over (target : Target) (devId : U8) (flash : ResetFlash target.backend)
    {tr : List (Trans target.backend)} {d : Dev target.backend}
    (h : Run (step target.backend devId) (boot flash) tr d) (hC : ∀ t ∈ tr, DoneAfterIdle t)
    (hpc : d.pc = .jump) :
    (.cnTimerStop ∈ outputs tr ∨ .onTimeout ∈ outputs tr) ∧
      ∀ tr' d', Run (step target.backend devId) d tr' d' → .onTimeout ∉ outputs tr' := by
  rcases waiting_run h hC with ho | ⟨_, _, hjump⟩
  · exact ⟨ho.retired, fun _ _ h' => ho.no_timeout h'⟩
  · exact absurd hpc hjump

/-- A PROG_REQ and a PROG_DONE for device 42. -/
def shortSession : List Input :=
  [.main, .main] ++ handling (command cnCanMsgProgReq 42#8) 4
    ++ handling (command cnCanMsgProgDone 42#8) 2 ++ [.main, .main]

theorem jump_timer_over_session : ∃ tr d, Run (step Target.avr.backend 42#8) (boot avrFresh) tr d ∧
    d.pc = .jump ∧ (.cnTimerStop ∈ outputs tr ∨ .onTimeout ∈ outputs tr) ∧
      ∀ tr' d', Run (step Target.avr.backend 42#8) d tr' d' → .onTimeout ∉ outputs tr' := by
  obtain ⟨tr, d, hrun, hp⟩ := Mealy.run_of_exec_any (M := step Target.avr.backend 42#8)
    (s := boot avrFresh)
    (p := fun r => decide ((∀ t ∈ r.1, DoneAfterIdle t) ∧ r.2.pc = .jump)) shortSession
    (by decide +kernel)
  obtain ⟨hC, hpc⟩ := of_decide_eq_true hp
  exact ⟨tr, d, hrun, hpc, jump_timer_over .avr 42#8 avrFresh hrun hC hpc⟩

/-- A PROG_DONE alone: the loop is left with the timer running, and it fires later. -/
def doneInIdle : List Input :=
  [.main, .main] ++ handling (command cnCanMsgProgDone 42#8) 2 ++ [.main, .main]

theorem jump_timer_running : ¬ ∀ (target : Target) (devId : U8) (flash : ResetFlash target.backend)
    (tr : List (Trans target.backend)) (d : Dev target.backend),
    Run (step target.backend devId) (boot flash) tr d → d.pc = .jump →
    (.cnTimerStop ∈ outputs tr ∨ .onTimeout ∈ outputs tr) ∧
      ∀ tr' d', Run (step target.backend devId) d tr' d' → .onTimeout ∉ outputs tr' := by
  intro hclaim
  obtain ⟨tr, d, hrun, hp⟩ := Mealy.run_of_exec_any (M := step Target.avr.backend 42#8)
    (s := boot avrFresh)
    (p := fun r => decide (r.2.pc = .jump) &&
      (Mealy.exec (step Target.avr.backend 42#8) r.2 [.expire, .irq]).any fun q =>
        decide (Event.onTimeout ∈ outputs q.1)) doneInIdle (by decide +kernel)
  rw [Bool.and_eq_true] at hp
  obtain ⟨tr', d', hrun', htimeout⟩ := Mealy.run_of_exec_any _ hp.2
  exact (hclaim .avr 42#8 avrFresh tr d hrun (of_decide_eq_true hp.1)).2 tr' d' hrun'
    (of_decide_eq_true htimeout)

/-- A PROG_REQ is not answered in DONE. -/
def AnsweredAlive (t : Trans B) : Prop :=
  t.pre.pc = .progReqTest → t.input = .main → t.pre.state ≠ .done

instance (t : Trans B) : Decidable (AnsweredAlive t) := inferInstanceAs (Decidable (_ → _ → _))

def ProgDoneHandled (t : Trans B) : Prop := t.pre.pc = .progDoneSet ∧ t.input = .main

instance (t : Trans B) : Decidable (ProgDoneHandled t) := inferInstanceAs (Decidable (_ ∧ _))

/-- A reply of this kind was sent. -/
def Sent (devId : U8) (kind : U32) (tr : List (Trans B)) : Prop :=
  ∃ data, reply devId kind data ∈ outputs tr

def Leaving (d : Dev B) : Prop := d.state = .done ∨ d.pc = .flashLock ∨ d.pc = .jump

/-- Once the answer is on its way the timer is over and only a PROG_DONE ends the loop. -/
structure Answered (devId : U8) (tr : List (Trans B)) (d : Dev B) : Prop where
  timer : Sent devId cnCanMsgProgReqResp tr → Over tr d
  stays : Sent devId cnCanMsgProgReqResp tr ∨ d.pc = .progReqResp → Leaving d →
    Happened ProgDoneHandled tr

theorem sent_snoc {kind : U32} {t : Trans B} :
    Sent devId kind (tr ++ [t]) ↔ Sent devId kind tr ∨ ∃ data, reply devId kind data ∈ t.outs := by
  simp [Sent, exists_or]

/-- The loop ends for a DONE that was there before, for the interrupt or for a PROG_DONE. -/
theorem leaving_moved (h : Moved devId d i d' outs) (hirq : i ≠ .irq) (hl : Leaving d') :
    Leaving d ∨ (d.pc = .progDoneSet ∧ i = .main) := by
  cases h with
  | main hm _ => cases hm <;> simp_all [Leaving]
  | silence _ | expire _ => simp_all [Leaving]
  | receive m _ =>
    have hentry := dispatch_entry m
    rcases hl with hs | hpc | hpc
    · exact .inl (.inl hs)
    · simp_all [Pc.entry]
    · simp_all [Pc.entry]
  | timeout _ | spurious _ => exact absurd rfl hirq

/-- `main` comes to the answer in LOCKED, or in the state it found at the test. -/
theorem answer_reached (h : Moved devId d i d' outs) (hpc : d'.pc = .progReqResp) :
    d.pc = .progReqResp ∨ d'.state = .locked ∨
      (d.pc = .progReqTest ∧ i = .main ∧ d.state ≠ .idle ∧ d'.state = d.state) := by
  cases h with
  | main hm _ => cases hm <;> simp_all
  | silence _ => cases hpc
  | receive m _ =>
    have hentry := dispatch_entry m
    simp_all [Pc.entry]
  | expire _ | timeout _ | spurious _ => exact .inl hpc

theorem answered_step (hp : TimerPhase tr d) (ha : Answered devId tr d)
    (h : Moved devId d i d' outs) (hC : AnsweredAlive ⟨d, i, outs, d'⟩) :
    Answered devId (tr ++ [⟨d, i, outs, d'⟩]) d' := by
  have hover : Sent devId cnCanMsgProgReqResp tr ∨ d.pc = .progReqResp → Over tr d := by
    rintro (hs | hpc)
    · exact ha.timer hs
    · exact hp.past (by simp [hpc]) (by simp [hpc, Running])
  have hsent : Sent devId cnCanMsgProgReqResp (tr ++ [⟨d, i, outs, d'⟩]) →
      Sent devId cnCanMsgProgReqResp tr ∨ d.pc = .progReqResp := by
    rw [sent_snoc]
    rintro (hs | ⟨data, hr⟩)
    · exact .inl hs
    · exact .inr (sends_place (moved_reply h (by decide) hr).2 rfl (by simp))
  constructor
  · intro hs
    exact ((hover (hsent hs)).moved h).1
  · intro hs hl
    rw [Mealy.happened_append, Mealy.happened_singleton]
    by_cases hx : Sent devId cnCanMsgProgReqResp tr ∨ d.pc = .progReqResp
    · rcases leaving_moved h ((hover hx).moved h).2 hl with hl | hdone
      · exact .inl (ha.stays hx hl)
      · exact .inr hdone
    · have hpc : d'.pc = .progReqResp := hs.resolve_left fun h' => hx (hsent h')
      rcases answer_reached h hpc with hpc' | hlocked | ⟨htest, hi, _, hsame⟩
      · exact absurd (.inr hpc') hx
      · simp_all [Leaving]
      · have halive := hC htest hi
        simp_all [Leaving]

theorem answered_run (h : Run (step B devId) (boot flash) tr d) (hC : ∀ t ∈ tr, AnsweredAlive t) :
    Answered devId tr d :=
  run_invariant_where h hC ⟨by simp [Sent], by simp [Sent, boot]⟩
    fun hrun ha hm hCt => answered_step (timerPhase_run hrun) ha hm hCt

/-- If no PROG_REQ finds the timeout in its way, a device that answered one leaves
the loop only after a PROG_DONE. -/
theorem answered_stays (target : Target) (devId : U8) (flash : ResetFlash target.backend)
    {tr : List (Trans target.backend)} {d : Dev target.backend}
    (h : Run (step target.backend devId) (boot flash) tr d) (hC : ∀ t ∈ tr, AnsweredAlive t)
    (hs : Sent devId cnCanMsgProgReqResp tr) (hpc : d.pc = .flashLock ∨ d.pc = .jump) :
    Happened ProgDoneHandled tr :=
  (answered_run h hC).stays (.inl hs) (.inr hpc)

theorem answered_stays_session :
    ∃ tr d, Run (step Target.avr.backend 42#8) (boot avrFresh) tr d ∧
      Sent 42#8 cnCanMsgProgReqResp tr ∧ d.pc = .jump ∧ Happened ProgDoneHandled tr := by
  obtain ⟨tr, d, hrun, hp⟩ := Mealy.run_of_exec_any (M := step Target.avr.backend 42#8)
    (s := boot avrFresh)
    (p := fun r => decide ((∀ t ∈ r.1, AnsweredAlive t) ∧ r.2.pc = .jump ∧
      reply 42#8 cnCanMsgProgReqResp (progReqStats Target.avr.backend) ∈ outputs r.1)) shortSession
    (by decide +kernel)
  obtain ⟨hC, hpc, hs⟩ := of_decide_eq_true hp
  exact ⟨tr, d, hrun, ⟨_, hs⟩, hpc,
    answered_stays .avr 42#8 avrFresh hrun hC ⟨_, hs⟩ (.inr hpc)⟩

/-- The timeout comes after a PROG_REQ was received and before `state` is tested. -/
def timeoutInProgReq : List Input :=
  [.main, .main] ++ handling (command cnCanMsgProgReq 42#8) 0
    ++ [.expire, .irq, .main, .main, .main, .main]

theorem answered_leaves : ¬ ∀ (target : Target) (devId : U8) (flash : ResetFlash target.backend)
    (tr : List (Trans target.backend)) (d : Dev target.backend),
    Run (step target.backend devId) (boot flash) tr d → Sent devId cnCanMsgProgReqResp tr →
    d.pc = .flashLock ∨ d.pc = .jump → Happened ProgDoneHandled tr := by
  intro hclaim
  obtain ⟨tr, d, hrun, hp⟩ := Mealy.run_of_exec_any (M := step Target.avr.backend 42#8)
    (s := boot avrFresh)
    (p := fun r => decide ((∀ t ∈ r.1, ¬ ProgDoneHandled t) ∧ r.2.pc = .jump ∧
      reply 42#8 cnCanMsgProgReqResp (progReqStats Target.avr.backend) ∈ outputs r.1))
    timeoutInProgReq (by decide +kernel)
  obtain ⟨hno, hpc, hs⟩ := of_decide_eq_true hp
  obtain ⟨t, ht, hdone⟩ := hclaim .avr 42#8 avrFresh tr d hrun ⟨_, hs⟩ (.inr hpc)
  exact hno t ht hdone

end CANnuccia.Pump

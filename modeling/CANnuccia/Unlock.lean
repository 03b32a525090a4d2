import CANnuccia.Timeout

/-!
# Who may write to flash

The pump's phase and the driver's own lock each guard the flash. The phase is
lost to the timeout in one place; the driver's lock holds in every interleaving.
-/
namespace CANnuccia.Pump

open Util CanMsgs
open Mealy (Machine Transition Run outputs Happened Before)

variable {B : Backend} {devId : U8} {tr : List (Trans B)} {d d' : Dev B} {i : Input}
variable {outs : List Event} {flash : ResetFlash B}

/-- A PROG_REQ found the device in IDLE. -/
def ProgReqIdle (t : Trans B) : Prop :=
  t.pre.pc = .progReqTest ∧ t.input = .main ∧ t.pre.state = .idle

instance (t : Trans B) : Decidable (ProgReqIdle t) := inferInstanceAs (Decidable (_ ∧ _ ∧ _))

/-- A call of `cnFlashUnlock` returned true. -/
def UnlockTrue (t : Trans B) : Prop := .cnFlashUnlock true ∈ t.outs

instance (t : Trans B) : Decidable (UnlockTrue t) := inferInstanceAs (Decidable (_ ∈ _))

/-- `main` goes on in LOCKED only after a PROG_REQ in IDLE. -/
def Engaged (tr : List (Trans B)) (d : Dev B) : Prop :=
  d.state = .locked ∨ d.pc = .progReqStop ∨ d.pc = .progReqLocked ∨ d.pc = .unlockCall →
    Happened ProgReqIdle tr

theorem engaged_step (he : Engaged tr d) (h : Moved devId d i d' outs) :
    Engaged (tr ++ [⟨d, i, outs, d'⟩]) d' := by
  unfold Engaged at he ⊢
  rw [Mealy.happened_append, Mealy.happened_singleton]
  cases h with
  | main hm _ => cases hm <;> simp_all [ProgReqIdle]
  | silence _ | expire _ | timeout _ | spurious _ => simp_all
  | receive m _ =>
    have hentry := dispatch_entry m
    generalize dispatch m = pc at *
    cases pc <;> simp_all [Pc.entry]

theorem engaged_run (h : Run (step B devId) (boot flash) tr d) : Engaged tr d :=
  run_invariant h (by simp [Engaged, boot]) fun _ he hm => engaged_step he hm

/-- An UNLOCK is not tested in DONE. -/
def UnlockAlive (t : Trans B) : Prop :=
  t.pre.pc = .unlockTest → t.input = .main → t.pre.state ≠ .done

instance (t : Trans B) : Decidable (UnlockAlive t) := inferInstanceAs (Decidable (_ → _ → _))

structure Unlocking (devId : U8) (tr : List (Trans B)) (d : Dev B) : Prop where
  isLocked : d.pc = .unlockIsLocked → d.state = .locked ∨ d.state = .unlocked
  unlocked : d.state = .unlocked ∨ d.pc = .unlockSet ∨ d.pc = .unlockReply →
    Before ProgReqIdle UnlockTrue tr
  replied : Sent devId cnCanMsgUnlocked tr → Before ProgReqIdle UnlockTrue tr

theorem unlocking_step (hp : TimerPhase tr d) (he : Engaged tr d) (hu : Unlocking devId tr d)
    (h : Moved devId d i d' outs) (hC : UnlockAlive ⟨d, i, outs, d'⟩) :
    Unlocking devId (tr ++ [⟨d, i, outs, d'⟩]) d' := by
  obtain ⟨hlocked, hunlocked, hreplied⟩ := hu
  constructor
  · -- no interrupt comes between the two tests, the timer being over
    intro hpc
    cases h with
    | main hm _ =>
      cases hm with
      | unlockPass htest hidle =>
        have hdone : d.state ≠ .done := hC htest rfl
        cases hs : d.state <;> simp_all
      | _ => cases hpc
    | silence _ => cases hpc
    | receive m _ =>
      have hentry := dispatch_entry m
      simp_all [Pc.entry]
    | expire _ | spurious _ => exact hlocked hpc
    | timeout ht =>
      have hpc' : d.pc = .unlockIsLocked := hpc
      have ho := hp.past (by simp [hpc']) (by simp [hpc', Running])
      rw [B.oneShot.quiet_irq ho.quiet] at ht
      cases ht
  · rw [Mealy.before_snoc]
    cases h with
    | main hm _ => cases hm <;> simp_all [UnlockTrue, Engaged]
    | silence _ | expire _ | timeout _ | spurious _ => simp_all
    | receive m _ =>
      have hentry := dispatch_entry m
      generalize dispatch m = pc at *
      cases pc <;> simp_all [Pc.entry]
  · rw [sent_snoc, Mealy.before_snoc]
    rintro (hs | ⟨data, hr⟩)
    · exact .inl (hreplied hs)
    · have hpc : d.pc = .unlockReply :=
        sends_place (moved_reply h (by decide) hr).2 rfl (by simp)
      exact .inl (hunlocked (.inr (.inr hpc)))

theorem unlocking_run (h : Run (step B devId) (boot flash) tr d) (hC : ∀ t ∈ tr, UnlockAlive t) :
    Unlocking devId tr d :=
  run_invariant_where h hC ⟨by simp [boot], by simp [boot], by simp [Sent]⟩
    fun hrun hu hm hCt =>
      unlocking_step (timerPhase_run hrun) (engaged_run hrun) hu hm hCt

/-- If no UNLOCK finds the timeout in its way, the phase UNLOCKED and its reply are
earned by a PROG_REQ and a later successful unlock. -/
theorem unlocked_earned (target : Target) (devId : U8) (flash : ResetFlash target.backend)
    {tr : List (Trans target.backend)} {d : Dev target.backend}
    (h : Run (step target.backend devId) (boot flash) tr d) (hC : ∀ t ∈ tr, UnlockAlive t) :
    (d.state = .unlocked → Before ProgReqIdle UnlockTrue tr) ∧
      (Sent devId cnCanMsgUnlocked tr → Before ProgReqIdle UnlockTrue tr) :=
  ⟨fun hs => (unlocking_run h hC).unlocked (.inl hs), (unlocking_run h hC).replied⟩

theorem unlocked_earned_session :
    ∃ tr d, Run (step Target.avr.backend 42#8) (boot avrFresh) tr d ∧ d.state = .unlocked ∧
      Before ProgReqIdle UnlockTrue tr := by
  obtain ⟨tr, d, hrun, hp⟩ := Mealy.run_of_exec_any (M := step Target.avr.backend 42#8)
    (s := boot avrFresh)
    (p := fun r => decide ((∀ t ∈ r.1, UnlockAlive t) ∧ r.2.state = .unlocked))
    ([.main, .main] ++ handling (command cnCanMsgProgReq 42#8) 4
      ++ handling (command cnCanMsgUnlock 42#8) 5)
    (by decide +kernel)
  obtain ⟨hC, hs⟩ := of_decide_eq_true hp
  exact ⟨tr, d, hrun, hs, (unlocked_earned .avr 42#8 avrFresh hrun hC).1 hs⟩

/-- The timeout comes after an UNLOCK was received and before `state` is tested. -/
def timeoutInUnlock : List Input :=
  [.main, .main] ++ handling (command cnCanMsgUnlock 42#8) 0
    ++ [.expire, .irq, .main, .main, .main, .main]

theorem unlocked_unearned : ¬ ∀ (target : Target) (devId : U8) (flash : ResetFlash target.backend)
    (tr : List (Trans target.backend)) (d : Dev target.backend),
    Run (step target.backend devId) (boot flash) tr d →
    (d.state = .unlocked → Before ProgReqIdle UnlockTrue tr) ∧
      (Sent devId cnCanMsgUnlocked tr → Before ProgReqIdle UnlockTrue tr) := by
  intro hclaim
  obtain ⟨tr, d, hrun, hp⟩ := Mealy.run_of_exec_any (M := step Target.avr.backend 42#8)
    (s := boot avrFresh)
    (p := fun r => decide ((∀ t ∈ r.1, ¬ ProgReqIdle t) ∧ r.2.state = .unlocked))
    timeoutInUnlock (by decide +kernel)
  obtain ⟨hno, hs⟩ := of_decide_eq_true hp
  obtain ⟨t, ht, hidle⟩ := ((hclaim .avr 42#8 avrFresh tr d hrun).1 hs).first
  exact hno t ht hidle

/-- A commit cannot get past a locked driver. -/
theorem commitWrites_locked {p : Page B} {f f' : B.flash.Flash} (hl : B.flash.locked f = true)
    (h : commitWrites devId p f = some (f', outs)) :
    B.flash.contents f' = B.flash.contents f ∧ B.flash.locked f' = true := by
  have hlr := B.lockRespected
  obtain ⟨hc₁, hl₁⟩ := hlr.beginWrite p.addr f hl
  cases commitWrites_cases h with
  | unbegun hbegin =>
    rw [hbegin] at hc₁ hl₁
    exact ⟨hc₁, hl₁⟩
  | unended hbegin hfill hend | ended hbegin hfill hend =>
    rw [hbegin] at hc₁ hl₁
    obtain ⟨hc₂, hl₂⟩ := hlr.fill _ _ _ _ _ _ hl₁ hfill
    obtain ⟨hc₃, hl₃⟩ := hlr.endWrite _ hl₂
    rw [hend] at hc₃ hl₃
    exact ⟨hc₃.trans (hc₂.trans hc₁), hl₃⟩

/-- A commit leaves an open driver open. -/
theorem commitWrites_unlocked (hlast : UnlockLasts B.flash) {p : Page B} {f f' : B.flash.Flash}
    (hl : B.flash.locked f = false) (h : commitWrites devId p f = some (f', outs)) :
    B.flash.locked f' = false := by
  have hl₁ := hlast.beginWrite p.addr f hl
  cases commitWrites_cases h with
  | unbegun hbegin =>
    rw [hbegin] at hl₁
    exact hl₁
  | unended hbegin hfill hend | ended hbegin hfill hend =>
    rw [hbegin] at hl₁
    have hl₂ := hlast.endWrite _ (hlast.fill _ _ _ _ _ _ hl₁ hfill)
    rw [hend] at hl₂
    exact hl₂

/-- Only a commit past an open lock changes a flash byte. -/
theorem contents_moved (h : Moved devId d i d' outs)
    (hchange : B.flash.contents d'.flash ≠ B.flash.contents d.flash) :
    d.pc = .commitWrites ∧ i = .main ∧ B.flash.locked d.flash = false := by
  have hlr := B.lockRespected
  cases moved_flash h with
  | same hf => exact absurd (by rw [hf]) hchange
  | unlock hf => exact absurd (by rw [hf, hlr.unlock_contents]) hchange
  | commit hpc hi hc =>
    refine ⟨hpc, hi, ?_⟩
    by_contra hl
    exact hchange (commitWrites_locked (by simpa using hl) hc).1
  | lock _ hf => exact absurd (by rw [hf, hlr.lock_contents]) hchange

/-- The driver is locked until a PROG_REQ in IDLE and a successful unlock. -/
def Guarded (tr : List (Trans B)) (d : Dev B) : Prop :=
  B.flash.locked d.flash = true ∨ Before ProgReqIdle UnlockTrue tr

theorem guarded_step (he : Engaged tr d) (hg : Guarded tr d) (h : Moved devId d i d' outs) :
    Guarded (tr ++ [⟨d, i, outs, d'⟩]) d' := by
  unfold Guarded at hg ⊢
  rw [Mealy.before_snoc]
  cases hg with
  | inl hl =>
    cases h with
    | main hm _ =>
      cases hm with
      | unlockTrue hpc _ =>
        exact .inr (.inr ⟨he (.inr (.inr (.inr hpc))), List.mem_singleton.mpr rfl⟩)
      | unlockFalse _ hf => exact .inl (B.lockRespected.unlock_refused _ hl hf)
      | commitWrites _ _ _ hc => exact .inl (commitWrites_locked hl hc).2
      | flashLock _ => exact .inl (B.lockRespected.lock_locked _)
      | _ => exact .inl hl
    | _ => exact .inl hl
  | inr hb => exact .inr (.inl hb)

theorem guarded_run (h : Run (step B devId) (boot flash) tr d) : Guarded tr d :=
  run_invariant h (.inl (B.lockRespected.reset _ flash.2))
    fun hrun hg hm => guarded_step (engaged_run hrun) hg hm

theorem untouched_run (h : Run (step B devId) (boot flash) tr d) :
    ¬ Before ProgReqIdle UnlockTrue tr →
      B.flash.contents d.flash = B.flash.contents flash.1 := by
  refine run_invariant (I := fun tr d => ¬ Before ProgReqIdle UnlockTrue tr →
    B.flash.contents d.flash = B.flash.contents flash.1) h (fun _ => rfl) ?_
  intro tr s i s' outs hrun hsame hm hno
  rw [Mealy.before_snoc] at hno
  have hno' : ¬ Before ProgReqIdle UnlockTrue tr := fun hb => hno (.inl hb)
  rw [← hsame hno']
  by_contra hchange
  have hopen := (contents_moved hm hchange).2.2
  cases guarded_run hrun with
  | inl hl => rw [hl] at hopen; cases hopen
  | inr hb => exact hno' hb

/-- A flash byte changes only while a COMMIT_WRITES is handled that comes after a
PROG_REQ in IDLE and a later successful unlock; without these two the flash is the
one of the reset. -/
theorem flash_guarded (target : Target) (devId : U8) (flash : ResetFlash target.backend)
    {tr : List (Trans target.backend)} {d : Dev target.backend}
    (h : Run (step target.backend devId) (boot flash) tr d) :
    (∀ i d' outs, step target.backend devId d i = some (d', outs) →
      target.backend.flash.contents d'.flash ≠ target.backend.flash.contents d.flash →
      d.pc = .commitWrites ∧ LastReceived cnCanMsgCommitWrites tr ∧
        Before ProgReqIdle UnlockTrue tr) ∧
    (¬ Before ProgReqIdle UnlockTrue tr →
      target.backend.flash.contents d.flash = target.backend.flash.contents flash.1) := by
  constructor
  · intro i d' outs hstep hchange
    obtain ⟨hpc, _, hopen⟩ := contents_moved (step_moved hstep) hchange
    refine ⟨hpc, handles_received h (by rw [hpc]; rfl), ?_⟩
    rcases guarded_run h with hl | hb
    · rw [hl] at hopen
      cases hopen
    · exact hb
  · exact untouched_run h

/-- A session up to the commit of the page 0x0080, still full of zeroes. -/
def commitSession : List Input :=
  [.main, .main] ++ handling (command cnCanMsgProgReq 42#8) 4
    ++ handling (command cnCanMsgUnlock 42#8) 5
    ++ handling (commandAt cnCanMsgSelectPage 42#8 0x0080#32) 1
    ++ handling (command cnCanMsgCommitWrites 42#8) 1

theorem flash_guarded_commit :
    ∃ tr d d' outs, Run (step Target.avr.backend 42#8) (boot avrFresh) tr d ∧
      step Target.avr.backend 42#8 d .main = some (d', outs) ∧
      d'.flash.mem 0x0080 ≠ d.flash.mem 0x0080 ∧ d.pc = .commitWrites ∧
      LastReceived cnCanMsgCommitWrites tr ∧ Before ProgReqIdle UnlockTrue tr := by
  obtain ⟨tr, d, hrun, hp⟩ := Mealy.run_of_exec_any (M := step Target.avr.backend 42#8)
    (s := boot avrFresh)
    (p := fun r => (step Target.avr.backend 42#8 r.2 .main).any fun q =>
      decide (q.1.flash.mem 0x0080 ≠ r.2.flash.mem 0x0080)) commitSession (by decide +kernel)
  obtain ⟨⟨d', outs⟩, hstep, hbyte⟩ := (Option.any_eq_true _ _).mp hp
  have hchange := of_decide_eq_true hbyte
  exact ⟨tr, d, d', outs, hrun, hstep, hchange,
    (flash_guarded .avr 42#8 avrFresh hrun).1 .main d' outs hstep
      fun hsame => hchange (congrFun hsame _)⟩

end CANnuccia.Pump

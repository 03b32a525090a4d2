import CANnuccia.Unlock

/-!
# From the unlock to PROG_DONE

A successful `cnFlashUnlock` can only be called after a PROG_REQ stopped the
timer, so from then on no interrupt changes `state`, and only a PROG_DONE ends
the session.
-/
namespace CANnuccia.Pump

open Util CanMsgs
open Mealy (Machine Transition Run outputs Happened Since)

variable {B : Backend} {devId : U8} {tr : List (Trans B)} {d d' : Dev B} {i : Input}
variable {outs : List Event}

/-- Where `main` can be, and in which state, while the session is open. -/
def Holding : Pc → State → Prop
  | .unlockSet, s => s = .locked ∨ s = .unlocked
  | .timerStart, _ | .stateIdle, _ | .progReqStop, _ | .progReqLocked, _ | .unlockCall, _ => False
  | .flashLock, _ | .jump, _ => False
  | _, s => s = .unlocked

structure Held (tr : List (Trans B)) (d : Dev B) : Prop where
  timer : Over tr d
  holding : Holding d.pc d.state
  unlocked : B.flash.locked d.flash = false

/-- The session is open from a successful unlock until a PROG_DONE is handled. -/
def Open (tr : List (Trans B)) : Prop := Since UnlockTrue ProgDoneHandled tr

/-- What the one call of `cnFlashUnlock` leaves. -/
theorem moved_cnFlashUnlock {ok : Bool} (h : Moved devId d i d' outs)
    (hu : .cnFlashUnlock ok ∈ outs) : d.pc = .unlockCall ∧ d'.state = d.state ∧
      (B.flash.cnFlashUnlock d.flash).1 = ok ∧ (ok = true → d'.pc = .unlockSet) := by
  cases h with
  | main hm _ =>
    cases hm with
    | unlockTrue hpc ht | unlockFalse hpc ht => simp_all
    | selectPage data =>
      obtain ⟨bytes, hb⟩ := selectPage_outs hu
      cases hb
    | commitWrites _ _ _ hc =>
      rcases commitWrites_outs hc with rfl | rfl <;> simp [committed, reply] at hu
    | _ => simp [reply, checkWrites] at hu
  | _ => simp at hu

/-- `cnFlashUnlock` is called in LOCKED. -/
def Calling (d : Dev B) : Prop := d.pc = .unlockCall → d.state = .locked

theorem calling_step (hp : TimerPhase tr d) (hc : Calling d) (h : Moved devId d i d' outs) :
    Calling d' := by
  intro hpc
  cases h with
  | main hm _ => cases hm <;> simp_all
  | silence _ => cases hpc
  | receive m _ =>
    have hentry := dispatch_entry m
    simp_all [Pc.entry]
  | expire _ | spurious _ => exact hc hpc
  | timeout ht =>
    have hpc' : d.pc = .unlockCall := hpc
    have ho := hp.past (by simp [hpc']) (by simp [hpc', Running])
    rw [B.oneShot.quiet_irq ho.quiet] at ht
    cases ht

theorem calling_run {flash : ResetFlash B} (h : Run (step B devId) (boot flash) tr d) :
    Calling d :=
  run_invariant (I := fun _ d => Calling d) h (by simp [Calling, boot])
    fun hrun hc hm => calling_step (timerPhase_run hrun) hc hm

/-- The session opens. -/
theorem held_opened (hlast : UnlockLasts B.flash) (hp : TimerPhase tr d) (hc : Calling d)
    (h : Moved devId d i d' outs) (hu : .cnFlashUnlock true ∈ outs) :
    Held (tr ++ [⟨d, i, outs, d'⟩]) d' := by
  obtain ⟨hpc, hs, htrue, hset⟩ := moved_cnFlashUnlock h hu
  obtain ⟨_, hflash⟩ := moved_unlockTrue h hu
  have ho := hp.past (by simp [hpc]) (by simp [hpc, Running])
  refine ⟨(ho.moved h).1, ?_, ?_⟩
  · rw [hset rfl, hs]
    exact .inl (hc hpc)
  · rw [hflash]
    exact hlast.unlock_done _ htrue

/-- The session stays open. -/
theorem held_step (hlast : UnlockLasts B.flash) (hh : Held tr d) (h : Moved devId d i d' outs)
    (hdone : ¬ ProgDoneHandled ⟨d, i, outs, d'⟩) : Held (tr ++ [⟨d, i, outs, d'⟩]) d' := by
  obtain ⟨ho, hhold, hl⟩ := hh
  obtain ⟨ho', hirq⟩ := ho.moved h
  refine ⟨ho', ?_, ?_⟩
  · cases h with
    | main hm _ => cases hm <;> simp_all [Holding, ProgDoneHandled]
    | silence hpc => simp_all [Holding]
    | receive m hpc =>
      have hentry := dispatch_entry m
      generalize dispatch m = pc at *
      cases pc <;> simp_all [Pc.entry, Holding]
    | expire _ => exact hhold
    | timeout _ | spurious _ => exact absurd rfl hirq
  · cases h with
    | main hm _ =>
      cases hm with
      | unlockTrue hpc _ | unlockFalse hpc _ | flashLock hpc => simp [Holding, hpc] at hhold
      | commitWrites _ _ _ hc => exact commitWrites_unlocked hlast hl hc
      | _ => exact hl
    | _ => exact hl

theorem held_run (hlast : UnlockLasts B.flash) {flash : ResetFlash B}
    (h : Run (step B devId) (boot flash) tr d) : Open tr → Held tr d := by
  refine run_invariant (I := fun tr d => Open tr → Held tr d) h
    (fun ho => absurd ho Mealy.since_nil) ?_
  intro tr s i s' outs hrun ih hm hopen
  cases Mealy.since_snoc.mp hopen with
  | inl hu => exact held_opened hlast (timerPhase_run hrun) (calling_run hrun) hm hu
  | inr ho => exact held_step hlast (ih ho.1) hm ho.2

/-- An open session is not unlocked again. -/
theorem Held.not_called {ok : Bool} (hh : Held tr d) (h : Moved devId d i d' outs) :
    .cnFlashUnlock ok ∉ outs := by
  intro hu
  have hhold := hh.holding
  rw [(moved_cnFlashUnlock h hu).1] at hhold
  exact hhold

/-- In an open session an UNLOCK handler ends with the answer. -/
theorem Held.answers (hh : Held tr d) (h : Moved devId d i d' outs)
    (hk : d.pc.handles = some cnCanMsgUnlock) (hend : d'.pc = .loopTest) :
    outs = [reply devId cnCanMsgUnlocked []] := by
  have hhold := hh.holding
  cases h with
  | main hm _ =>
    cases hm with
    | unlockReply _ => rfl
    | unlockIdle hpc hs => simp [Holding, hpc, hs] at hhold
    | unlockFalse hpc _ => simp [Holding, hpc] at hhold
    | _ => simp_all [Pc.handles, cnCanMsgUnlock, cnCanMsgProgReq, cnCanMsgSelectPage, cnCanMsgSeek,
        cnCanMsgWrite, cnCanMsgCheckWrites, cnCanMsgCommitWrites, cnCanMsgProgDone]
  | silence hpc | receive m hpc => simp [hpc, Pc.handles] at hk
  | expire _ | timeout _ | spurious _ => simp_all [Pc.handles]

/-- Its handler is never stuck on the way there. -/
theorem Held.goes_on (hh : Held tr d) (hk : d.pc.handles = some cnCanMsgUnlock) :
    (step B devId d .main).isSome := by
  have hhold := hh.holding
  obtain ⟨⟨pc, state, page, flash⟩, timer⟩ := d
  cases pc with
  | unlockCall => cases hhold
  | unlockTest | unlockIsLocked | unlockSet | unlockReply => simp [step, mainStep, callTimer]
  | _ => simp [Pc.handles, cnCanMsgUnlock, cnCanMsgProgReq, cnCanMsgSelectPage, cnCanMsgSeek,
      cnCanMsgWrite, cnCanMsgCheckWrites, cnCanMsgCommitWrites, cnCanMsgProgDone] at hk

/-- UNLOCKED is not left again. -/
theorem Held.stays (hh : Held tr d) (h : Moved devId d i d' outs)
    (hdone : ¬ ProgDoneHandled ⟨d, i, outs, d'⟩) (hs : d.state = .unlocked) :
    d'.state = .unlocked := by
  have hhold := hh.holding
  have hirq := (hh.timer.moved h).2
  cases h with
  | main hm _ => cases hm <;> simp_all [Holding, ProgDoneHandled]
  | silence _ | receive _ _ | expire _ => exact hs
  | timeout _ | spurious _ => exact absurd rfl hirq

theorem open_of {l r : List (Trans B)} {x : Trans B} (hx : UnlockTrue x)
    (hr : ∀ y ∈ r, ¬ ProgDoneHandled y) : Open (l ++ x :: r) :=
  ⟨l, x, r, rfl, hx, fun ⟨y, hy, hdone⟩ => hr y hy hdone⟩

/-- After the handler of the unlock has ended the device is in UNLOCKED. -/
theorem held_state (hlast : UnlockLasts B.flash) {flash : ResetFlash B} {l : List (Trans B)}
    {x : Trans B} (hx : UnlockTrue x) (r : List (Trans B)) : ∀ {d : Dev B},
    Run (step B devId) (boot flash) (l ++ x :: r) d → (∀ y ∈ r, ¬ ProgDoneHandled y) →
      (∃ y ∈ r, y.post.pc = .loopTest) → d.state = .unlocked := by
  induction r using List.reverseRecOn with
  | nil =>
    rintro d _ _ ⟨y, hy, _⟩
    cases hy
  | append_singleton r t ih =>
    rintro d h hr ⟨y, hy, hend⟩
    have hheld := held_run hlast h (open_of hx hr)
    rw [← List.cons_append, ← List.append_assoc, Mealy.run_snoc_iff] at h
    obtain ⟨hrun, hstep, rfl⟩ := h
    have hr' : ∀ y ∈ r, ¬ ProgDoneHandled y := fun y hy => hr y (List.mem_append_left _ hy)
    cases List.mem_append.mp hy with
    | inl hy =>
      have hheld' := held_run hlast hrun (open_of hx hr')
      exact hheld'.stays (step_moved hstep) (hr t (by simp)) (ih hrun hr' ⟨y, hy, hend⟩)
    | inr hy =>
      rw [List.mem_singleton.mp hy] at hend
      have hhold := hheld.holding
      rw [hend] at hhold
      exact hhold

/-- From a successful `cnFlashUnlock` to PROG_DONE the flash stays open and the pump
stays in its loop, in UNLOCKED once the handler of that UNLOCK has ended; every UNLOCK
is answered and `cnFlashUnlock` is not called again. -/
theorem unlocked_lasts (target : Target) (devId : U8) (flash : ResetFlash target.backend)
    {tr l r : List (Trans target.backend)} {x : Trans target.backend} {d : Dev target.backend}
    (h : Run (step target.backend devId) (boot flash) tr d) (htr : tr = l ++ x :: r)
    (hx : UnlockTrue x) (hr : ∀ y ∈ r, ¬ ProgDoneHandled y) :
    target.backend.flash.locked d.flash = false ∧
    ((∃ y ∈ r, y.post.pc = .loopTest) → d.state = .unlocked) ∧
    d.pc ≠ .flashLock ∧ d.pc ≠ .jump ∧
    (∀ y ∈ r, ∀ ok, .cnFlashUnlock ok ∉ y.outs) ∧
    (∀ y ∈ r, y.pre.pc.handles = some cnCanMsgUnlock → y.post.pc = .loopTest →
      y.outs = [reply devId cnCanMsgUnlocked []]) ∧
    (d.pc.handles = some cnCanMsgUnlock → (step target.backend devId d .main).isSome) := by
  subst htr
  have hheld := held_run target.unlockLasts h (open_of hx hr)
  have hhold := hheld.holding
  have hstep : ∀ y ∈ r, ∃ before, Held before y.pre ∧
      Moved devId y.pre y.input y.post y.outs := by
    intro y hy
    obtain ⟨r₁, r₂, rfl⟩ := List.mem_iff_append.mp hy
    rw [← List.cons_append, ← List.append_assoc] at h
    obtain ⟨hrun, hstep⟩ := h.reached
    have hr₁ : ∀ z ∈ r₁, ¬ ProgDoneHandled z := fun z hz => hr z (List.mem_append_left _ hz)
    exact ⟨_, held_run target.unlockLasts hrun (open_of hx hr₁), step_moved hstep⟩
  refine ⟨hheld.unlocked, held_state target.unlockLasts hx r h hr, ?_, ?_, ?_, ?_, hheld.goes_on⟩
  · intro hpc
    rw [hpc] at hhold
    exact hhold
  · intro hpc
    rw [hpc] at hhold
    exact hhold
  · intro y hy ok
    obtain ⟨before, hbefore, hmoved⟩ := hstep y hy
    exact hbefore.not_called hmoved
  · intro y hy hk hend
    obtain ⟨before, hbefore, hmoved⟩ := hstep y hy
    exact hbefore.answers hmoved hk hend

/-- A second UNLOCK does not reach the key lock. -/
theorem unlocked_lasts_again : ∃ (tr l r : List (Trans stm32)) (x : Trans stm32) (d : Dev stm32),
    Run (step Target.stm32.backend 42#8) (boot stm32Fresh) tr d ∧ tr = l ++ x :: r ∧
      UnlockTrue x ∧ d.state = .unlocked ∧ d.pc = .loopTest ∧
      Stm32Flash.driver.locked d.flash = false ∧ ∀ y ∈ r, ∀ ok, .cnFlashUnlock ok ∉ y.outs := by
  obtain ⟨tr, d, hrun, hp⟩ := Mealy.run_of_exec_any (M := step Target.stm32.backend 42#8)
    (s := boot stm32Fresh)
    (p := fun r => decide ((∃ x ∈ r.1, UnlockTrue x) ∧ (∀ y ∈ r.1, ¬ ProgDoneHandled y) ∧
      r.2.state = .unlocked ∧ r.2.pc = .loopTest))
    ([.main, .main] ++ handling (command cnCanMsgProgReq 42#8) 4
      ++ handling (command cnCanMsgUnlock 42#8) 5 ++ handling (command cnCanMsgUnlock 42#8) 4)
    (by decide +kernel)
  obtain ⟨⟨x, hx, htrue⟩, hno, hs, hpc⟩ := of_decide_eq_true hp
  obtain ⟨l, r, rfl⟩ := List.mem_iff_append.mp hx
  have hlasts := unlocked_lasts .stm32 42#8 stm32Fresh hrun rfl htrue fun y hy => hno y (by simp [hy])
  exact ⟨_, l, r, x, d, hrun, rfl, htrue, hs, hpc, hlasts.1, hlasts.2.2.2.2.1⟩

end CANnuccia.Pump

import CANnuccia.Commit
import CANnuccia.Sequential

/-!
# What a message does

`Handler` lists what the handlers of main.c do to the device between two messages,
one constructor a branch. Without a timeout the phase tells whether the driver is
locked, so that every message can be handled.
-/
namespace CANnuccia.Pump

open Util CanMsgs
open Mealy (Machine Transition Run outputs)

section Serve

variable {B : Backend} {devId : U8} {c c' : Core B} {m : Msg} {outs : List Event}

inductive Handler (devId : U8) (c : Core B) : Pc → Core B → List Event → Prop where
  | progReqFirst : c.state = .idle → Handler devId c .progReqTest { c with state := .locked }
      [.cnTimerStop, reply devId cnCanMsgProgReqResp (progReqStats B)]
  | progReqAgain : c.state ≠ .idle → Handler devId c .progReqTest c
      [reply devId cnCanMsgProgReqResp (progReqStats B)]
  | unlockIdle : c.state = .idle → Handler devId c .unlockTest c []
  | unlockTrue : c.state = .locked → (B.flash.cnFlashUnlock c.flash).1 = true →
      Handler devId c .unlockTest
        { c with state := .unlocked, flash := (B.flash.cnFlashUnlock c.flash).2 }
        [.cnFlashUnlock true, reply devId cnCanMsgUnlocked []]
  | unlockFalse : c.state = .locked → (B.flash.cnFlashUnlock c.flash).1 = false →
      Handler devId c .unlockTest { c with flash := (B.flash.cnFlashUnlock c.flash).2 }
        [.cnFlashUnlock false]
  | unlockAgain : c.state = .unlocked ∨ c.state = .done → Handler devId c .unlockTest
      { c with state := .unlocked } [reply devId cnCanMsgUnlocked []]
  | selectPage (data : List U8) : Handler devId c (.selectPage data)
      { c with selPage := (selectPage devId data c.selPage).1 } (selectPage devId data c.selPage).2
  | seek (data : List U8) : Handler devId c (.seek data) { c with selPage := seek data c.selPage } []
  | write (data : List U8) : Handler devId c (.write data)
      { c with selPage := write data c.selPage } []
  | checkWrites : Handler devId c .checkWrites c (checkWrites devId c.selPage)
  | commitRefuse : c.state ≠ .unlocked → Handler devId c .commitTest c []
  | commit (flash : B.flash.Flash) (outs : List Event) : c.state = .unlocked →
      commitWrites devId c.selPage c.flash = some (flash, outs) →
      Handler devId c .commitTest { c with flash := flash } outs
  | progDone : Handler devId c .progDone { c with state := .done }
      [reply devId cnCanMsgProgDoneAck []]
  | unknown : Handler devId c .loopTest c []

/-- One step of a handler, and what the rest of it comes to. -/
theorem finish_then {c₁ : Core B} {pc pc₁ : Pc} {o₁ o₂ : List Event} (hl : 0 < pc.left)
    (h : mainStep devId (c.goto pc) = some (c₁.goto pc₁, o₁))
    (hrest : finish devId 5 (c₁.goto pc₁) = some (c', o₂)) :
    finish devId 5 (c.goto pc) = some (c', o₁ ++ o₂) := by
  rw [finish_step hl h, hrest, Option.map_some]

/-- The last step of a handler. -/
theorem finish_last {pc : Pc} (hl : 0 < pc.left)
    (h : mainStep devId (c.goto pc) = some (c'.goto .loopTest, outs)) :
    finish devId 5 (c.goto pc) = some (c'.goto .loopTest, outs) := by
  have hthen := finish_then hl h (finish_ended rfl)
  rwa [List.append_nil] at hthen

theorem finish_progReqResp (c : Core B) : finish devId 5 (c.goto .progReqResp) =
    some (c.goto .loopTest, [reply devId cnCanMsgProgReqResp (progReqStats B)]) :=
  finish_last (by decide) rfl

theorem finish_unlockTest (hs : c.state ≠ .idle) :
    finish devId 5 (c.goto .unlockTest) = finish devId 5 (c.goto .unlockIsLocked) := by
  have htest : mainStep devId (c.goto .unlockTest) = some (c.goto .unlockIsLocked, []) := by
    cases hstate : c.state with
    | idle => exact absurd hstate hs
    | _ => simp [mainStep, Core.goto, State.rank, hstate]
  have hl : 0 < (c.goto .unlockTest).pc.left := Nat.zero_lt_succ 4
  rw [finish_step hl htest]
  exact Option.map_id'

theorem finish_unlockSet (c : Core B) : finish devId 5 (c.goto .unlockSet) =
    some ({ c with state := .unlocked }.goto .loopTest, [reply devId cnCanMsgUnlocked []]) := by
  have hset : mainStep devId (c.goto .unlockSet) =
      some ({ c with state := .unlocked }.goto .unlockReply, []) := rfl
  exact finish_then (by decide) hset (finish_last (by decide) rfl)

theorem Handler.finish {pc : Pc} (h : Handler devId c pc c' outs) :
    finish devId 5 (c.goto pc) = some (c'.goto .loopTest, outs) := by
  cases h with
  | progReqFirst hs =>
    have htest : mainStep devId (c.goto .progReqTest) = some (c.goto .progReqStop, []) := by
      simp [mainStep, Core.goto, hs]
    have hstop : mainStep devId (c.goto .progReqStop) =
        some (c.goto .progReqLocked, [.cnTimerStop]) := rfl
    have hlocked : mainStep devId (c.goto .progReqLocked) =
        some ({ c with state := .locked }.goto .progReqResp, []) := rfl
    exact finish_then (by decide) htest
      (finish_then (by decide) hstop (finish_then (by decide) hlocked (finish_progReqResp _)))
  | progReqAgain hs =>
    have htest : mainStep devId (c.goto .progReqTest) = some (c.goto .progReqResp, []) := by
      simp [mainStep, Core.goto, hs]
    exact finish_then (by decide) htest (finish_progReqResp c)
  | unlockIdle hs =>
    refine finish_last (by decide) ?_
    simp [mainStep, Core.goto, State.rank, hs]
  | unlockTrue hs hu =>
    have hlocked : mainStep devId (c.goto .unlockIsLocked) = some (c.goto .unlockCall, []) := by
      simp [mainStep, Core.goto, hs]
    have hcall : mainStep devId (c.goto .unlockCall) =
        some ({ c with flash := (B.flash.cnFlashUnlock c.flash).2 }.goto .unlockSet,
          [.cnFlashUnlock true]) := by
      simp [mainStep, Core.goto, hu]
    rw [finish_unlockTest (by simp [hs])]
    exact finish_then (by decide) hlocked (finish_then (by decide) hcall (finish_unlockSet _))
  | unlockFalse hs hu =>
    have hlocked : mainStep devId (c.goto .unlockIsLocked) = some (c.goto .unlockCall, []) := by
      simp [mainStep, Core.goto, hs]
    rw [finish_unlockTest (by simp [hs])]
    refine finish_then (by decide) hlocked (finish_last (by decide) ?_)
    simp [mainStep, Core.goto, hu]
  | unlockAgain hs =>
    have hlocked : mainStep devId (c.goto .unlockIsLocked) = some (c.goto .unlockSet, []) := by
      rcases hs with hs | hs <;> simp [mainStep, Core.goto, hs]
    rw [finish_unlockTest (by rcases hs with hs | hs <;> simp [hs])]
    exact finish_then (by decide) hlocked (finish_unlockSet c)
  | commitRefuse hs =>
    refine finish_last (by decide) ?_
    simp [mainStep, Core.goto, hs]
  | commit f o hs hc =>
    have htest : mainStep devId (c.goto .commitTest) = some (c.goto .commitWrites, []) := by
      simp [mainStep, Core.goto, hs]
    refine finish_then (by decide) htest (finish_last (by decide) ?_)
    simp [mainStep, Core.goto, hc]
  | selectPage data | seek data | write data | checkWrites => exact finish_last Nat.one_pos rfl
  | progDone =>
    have hreply : mainStep devId (c.goto .progDone) =
        some (c.goto .progDoneSet, [reply devId cnCanMsgProgDoneAck []]) := rfl
    exact finish_then (by decide) hreply (finish_last (by decide) rfl)
  | unknown => exact finish_ended rfl

/-- A handler can always go on, unless the copy loop of a commit does not end. -/
theorem handler_total {pc : Pc} (hentry : pc.entry = true)
    (hc : pc = .commitTest → c.state = .unlocked →
      ∃ r, commitWrites devId c.selPage c.flash = some r) :
    ∃ c' outs, Handler devId c pc c' outs := by
  cases pc with
  | loopTest => exact ⟨_, _, .unknown⟩
  | progReqTest =>
    by_cases hs : c.state = .idle
    · exact ⟨_, _, .progReqFirst hs⟩
    · exact ⟨_, _, .progReqAgain hs⟩
  | unlockTest =>
    cases hs : c.state with
    | idle => exact ⟨_, _, .unlockIdle hs⟩
    | locked =>
      cases hu : (B.flash.cnFlashUnlock c.flash).1 with
      | true => exact ⟨_, _, .unlockTrue hs hu⟩
      | false => exact ⟨_, _, .unlockFalse hs hu⟩
    | unlocked => exact ⟨_, _, .unlockAgain (.inl hs)⟩
    | done => exact ⟨_, _, .unlockAgain (.inr hs)⟩
  | selectPage data => exact ⟨_, _, .selectPage data⟩
  | seek data => exact ⟨_, _, .seek data⟩
  | write data => exact ⟨_, _, .write data⟩
  | checkWrites => exact ⟨_, _, .checkWrites⟩
  | commitTest =>
    by_cases hs : c.state = .unlocked
    · obtain ⟨⟨f, o⟩, hcommit⟩ := hc rfl hs
      exact ⟨_, _, .commit f o hs hcommit⟩
    · exact ⟨_, _, .commitRefuse hs⟩
  | progDone => exact ⟨_, _, .progDone⟩
  | _ => cases hentry

theorem Handler.pc_eq {pc : Pc} (h : Handler devId c pc c' outs) : c'.pc = c.pc := by
  cases h <;> rfl

/-- Between two messages the program counter does not matter. -/
theorem Handler.goto {pc : Pc} (h : Handler devId c pc c' outs) (hpc : c.pc = .loopTest) :
    c'.goto .loopTest = c' := by
  rw [← hpc, ← h.pc_eq]
  rfl

/-- What is served is handled by one of the branches. -/
theorem serve_handler {s s' : Served B} (hpc : s.1.pc = .loopTest) (h : serve devId s m = some s') :
    ∃ c' outs, Handler devId s.1 (dispatch m) c' outs ∧ s' = (c', s.2 ++ outs) := by
  obtain ⟨c₁, o₁, hf, rfl⟩ := serve_eq h
  have hc : dispatch m = .commitTest → s.1.state = .unlocked →
      ∃ r, commitWrites devId s.1.selPage s.1.flash = some r := by
    intro hd hs
    rw [hd] at hf
    cases hcommit : commitWrites devId s.1.selPage s.1.flash with
    | some r => exact ⟨r, rfl⟩
    | none => simp [Pump.finish, mainStep, Core.goto, Pc.left, hs, hcommit] at hf
  obtain ⟨c₂, o₂, hh⟩ := handler_total (dispatch_entry m) hc
  have hfinish := hh.finish
  rw [hf, Option.some.injEq, Prod.mk.injEq] at hfinish
  obtain ⟨rfl, rfl⟩ := hfinish
  exact ⟨c₂, o₁, hh, by rw [← hh.goto hpc]; rfl⟩

theorem Handler.serve {s : Served B} (hpc : s.1.pc = .loopTest)
    (h : Handler devId s.1 (dispatch m) c' outs) :
    serve devId s m = some (c', s.2 ++ outs) := by
  rw [Pump.serve, h.finish, Option.map_some, h.goto hpc, h.goto hpc]

/-- The device is in its loop before the first message and after it is served. -/
theorem aliveFor_cons {s : Served B} {ms : List Msg} : AliveFor devId s (m :: ms) ↔
    s.1.state ≠ .done ∧ ∀ s', Pump.serve devId s m = some s' → AliveFor devId s' ms := by
  constructor
  · intro h
    refine ⟨h [] m ms rfl s rfl, ?_⟩
    rintro s₁ hserve l k r rfl s₂ hl
    exact h (m :: l) k r rfl s₂ (serveAll_step hserve hl)
  · rintro ⟨hs, hrest⟩ l k r hlr s₂ hl
    cases l with
    | nil =>
      cases hl
      exact hs
    | cons m' l =>
      obtain ⟨rfl, rfl⟩ := List.cons.inj hlr
      rw [serveAll_cons, Option.bind_eq_some_iff] at hl
      obtain ⟨s₁, hserve, hl⟩ := hl
      exact hrest s₁ hserve l k r rfl s₂ hl

theorem aliveFor_nil (s : Served B) : AliveFor devId s [] := by
  intro l m r hlr
  simp at hlr

theorem aliveFor_append {s : Served B} {l r : List Msg} : AliveFor devId s (l ++ r) ↔
    AliveFor devId s l ∧ ∀ s', serveAll devId s l = some s' → AliveFor devId s' r := by
  induction l generalizing s with
  | nil => simp [aliveFor_nil]
  | cons m l ih =>
    rw [List.cons_append, aliveFor_cons, aliveFor_cons]
    constructor
    · rintro ⟨hs, hrest⟩
      refine ⟨⟨hs, fun s₁ hserve => (ih.mp (hrest s₁ hserve)).1⟩, fun s₂ hl => ?_⟩
      rw [serveAll_cons, Option.bind_eq_some_iff] at hl
      obtain ⟨s₁, hserve, hl⟩ := hl
      exact (ih.mp (hrest s₁ hserve)).2 s₂ hl
    · rintro ⟨⟨hs, hl⟩, hr⟩
      refine ⟨hs, fun s₁ hserve => ih.mpr ⟨hl s₁ hserve, fun s₂ hl₂ => ?_⟩⟩
      exact hr s₂ (serveAll_step hserve hl₂)

end Serve

section Settled

variable {t : Target} {devId : U8} {c c' : Core t.backend} {outs : List Event}

theorem commit_total {p : Page t.backend} (halign : p.addr.toNat % t.pageSize = 0)
    (f : t.backend.flash.Flash) : ∃ r, commitWrites devId p f = some r := by
  cases t with
  | stm32 =>
    by_cases hl : Stm32Flash.Flash.lock f = .unlocked
    · by_cases hp : p.addr = 0
      · exact ⟨_, stm32_commit_unselected hl hp⟩
      · exact ⟨_, stm32_commit hl hp halign⟩
    · exact ⟨_, stm32_commit_locked hl⟩
  | avr =>
    by_cases hp : p.addr = 0
    · exact ⟨_, avr_commit_zero hp⟩
    · cases hl : AvrFlash.Flash.flashLocked f with
      | true =>
        obtain ⟨temp, hc⟩ : ∃ temp, commitWrites devId p f = some (_, []) :=
          avr_commit_locked hl hp halign
        exact ⟨_, hc⟩
      | false => exact ⟨_, avr_commit hl hp halign⟩

/-- Between two messages, if no timeout has come. -/
structure Settled (c : Core t.backend) : Prop where
  pc : c.pc = .loopTest
  locked : c.state = .idle ∨ c.state = .locked → t.backend.flash.locked c.flash = true
  unlocked : c.state = .unlocked → t.backend.flash.locked c.flash = false
  aligned : c.selPage.addr.toNat % t.pageSize = 0

theorem settled_start (flash : ResetFlash t.backend) : Settled (start flash).1 where
  pc := rfl
  locked _ := t.backend.lockRespected.reset _ flash.2
  unlocked h := by cases h
  aligned := Nat.zero_mod _

theorem Settled.handler {pc : Pc} (hs : Settled c) (hd : c.state ≠ .done)
    (h : Handler devId c pc c' outs) : Settled c' := by
  have hpc : c'.pc = .loopTest := h.pc_eq.trans hs.pc
  cases h with
  | progReqFirst hidle => exact ⟨hpc, fun _ => hs.locked (.inl hidle), by simp, hs.aligned⟩
  | unlockTrue _ hu => exact ⟨hpc, by simp, fun _ => t.unlockLasts.unlock_done _ hu, hs.aligned⟩
  | unlockFalse hlocked hu =>
    have hl := t.backend.lockRespected.unlock_refused _ (hs.locked (.inr hlocked)) hu
    exact ⟨hpc, fun _ => hl, by simp [hlocked], hs.aligned⟩
  | unlockAgain hstate =>
    have hunlocked : c.state = .unlocked := hstate.resolve_right hd
    exact ⟨hpc, by simp, fun _ => hs.unlocked hunlocked, hs.aligned⟩
  | selectPage data =>
    refine ⟨hpc, hs.locked, hs.unlocked, ?_⟩
    have haddr : (selectPage devId data c.selPage).1.addr = _ ∨ _ := selectPage_addr data c.selPage
    rcases haddr with haddr | ⟨halign, _⟩
    · rw [haddr]
      exact hs.aligned
    · exact halign
  | seek data => exact ⟨hpc, hs.locked, hs.unlocked, by rw [seek_addr]; exact hs.aligned⟩
  | write data => exact ⟨hpc, hs.locked, hs.unlocked, by rw [write_addr]; exact hs.aligned⟩
  | commit f o hunlocked hc =>
    have hl := commitWrites_unlocked t.unlockLasts (hs.unlocked hunlocked) hc
    exact ⟨hpc, by simp [hunlocked], fun _ => hl, hs.aligned⟩
  | progDone => exact ⟨hpc, by simp, by simp, hs.aligned⟩
  | _ => exact hs

/-- Every message can be served. -/
theorem Settled.serves (hs : Settled c) (m : Msg) :
    ∃ c' outs, Handler devId c (dispatch m) c' outs :=
  handler_total (dispatch_entry m) fun _ _ => commit_total hs.aligned _

theorem settled_serveAll (ms : List Msg) : ∀ {s s' : Served t.backend}, Settled s.1 →
    AliveFor devId s ms → serveAll devId s ms = some s' → Settled s'.1 := by
  induction ms with
  | nil =>
    intro s s' hs _ h
    cases h
    exact hs
  | cons m ms ih =>
    intro s s' hs halive h
    obtain ⟨hd, halive⟩ := aliveFor_cons.mp halive
    rw [serveAll_cons, Option.bind_eq_some_iff] at h
    obtain ⟨s₁, hserve, hrest⟩ := h
    obtain ⟨c, o, hh, rfl⟩ := serve_handler hs.pc hserve
    exact ih (hs.handler hd hh) (halive _ hserve) hrest

end Settled

end CANnuccia.Pump

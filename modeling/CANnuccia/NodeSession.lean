import CANnuccia.Replay

/-!
# A programming session from the bus to the flash

The frames of a session that an STM32 device stores program its pages, and its answers
come onto the bus.
-/
namespace CANnuccia.Stm32Node

open Util CanMsgs BxCan
open Stm32Can (Mailbox)
open Pump (Dev Event ResetFlash frame session answers Programmed Job)
open Observed (Output handled emitted)
open Mealy (Machine Transition Run outputs)

variable {devId : U8} {flash : ResetFlash stm32} {filter : Nat → U32 × U32} {ports : Port → U32}
variable {inMsgData : Nat → U8} {tr : List Trans} {s : Node}

/-- The timeout does not come before a PROG_REQ stopped the timer. -/
def TimelyProgReq (tr : List Trans) : Prop :=
  ∀ l x r, tr = l ++ x :: r → .event .onTimeout ∈ x.outs → .event .cnTimerStop ∈ outputs l

theorem TimelyProgReq.init {l r : List Trans} (h : TimelyProgReq (l ++ r)) : TimelyProgReq l := by
  rintro l' x r' rfl
  exact h l' x (r' ++ r) (by simp)

theorem mem_emitted {e : Event} : e ∈ emitted tr ↔ .event e ∈ outputs tr := by
  rw [emitted, List.mem_filterMap]
  constructor
  · rintro ⟨o, ho, he⟩
    cases o with
    | event e' =>
      cases he
      exact ho
    | _ => cases he
  · exact fun h => ⟨_, h, rfl⟩

theorem mem_events {e : Event} {outs : List Event} :
    (.event e : Out) ∈ outs.map Output.event ↔ e ∈ outs :=
  List.mem_map_of_injective fun _ _ => Output.event.inj

/-- The timeout comes with the interrupt. -/
theorem stepped_onTimeout {s' : Node} {x : Input} {outs : List Out}
    (h : Stepped devId s x s' outs) (ht : .event .onTimeout ∈ outs) :
    ∃ d o, Pump.step stm32 devId s.dev .irq = some (d, o) ∧ .onTimeout ∈ o := by
  cases h with
  | main _ _ hstep => cases Pump.moved_onTimeout (Pump.step_moved hstep) (mem_events.mp ht)
  | timer hi hstep =>
    have hmem := mem_events.mp ht
    obtain rfl := Pump.moved_onTimeout (Pump.step_moved hstep) hmem
    exact ⟨_, _, hstep, hmem⟩
  | recvReturns _ _ hstep =>
    obtain rfl := recv_quiet hstep
    simp at ht
  | move _ =>
    obtain ⟨e, _, he⟩ := List.mem_map.mp ht
    cases he
  | _ => simp at ht

theorem timely_never (h : .event .onTimeout ∉ outputs tr) : TimelyProgReq tr := by
  rintro l x r rfl hx
  exact absurd (List.mem_flatMap.mpr ⟨x, by simp, hx⟩) h

theorem TimelyProgReq.no_timeout (htimely : TimelyProgReq tr)
    (h : Run (step devId) (boot devId flash filter ports inMsgData) tr s) :
    .onTimeout ∉ emitted tr := by
  intro hout
  obtain ⟨x, hx, htx⟩ := List.mem_flatMap.mp (mem_emitted.mp hout)
  obtain ⟨l, r, hlr, hl, hstep⟩ := h.of_mem hx
  obtain ⟨d, o, hirq, ht⟩ := stepped_onTimeout (step_stepped hstep) htx
  obtain ⟨tr', hrun, _, houtputs⟩ := runs_pump hl
  have hstop : .cnTimerStop ∈ outputs tr' := by
    rw [houtputs]
    exact mem_emitted.mpr (htimely l x r hlr htx)
  exact ((Pump.stop_over hrun hstop).moved (Pump.step_moved hirq)).2 rfl

theorem timer_pc {d d' : Dev stm32} {i : Pump.Input} {x : Input} {outs : List Event}
    (hi : (x, i) = (.expire, .expire) ∨ (x, i) = (.irq, .irq))
    (h : Pump.step stm32 devId d i = some (d', outs)) : d'.pc = d.pc := by
  rcases hi with hi | hi <;> cases hi <;> cases Pump.step_moved h <;> rfl

theorem jump_idle (h : Run (step devId) (boot devId flash filter ports inMsgData) tr s) :
    s.dev.pc = .jump → s.running = .idle := by
  refine h.invariant (I := fun _ s => s.dev.pc = .jump → s.running = .idle)
    (by simp [boot, Pump.boot]) ?_
  intro tr s i s' outs _ hI hstep hpc
  cases step_stepped hstep with
  | @main d o hrun _ hmain =>
    cases Pump.step_moved hmain with
    | main hmove _ => cases hmove <;> simp_all [calls]
  | recv hrun hrecv => simp_all
  | initGoes hrun _ | initReturns hrun _ | recvGoes hrun _ | sendGoes hrun _
  | sendReturns hrun _ | recvReturns hrun _ _ => simp_all
  | timer hi hmain => exact hI ((timer_pc hi hmain).symm.trans hpc)
  | move _ => exact hI hpc

/-- The answers among what the device emits, as they come onto the bus. -/
def answerFrames (outs : List Event) : List Msg :=
  (outs.filterMap sends).map fun a => frame a.1 a.2

/-- All calls are made and none has failed. -/
theorem answered_all (hidle : s.running = .idle) (hcalls : Calls tr s)
    (hsent : ∀ id data r, .sent id data r ∈ outputs tr → 0 ≤ r) :
    answered tr = answerFrames (emitted tr) := by
  have hnone : s.running.call = [] := by
    rw [hidle]
    rfl
  rw [answerFrames, ← hcalls, hnone, List.append_nil, List.map_filterMap, answered]
  refine List.filterMap_congr fun o ho => ?_
  cases o with
  | sent id data r => exact if_pos (hsent id data r ho)
  | _ => rfl

/-- At the jump, a run of the pump that was given a session has programmed it. -/
theorem session_jump {tr : List (Pump.Trans stm32)} {d : Dev stm32} (hlock : flash.1.lock = .locked)
    (jobs : List Job) (h : Run (Pump.step stm32 devId) (Pump.boot flash) tr d) (hpc : d.pc = .jump)
    (hno : .onTimeout ∉ outputs tr) (hms : Pump.received tr = session devId jobs) :
    outputs tr = answers devId jobs ∧
    Programmed jobs (stm32.flash.contents flash.1) (stm32.flash.contents d.flash) ∧
    d.flash.lock = .locked ∧ d.flash.pg = false ∧ d.flash.per = false := by
  obtain ⟨page, f, hserve, hdone⟩ := Pump.serve_session devId flash hlock jobs
  obtain ⟨served, hserved, _, hflash⟩ := Pump.jump_serves h hno hpc
  rw [hms, hserve, Option.some.injEq, Prod.mk.injEq] at hserved
  obtain ⟨rfl, houts⟩ := hserved
  have hend : d.flash = { f with lock := .locked } :=
    hflash.trans (Stm32Flash.lock_unlocked hdone.lock)
  have hmem : stm32.flash.contents d.flash = Overlay.overlays flash.1.mem (jobs.map Job.entry) := by
    rw [hend]
    exact hdone.mem
  rw [hmem, hend]
  exact ⟨houts.symm, Pump.programmed_overlays jobs flash.1.mem, rfl, hdone.pg, hdone.per⟩

/-- A device that stored the frames of a session, overran none and did not time out before
PROG_REQ has read them all when it jumps to the program. -/
theorem session_handled (jobs : List Job)
    (h : Run (step devId) (boot devId flash filter ports inMsgData) tr s)
    (hframes : (stored tr).map messageOf = session devId jobs) (hover : overruns tr = 0)
    (htimely : TimelyProgReq tr) (hpc : s.dev.pc = .jump) :
    s.can.fifo.items = [] ∧ ∃ tr', Run (Pump.step stm32 devId) (Pump.boot flash) tr' s.dev ∧
      Pump.received tr' = session devId jobs ∧ outputs tr' = emitted tr ∧
      .onTimeout ∉ outputs tr' := by
  obtain ⟨tr', hrun, hhandled, houtputs⟩ := runs_pump h
  obtain ⟨left, hleft, haccounts⟩ := (traffics_run h).received
  have hreceived : Pump.received tr' = left.map messageOf := hhandled.trans hleft.symm
  have hno : .onTimeout ∉ outputs tr' := by
    rw [houtputs]
    exact htimely.no_timeout h
  rw [hover] at haccounts
  have hall : left.map messageOf ++ s.can.fifo.items.map messageOf = session devId jobs := by
    rw [← List.map_append, haccounts.complete, hframes]
  have hempty : s.can.fifo.items = [] := by
    cases hitems : s.can.fifo.items with
    | nil => rfl
    | cons m rest =>
      obtain ⟨served, hserved, hdone, _⟩ := Pump.jump_serves hrun hno hpc
      rw [hreceived] at hserved
      rw [hitems] at hall
      exact absurd hdone (Pump.session_alive flash jobs _ _ _ hall.symm _ hserved)
  refine ⟨hempty, tr', hrun, ?_, houtputs, hno⟩
  rw [hreceived, ← hall, hempty]
  simp

/-- A device with a working key lock has stored the frames of a session, overrun none and
not timed out before PROG_REQ. When it jumps to the program it has read all of them, the
flash holds the pages and is locked. If no call of `cnCANSend` failed, every answer is
pending or was transmitted, once. -/
theorem frames_program (hlock : flash.1.lock = .locked) (jobs : List Job)
    (h : Run (step devId) (boot devId flash filter ports inMsgData) tr s)
    (hframes : (stored tr).map messageOf = session devId jobs) (hover : overruns tr = 0)
    (htimely : TimelyProgReq tr) (hpc : s.dev.pc = .jump) :
    emitted tr = answers devId jobs ∧ s.can.fifo.items = [] ∧
    Programmed jobs (stm32.flash.contents flash.1) (stm32.flash.contents s.dev.flash) ∧
    s.dev.flash.lock = .locked ∧ s.dev.flash.pg = false ∧ s.dev.flash.per = false ∧
    ((∀ id data r, .sent id data r ∈ outputs tr → 0 ≤ r) →
      (answerFrames (answers devId jobs)).Perm
        ((transmitted tr ++ pending s.can).map fun m => messageOf (Stm32Can.onBus m))) := by
  have hI := traffics_run h
  obtain ⟨hempty, tr', hrun, hmessages, houtputs, hno⟩ :=
    session_handled jobs h hframes hover htimely hpc
  obtain ⟨houts, hprogrammed, hlocked, hpg, hper⟩ :=
    session_jump hlock jobs hrun hpc hno hmessages
  have hemitted : emitted tr = answers devId jobs := houtputs.symm.trans houts
  refine ⟨hemitted, hempty, hprogrammed, hlocked, hpg, hper, fun hsent => ?_⟩
  have hperm := hI.kept.map fun m => messageOf (Stm32Can.onBus m)
  rw [← answered_placed hI, answered_all (jump_idle h hpc) hI.calls hsent, hemitted] at hperm
  exact hperm

/-- A device that is sent a session with one page. -/
theorem uniform_run : ∃ (tr : List Trans) (s : Node), Run (step 42) nodeStart tr s ∧
    (stored tr).map messageOf = session 42 [Pump.uniformJob 0xA5] ∧ overruns tr = 0 ∧
    TimelyProgReq tr ∧ s.dev.pc = .jump ∧
    ∀ x ∈ tr, ∀ m, x.input = .move (.arrive m) → Listening x.pre := by
  obtain ⟨tr, s, hrun, houts, hrest, hdev, hstarting⟩ := started
  obtain ⟨tr', d, hrun', hpc, hms, hanswers⟩ :=
    session_run 42 Pump.stm32Fresh rfl [Pump.uniformJob 0xA5]
  rw [← hdev] at hrun'
  obtain ⟨tr'', s', hreplays, _, rfl⟩ := replay_run hrest hrun' fun m hm =>
    session_accepts 42 [Pump.uniformJob 0xA5] m (hms ▸ hm)
  have hstart : Replays 42 nodeStart [] [] tr s :=
    .of_outputs hrun houts rfl (by simp) rfl (by simp)
  have hreplayed := hstart.append hreplays
  refine ⟨tr ++ tr'', s', hreplayed.run, hreplayed.stored.trans hms, hreplayed.overruns,
    ?_, hpc, ?_⟩
  · refine timely_never fun hout => ?_
    rw [← mem_emitted, hreplayed.emitted, List.nil_append, hanswers] at hout
    simp [answers, Pump.Job.replies, Pump.reply] at hout
  · intro x hx m hm
    rcases List.mem_append.mp hx with hx | hx
    · have hstart := hstarting x hx
      simp [Starting, hm] at hstart
    · exact listening_run hreplays.run (by simp [Listening, hrest.idle]) x hx

theorem frames_program_uniform : ∃ (tr : List Trans) (s : Node), Run (step 42) nodeStart tr s ∧
    (stored tr).map messageOf = session 42 [Pump.uniformJob 0xA5] ∧
    emitted tr = answers 42 [Pump.uniformJob 0xA5] ∧
    Programmed [Pump.uniformJob 0xA5] (fun _ => 0xFF#8) (stm32.flash.contents s.dev.flash) ∧
    s.dev.flash.lock = .locked := by
  obtain ⟨tr, s, hrun, hframes, hover, htimely, hpc, _⟩ := uniform_run
  obtain ⟨hemitted, _, hprogrammed, hlocked, _⟩ :=
    frames_program rfl [Pump.uniformJob 0xA5] hrun hframes hover htimely hpc
  exact ⟨tr, s, hrun, hframes, hemitted, hprogrammed, hlocked⟩

end CANnuccia.Stm32Node

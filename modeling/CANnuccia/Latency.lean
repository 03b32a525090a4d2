import CANnuccia.Handlers
import CANnuccia.NodeSession
import CANnuccia.Pace

/-!
# How often the controller is polled

After `cnCANInit` neither `main` nor the CAN driver waits for anything but the flash:
whatever comes from the bus and from the timer, `main` calls `cnCANRecv` again and again, or
leaves for the program. Only the CAN driver is cut at its accesses. A call of the flash
driver or of the timer driver is in one step of `main`, and so is the loop of a handler;
such a step takes its time, in which the bus goes on.
-/
namespace CANnuccia.Pump

open Util CanMsgs
open Mealy (Machine Transition Run outputs)

variable {B : Backend} {devId : U8} {c : Nat}

/-- The steps of `main` up to the next call of `cnCANRecv` or the jump, with the one call of
`cnCANSend` that may come before, which takes `c`. -/
def Pc.rest (c : Nat) : Pc → Nat
  | .recv | .jump => 0
  | .flashLock => 1
  | .loopTest => 2
  | .stateIdle | .progDoneSet => 3
  | .timerStart => 4
  | pc => pc.left + c + 2

theorem rest_le (pc : Pc) : pc.rest c ≤ c + 7 := by
  cases pc <;> simp [Pc.rest, Pc.left] <;> omega

theorem rest_move {a a' : Core B} {outs : List Event} (h : Move devId a a' outs) :
    a'.pc.rest c + 1 ≤ a.pc.rest c := by
  cases h <;> simp_all [Pc.rest, Pc.left] <;> omega

theorem rest_sends {a a' : Core B} {outs : List Event} {id : U32} {data : List U8}
    (h : Move devId a a' outs) (he : .send id data ∈ outs) :
    a'.pc.rest c + 1 + c ≤ a.pc.rest c := by
  cases h <;> simp_all [Pc.rest, Pc.left] <;> omega

variable {t : Target} {flash : ResetFlash t.backend} {tr : List (Trans t.backend)}
variable {d : Dev t.backend}

/-- Outside of `cnCANRecv` there is always a next step. -/
theorem main_total (h : Run (step t.backend devId) (boot flash) tr d) (hrecv : d.pc ≠ .recv)
    (hjump : d.pc ≠ .jump) : ∃ r, step t.backend devId d .main = some r := by
  have hmain : ∃ r, mainStep devId d.toCore = some r := by
    cases hpc : d.pc with
    | recv => exact absurd hpc hrecv
    | jump => exact absurd hpc hjump
    | commitWrites =>
      obtain ⟨r, hr⟩ : ∃ r, commitWrites devId d.selPage d.flash = some r :=
        commit_total (selected_run h).aligned d.flash
      refine ⟨(⟨.loopTest, d.state, d.selPage, r.1⟩, r.2), ?_⟩
      simp only [mainStep, hpc, hr, Option.bind_eq_bind, Option.bind_some]
    | _ => exact ⟨_, by rw [mainStep, hpc]⟩
  have htimer : ∃ t', callTimer d.pc d.timer = some t' := by
    by_cases hstart : d.pc = .timerStart
    · cases timerPhase_run h with
      | before _ _ hreset =>
        obtain ⟨t', ht, _⟩ := t.backend.oneShot.start_armed
        exact ⟨t', by rw [hstart, hreset, callTimer, ht]; rfl⟩
      | running _ hrun => exact absurd hstart hrun.started
      | ended hover => exact absurd hstart hover.started
    · exact callTimer_some hstart d.timer
  obtain ⟨⟨a, outs⟩, hmain⟩ := hmain
  obtain ⟨t', htimer⟩ := htimer
  exact ⟨(⟨a, t'⟩, outs), by simp only [step, hmain, htimer, Option.bind_eq_bind,
    Option.bind_some]⟩

end CANnuccia.Pump

namespace CANnuccia.Stm32Node

open Util CanMsgs BxCan
open Pump (Event ResetFlash)
open Observed (Output handled emitted)
open Mealy (Machine Transition Run TimedInput clock outputs timeless total untimed)

variable {devId : U8}

theorem unpackFrom_within (n : Nat) : (unpackFrom n).Within n := by
  induction n with
  | zero => trivial
  | succ n ih =>
    have hcase : (unpackCase (n + 1)).Within 1 := by
      unfold unpackCase
      split <;> first | trivial | exact fun _ => trivial
    have hall : (unpackFrom (n + 1)).Within (1 + n) := by
      refine hcase.bind fun first => ?_
      exact Mmio.Within.bind (m := 0) ih fun rest => trivial
    exact hall.le (by omega)

theorem at_most_eight (len : U32) : (if len ≤ 8 then len.toNat else 8) ≤ 8 := by
  split
  · rename_i h
    exact h
  · exact le_rfl

theorem recv_within (maxLen : U32) : (cnCANRecv maxLen).Within 13 := by
  refine Mmio.Within.bind (n := 1) (m := 12) (fun _ => trivial) fun rf0r => ?_
  split
  · trivial
  · have hfetch : (fetch maxLen).Within 10 := by
      refine Mmio.Within.bind (n := 1) (m := 9) (fun _ => trivial) fun ir => ?_
      refine Mmio.Within.bind (n := 1) (m := 8) (fun _ => trivial) fun dtr => ?_
      refine Mmio.Within.bind (n := 8) (m := 0) ((unpackFrom_within _).le ?_) fun data => trivial
      exact at_most_eight _
    exact hfetch.bind (m := 2) fun r _ => trivial

theorem packFrom_within (n : Nat) (data : Nat → U8) (i : Nat) :
    (packFrom n data i).Within (2 * i) := by
  induction i with
  | zero => trivial
  | succ i ih =>
    have hcase : (packCase n data (i + 1)).Within 2 := by
      unfold packCase
      split <;> first | trivial | exact fun _ => trivial
    rw [Nat.mul_succ, Nat.add_comm]
    exact hcase.bind fun _ => ih

theorem fill_within (n : Nat) (data : Nat → U8) (id len : U32) :
    (fill n data id len).Within 22 := by
  refine Mmio.Within.bind (n := 1) (m := 21) trivial fun _ => ?_
  refine Mmio.Within.bind (n := 1) (m := 20) trivial fun _ => ?_
  refine Mmio.Within.bind (n := 1) (m := 19) trivial fun _ => ?_
  refine Mmio.Within.bind (n := 1) (m := 18) trivial fun _ => ?_
  refine Mmio.Within.bind (n := 16) (m := 2) ?_ fun _ _ => trivial
  refine (packFrom_within n data _).le ?_
  have hlen : (if len ≤ 8 then len else 8).toNat ≤ 8 := by
    split
    · rename_i h
      exact h
    · exact le_rfl
  omega

theorem send_within (id len : U32) (data : Nat → U8) :
    (cnCANSend id len data).Within 24 := by
  refine Mmio.Within.bind (n := 1) (m := 23) (fun _ => trivial) fun tsr => ?_
  split
  · trivial
  · refine Mmio.Within.bind (n := 1) (m := 22) (fun _ => trivial) fun tsr => ?_
    exact fill_within _ data id len

/-- A step of the program: an access of the CAN driver, or what `main` does outside of it in
one go. -/
def Input.own : Input → Bool
  | .main | .access => true
  | _ => false

def Out.isReceived : Out → Bool
  | .received _ => true
  | _ => false

def ownStep (t : Trans) : Nat := if t.input.own then 1 else 0

@[simp] theorem ownStep_main {s s' : Node} {outs : List Out} :
    ownStep ⟨s, .main, outs, s'⟩ = 1 := rfl
@[simp] theorem ownStep_access {s s' : Node} {outs : List Out} :
    ownStep ⟨s, .access, outs, s'⟩ = 1 := rfl

/-- How often `cnCANRecv` has returned. -/
def returns (t : Trans) : Nat := t.outs.countP Out.isReceived

/-- At most `n` steps are left until `cnCANRecv` has returned. -/
inductive Due (n : Nat) (s : Node) : Prop where
  | idle : s.running = .idle → s.dev.pc.rest 24 + 14 ≤ n → Due n s
  | recv {p : Mmio Reg Fetched} : s.running = .recv p → s.dev.pc = .recv → p.returned = none →
      p.Within n → Due n s
  | send {id : U32} {data : List U8} {p : Mmio Reg Int} {k : Nat} :
      s.running = .send id data p → p.returned = none → p.Within k →
      k + s.dev.pc.rest 24 + 14 ≤ n → Due n s

theorem returns_received {s s' : Node} {x : Input} {m : Option Msg} {outs : List Out} :
    1 ≤ returns ⟨s, x, .received m :: outs, s'⟩ := by
  simp [returns, Out.isReceived]

theorem calls_cases (outs : List Event) : calls outs = .idle ∨
    ∃ id data, .send id data ∈ outs ∧ calls outs = .send id data (sending id data) := by
  induction outs with
  | nil => exact .inl rfl
  | cons e outs ih =>
    cases e with
    | send id data => exact .inr ⟨id, data, by simp, rfl⟩
    | _ =>
      rcases ih with ih | ⟨id, data, hmem, ih⟩
      · exact .inl ih
      · exact .inr ⟨id, data, by simp [hmem], ih⟩

variable {n : Nat} {s s' : Node} {x : Input} {outs : List Out}

theorem due_step (h : Due n s) (hs : Stepped devId s x s' outs) : ∃ n', Due n' s' ∧
    ownStep ⟨s, x, outs, s'⟩ + n' ≤ n + 45 * returns ⟨s, x, outs, s'⟩ := by
  cases hs with
  | @main d o hidle hpc hstep =>
    cases h with
    | recv hrun _ _ _ | send hrun _ _ _ => simp [hidle] at hrun
    | idle _ hn =>
      cases Pump.step_moved hstep with
      | @main a _ _ hmove _ =>
        have hrest := Pump.rest_move (c := 24) hmove
        rcases calls_cases o with hcalls | ⟨id, data, hmem, hcalls⟩
        · refine ⟨a.pc.rest 24 + 14, .idle hcalls le_rfl, ?_⟩
          rw [ownStep_main]
          omega
        · have hsends := Pump.rest_sends (c := 24) hmove hmem
          refine ⟨24 + a.pc.rest 24 + 14, .send hcalls rfl (send_within _ _ _) le_rfl, ?_⟩
          rw [ownStep_main]
          omega
  | recv hidle hpc =>
    cases h with
    | recv hrun _ _ _ | send hrun _ _ _ => simp [hidle] at hrun
    | idle _ hn =>
      refine ⟨13, .recv rfl hpc rfl (recv_within 8), ?_⟩
      rw [ownStep_main]
      omega
  | initGoes hrun _ | initReturns hrun _ =>
    cases h with
    | idle hrun' _ | recv hrun' _ _ _ | send hrun' _ _ _ => simp [hrun] at hrun'
  | @recvGoes p hrun hgoes =>
    cases h with
    | idle hrun' _ | send hrun' _ _ _ => simp [hrun] at hrun'
    | recv hrun' hpc hnot hwithin =>
      cases hrun.symm.trans hrun'
      obtain ⟨k, rfl, hk⟩ := hwithin.step device hnot s.can
      refine ⟨k, .recv rfl hpc hgoes hk, ?_⟩
      rw [ownStep_access]
      omega
  | @recvReturns p r d o hrun hret hstep =>
    cases h with
    | idle hrun' _ | send hrun' _ _ _ => simp [hrun] at hrun'
    | recv hrun' hpc hnot hwithin =>
      cases hrun.symm.trans hrun'
      obtain ⟨k, rfl, hk⟩ := hwithin.step device hnot s.can
      refine ⟨d.pc.rest 24 + 14, .idle rfl le_rfl, ?_⟩
      have hrest := Pump.rest_le (c := 24) d.pc
      have hreturns : 1 ≤ returns ⟨s, .access, .received (message r (written r.data s.inMsgData)) ::
          o.map .event, ⟨d, written r.data s.inMsgData, .idle, (p.step device s.can).2⟩⟩ :=
        returns_received
      rw [ownStep_access]
      omega
  | @sendGoes id data p hrun hgoes =>
    cases h with
    | idle hrun' _ | recv hrun' _ _ _ => simp [hrun] at hrun'
    | send hrun' hnot hwithin hn =>
      cases hrun.symm.trans hrun'
      obtain ⟨k, rfl, hk⟩ := hwithin.step device hnot s.can
      refine ⟨k + s.dev.pc.rest 24 + 14, .send rfl hgoes hk le_rfl, ?_⟩
      rw [ownStep_access]
      omega
  | @sendReturns id data p r hrun hret =>
    cases h with
    | idle hrun' _ | recv hrun' _ _ _ => simp [hrun] at hrun'
    | send hrun' hnot hwithin hn =>
      cases hrun.symm.trans hrun'
      obtain ⟨k, rfl, hk⟩ := hwithin.step device hnot s.can
      refine ⟨s.dev.pc.rest 24 + 14, .idle rfl le_rfl, ?_⟩
      rw [ownStep_access]
      omega
  | @timer i x d o hi hstep =>
    have hpc := timer_pc hi hstep
    refine ⟨n, ?_, ?_⟩
    · cases h with
      | idle hrun hn => exact .idle hrun (by rw [hpc]; exact hn)
      | recv hrun hrecv hnot hwithin => exact .recv hrun (hpc.trans hrecv) hnot hwithin
      | send hrun hnot hwithin hn => exact .send hrun hnot hwithin (by rw [hpc]; exact hn)
    · rcases hi with hi | hi <;> cases hi <;> simp [ownStep, Input.own]
  | move _ =>
    refine ⟨n, ?_, by simp [ownStep, Input.own]⟩
    cases h with
    | idle hrun hn => exact .idle hrun hn
    | recv hrun hrecv hnot hwithin => exact .recv hrun hrecv hnot hwithin
    | send hrun hnot hwithin hn => exact .send hrun hnot hwithin hn

variable {flash : ResetFlash stm32} {filter : Nat → U32 × U32} {ports : Port → U32}
variable {inMsgData : Nat → U8} {tr l : List Trans}

theorem Due.le {m : Nat} (h : Due n s) (hn : n ≤ m) : Due m s := by
  cases h with
  | idle hrun hle => exact .idle hrun (hle.trans hn)
  | recv hrun hpc hnot hwithin => exact .recv hrun hpc hnot (hwithin.le hn)
  | send hrun hnot hwithin hle => exact .send hrun hnot hwithin (hle.trans hn)

theorem due_idle (h : s.running = .idle) : Due 45 s := by
  have hrest := Pump.rest_le (c := 24) s.dev.pc
  exact .idle h (by omega)

theorem Due.receiving (h : Due n s) {p : Mmio Reg Fetched} (hrun : s.running = .recv p) :
    s.dev.pc = .recv := by
  cases h with
  | idle hrun' _ | send hrun' _ _ _ => simp [hrun] at hrun'
  | recv _ hpc _ _ => exact hpc

theorem Due.pos (h : Due n s) : 0 < n := by
  cases h with
  | idle _ hn | send _ _ _ hn => omega
  | recv _ _ hnot hwithin =>
    obtain ⟨j, rfl, _⟩ := hwithin.step device hnot s.can
    exact Nat.succ_pos j

theorem returns_events (o : List Event) : (o.map Output.event).countP Out.isReceived = 0 := by
  rw [List.countP_map]
  exact List.countP_eq_zero.mpr fun _ _ => Bool.false_ne_true

theorem returns_traffic (l : List Traffic) :
    (l.map Output.traffic).countP Out.isReceived = 0 := by
  rw [List.countP_map]
  exact List.countP_eq_zero.mpr fun _ _ => Bool.false_ne_true

/-- A call of `cnCANRecv` that returns leaves `main` outside of the driver. -/
theorem returns_access (hs : Stepped devId s x s' outs) :
    s'.running = .idle ∧ x = .access ∨ returns ⟨s, x, outs, s'⟩ = 0 := by
  cases hs with
  | main _ _ _ | timer _ _ => exact .inr (returns_events _)
  | recvReturns _ _ _ => exact .inl ⟨rfl, rfl⟩
  | move _ => exact .inr (returns_traffic _)
  | _ => exact .inr rfl

/-- At any moment after `cnCANInit`. -/
theorem due_run (h : Run (step devId) (boot devId flash filter ports inMsgData) tr s) :
    Listening s → Due 45 s := by
  refine h.invariant (I := fun _ s => Listening s → Due 45 s) (fun hl => absurd rfl (hl _)) ?_
  intro tr s x s' outs _ hI hstep hl'
  have hs := step_stepped hstep
  by_cases hl : Listening s
  · obtain ⟨n', hdue, hn⟩ := due_step (hI hl) hs
    rcases returns_access hs with ⟨hidle, _⟩ | hzero
    · exact due_idle hidle
    · rw [hzero] at hn
      exact hdue.le (by omega)
  · obtain ⟨p, hrun⟩ : ∃ p, s.running = .init p := by
      simpa [Listening] using hl
    cases hs with
    | initReturns _ _ => exact due_idle rfl
    | initGoes _ _ => exact absurd rfl (hl' _)
    | timer _ _ | move _ => exact absurd hrun (hl' p)
    | main hrun' _ _ | recv hrun' _ | recvGoes hrun' _ | recvReturns hrun' _ _ | sendGoes hrun' _
    | sendReturns hrun' _ => simp [hrun] at hrun'

/-- The program can go on until it jumps. -/
theorem own_total (h : Run (step devId) (boot devId flash filter ports inMsgData) tr s)
    (hl : Listening s) (hpc : s.dev.pc ≠ .jump) :
    ∃ x, x.own = true ∧ (step devId s x).isSome = true := by
  cases due_run h hl with
  | idle hrun _ =>
    refine ⟨.main, rfl, ?_⟩
    by_cases hrecv : s.dev.pc = .recv
    · simp only [step, hrun, if_pos hrecv]
      rfl
    · obtain ⟨ptr, hptr, _⟩ := runs_pump h
      have htotal : ∃ r, Pump.step stm32 devId s.dev .main = some r :=
        Pump.main_total (t := .stm32) hptr hrecv hpc
      obtain ⟨r, hr⟩ := htotal
      simp only [step, hrun, if_neg hrecv, hr]
      rfl
  | @recv p hrun hrecv _ _ =>
    refine ⟨.access, rfl, ?_⟩
    have hreceives : ∀ m, (Pump.step stm32 devId s.dev (.recv m)).isSome = true := by
      intro m
      cases m <;> simp [Pump.step, hrecv]
    cases hret : (p.step device s.can).1.returned with
    | none =>
      simp only [step, hrun, hret]
      rfl
    | some r =>
      simp only [step, hrun, hret, Option.isSome_map]
      exact hreceives _
  | @send id data p k hrun _ _ _ =>
    refine ⟨.access, rfl, ?_⟩
    cases hret : (p.step device s.can).1.returned <;> simp only [step, hrun, hret] <;> rfl

/-- How long the program's steps take at most, in some unit of time: `step`, and `flash`
more where a page is erased and written. -/
structure Speed where
  step : Nat
  flash : Nat
  positive : 0 < step

variable {v : Speed}

def Speed.limit (v : Speed) (s : Node) (x : Input) : Nat :=
  if x = .main ∧ s.dev.pc = .commitWrites then v.step + v.flash else v.step

theorem limit_pos (s : Node) (x : Input) : 0 < v.limit s x := by
  have hpos := v.positive
  rw [Speed.limit]
  split <;> omega

/-- The time that `main` takes for a round, at most. -/
def Speed.round (v : Speed) : Nat := 45 * v.step + v.flash

abbrev TimedTrans := Transition (Node × Nat) (TimedInput Input) Out

/-- The device on the bus in time. -/
def timedStep (v : Speed) (devId : U8) : Machine (Node × Nat) (TimedInput Input) Out :=
  Mealy.timed (step devId) Input.own v.limit

/-- What is still to come of the time for the flash. -/
def Speed.ahead (v : Speed) (pc : Pump.Pc) : Nat :=
  if pc = .commitTest ∨ pc = .commitWrites then v.flash else 0

theorem ahead_le (pc : Pump.Pc) : v.ahead pc ≤ v.flash := by
  rw [Speed.ahead]
  split <;> omega

theorem ahead_move {a a' : Pump.Core stm32} {outs : List Event} (h : Pump.Move devId a a' outs) :
    (if a.pc = .commitWrites then v.flash else 0) + v.ahead a'.pc ≤ v.ahead a.pc := by
  cases h <;> simp_all [Speed.ahead]

/-- The step that writes the flash uses up its time. -/
theorem ahead_step (hs : Stepped devId s x s' outs) :
    (if x = .main ∧ s.dev.pc = .commitWrites then v.flash else 0) + v.ahead s'.dev.pc ≤
      v.ahead s.dev.pc + v.flash * returns ⟨s, x, outs, s'⟩ := by
  cases hs with
  | main _ _ hstep =>
    cases Pump.step_moved hstep with
    | main hmove _ =>
      have hahead := ahead_move (v := v) hmove
      simp only [true_and]
      omega
  | recv _ hpc => simp [hpc]
  | @recvReturns p r d o _ _ _ =>
    have hle := ahead_le (v := v) d.pc
    have hreturns : 1 ≤ returns ⟨s, .access, .received (message r (written r.data s.inMsgData)) ::
        o.map .event, ⟨d, written r.data s.inMsgData, .idle, (p.step device s.can).2⟩⟩ :=
      returns_received
    have hgain := Nat.mul_le_mul_left v.flash hreturns
    simp only [reduceCtorEq, false_and, if_false]
    omega
  | timer hi hstep =>
    rw [timer_pc hi hstep]
    rcases hi with hi | hi <;> cases hi <;> simp
  | _ => simp

/-- What happens outside of the program leaves it where it is. -/
theorem other_pc (hs : Stepped devId s x s' outs) (hother : x.own = false) :
    s'.dev.pc = s.dev.pc := by
  cases hs with
  | timer hi hstep => exact timer_pc hi hstep
  | move _ => rfl
  | _ => cases hother

/-- At most the time `n` is left until `cnCANRecv` has returned. -/
def DueIn (v : Speed) (n : Nat) (u : Node × Nat) : Prop :=
  ∃ k, Due (k + 1) u.1 ∧ u.2 + k * v.step + v.ahead u.1.dev.pc + 1 ≤ n

variable {t t' : Node × Nat} {i : TimedInput Input}

theorem DueIn.pos (h : DueIn v n t) : 0 < n := by
  obtain ⟨k, _, hn⟩ := h
  omega

theorem DueIn.le {m : Nat} (h : DueIn v n t) (hn : n ≤ m) : DueIn v m t := by
  obtain ⟨k, hdue, hle⟩ := h
  exact ⟨k, hdue, hle.trans hn⟩

/-- A step that took `d` more than one, and after which `main` is outside of the driver. -/
theorem dueIn_idle (h : s.running = .idle) {d : Nat} (hd : d < v.step) :
    DueIn v v.round (s, d) := by
  have hahead := ahead_le (v := v) s.dev.pc
  have hround : d + 44 * v.step + v.ahead s.dev.pc + 1 ≤ v.round := by
    rw [Speed.round]
    omega
  exact ⟨44, due_idle h, hround⟩

theorem limit_access (h : x = .access) : v.limit s x = v.step := by
  rw [Speed.limit, if_neg]
  rintro ⟨hmain, _⟩
  cases h.symm.trans hmain

theorem dueIn_step (h : DueIn v n t) (hn : n ≤ v.round)
    (hs : timedStep v devId t i = some (t', outs)) : ∃ n' ≤ v.round, DueIn v n' t' ∧
      clock Input.own ⟨t, i, outs, t'⟩ + n' ≤
        n + v.round * timeless returns ⟨t, i, outs, t'⟩ := by
  obtain ⟨k, hdue, hk⟩ := h
  cases Mealy.timed_ticked hs with
  | tick s left =>
    have hk' : left + 1 + k * v.step + v.ahead s.dev.pc + 1 ≤ n := hk
    have hless : left + k * v.step + v.ahead s.dev.pc + 1 ≤ n - 1 := by omega
    refine ⟨n - 1, by omega, ⟨k, hdue, hless⟩, ?_⟩
    · have hone : clock Input.own ⟨((s, left + 1) : Node × Nat), TimedInput.tick, ([] : List Out),
          (s, left)⟩ = 1 := rfl
      rw [hone]
      omega
  | @other s s' left x outs hother hstep =>
    have hs := step_stepped hstep
    obtain ⟨n', hdue', hpaid⟩ := due_step hdue hs
    have hzero : returns ⟨s, x, outs, s'⟩ = 0 := by
      rcases returns_access hs with ⟨_, rfl⟩ | hzero
      · cases hother
      · exact hzero
    have hstill : clock Input.own ⟨((s, left) : Node × Nat), .act x 0, outs, (s', left)⟩ = 0 := by
      simp [clock, TimedInput.goes, hother]
    refine ⟨n, hn, ⟨k, hdue'.le ?_, ?_⟩, ?_⟩
    · have hpaid' : ownStep ⟨s, x, outs, s'⟩ + n' ≤ k + 1 + 45 * returns ⟨s, x, outs, s'⟩ := hpaid
      rw [hzero] at hpaid'
      omega
    · rw [other_pc hs hother]
      exact hk
    · omega
  | @own s s' x d outs hown hd hstep =>
    have hs := step_stepped hstep
    have hgoes : clock Input.own ⟨((s, 0) : Node × Nat), .act x d, outs, (s', d)⟩ = 1 := by
      simp [clock, TimedInput.goes, hown]
    have hreturns : timeless returns ⟨((s, 0) : Node × Nat), .act x d, outs, (s', d)⟩ =
        returns ⟨s, x, outs, s'⟩ := rfl
    have hk' : 0 + k * v.step + v.ahead s.dev.pc + 1 ≤ n := hk
    rw [hgoes, hreturns]
    by_cases hzero : returns ⟨s, x, outs, s'⟩ = 0
    · obtain ⟨m, hdue', hpaid⟩ := due_step hdue hs
      have hpos := hdue'.pos
      have hahead := ahead_step (v := v) hs
      have hone : ownStep ⟨s, x, outs, s'⟩ = 1 := if_pos hown
      have hlimit : d + 1 ≤ v.step +
          if x = .main ∧ s.dev.pc = .commitWrites then v.flash else 0 := by
        rw [Speed.limit] at hd
        split_ifs at hd ⊢ <;> omega
      have hpaid' : ownStep ⟨s, x, outs, s'⟩ + m ≤ k + 1 + 45 * returns ⟨s, x, outs, s'⟩ := hpaid
      rw [hzero] at hpaid' hahead
      obtain ⟨j, rfl⟩ : ∃ j, m = j + 1 := ⟨m - 1, by omega⟩
      have hjk : (j + 1) * v.step ≤ k * v.step := Nat.mul_le_mul_right _ (by omega)
      rw [Nat.succ_mul] at hjk
      have hless : 1 + (d + j * v.step + v.ahead s'.dev.pc + 1) ≤ n := by omega
      exact ⟨d + j * v.step + v.ahead s'.dev.pc + 1, by omega, ⟨j, hdue', le_rfl⟩, by omega⟩
    · obtain ⟨hidle, rfl⟩ := (returns_access hs).resolve_right hzero
      have hgain := Nat.mul_le_mul_left v.round (Nat.one_le_iff_ne_zero.mpr hzero)
      rw [limit_access rfl] at hd
      exact ⟨v.round, le_rfl, dueIn_idle hidle hd, by omega⟩

variable {up l : List TimedTrans}

theorem dueIn_run (h : Run (timedStep v devId) (boot devId flash filter ports inMsgData, 0) up t) :
    Listening t.1 → DueIn v v.round t := by
  refine h.invariant (I := fun _ t => Listening t.1 → DueIn v v.round t)
    (fun hl => absurd rfl (hl _)) ?_
  intro up t i t' outs _ hI hstep hl'
  by_cases hl : Listening t.1
  · obtain ⟨n', hn', hdue, _⟩ := dueIn_step (hI hl) le_rfl hstep
    exact hdue.le hn'
  · obtain ⟨p, hrun⟩ : ∃ p, t.1.running = .init p := by
      simpa [Listening] using hl
    cases Mealy.timed_ticked hstep with
    | tick s left => exact absurd hl' hl
    | other hother hstep =>
      cases step_stepped hstep with
      | timer _ _ | move _ => exact absurd hrun (hl' p)
      | _ => cases hother
    | @own s s' x d outs _ hd hstep =>
      have hinit : s.running = .init p := hrun
      cases step_stepped hstep with
      | initReturns _ _ =>
        rw [limit_access rfl] at hd
        exact dueIn_idle rfl hd
      | initGoes _ _ => exact absurd rfl (hl' _)
      | timer _ _ | move _ => exact absurd hrun (hl' p)
      | main hrun' _ _ | recv hrun' _ | recvGoes hrun' _ | recvReturns hrun' _ _
      | sendGoes hrun' _ | sendReturns hrun' _ => simp [hinit] at hrun'

theorem timed_returns (h : Run (timedStep v devId) t l t') (hdue : DueIn v v.round t) :
    total (clock Input.own) l < v.round * (total returns (untimed l) + 1) := by
  let D (n : Nat) (t : Node × Nat) := n ≤ v.round ∧ DueIn v n t
  have hstep : ∀ {n t i t' outs}, D n t → timedStep v devId t i = some (t', outs) →
      ∃ n', D n' t' ∧ clock Input.own ⟨t, i, outs, t'⟩ + n' ≤
        n + v.round * timeless returns ⟨t, i, outs, t'⟩ := by
    rintro n t i t' outs ⟨hn, hdue⟩ hstep
    obtain ⟨n', hn', hdue', hpaid⟩ := dueIn_step hdue hn hstep
    exact ⟨n', ⟨hn', hdue'⟩, hpaid⟩
  obtain ⟨n', ⟨_, hdue'⟩, hpaid⟩ := h.paced (D := D) (clock Input.own)
    (fun t => v.round * timeless returns t) hstep ⟨le_rfl, hdue⟩
  have hpos := hdue'.pos
  rw [Mealy.total_mul, Mealy.total_timeless] at hpaid
  rw [Nat.mul_succ]
  omega

/-- Time can go on until the program jumps. -/
theorem timed_total
    (h : Run (timedStep v devId) (boot devId flash filter ports inMsgData, 0) up t)
    (hl : Listening t.1) (hpc : t.1.dev.pc ≠ .jump) :
    ∃ i : TimedInput Input, i.goes Input.own = true ∧ (timedStep v devId t i).isSome = true := by
  obtain ⟨s, left⟩ := t
  cases left with
  | succ left => exact ⟨.tick, rfl, rfl⟩
  | zero =>
    have hrun : Run (step devId) (boot devId flash filter ports inMsgData) (untimed up) s :=
      h.untimed
    obtain ⟨x, hown, hsome⟩ := own_total hrun hl hpc
    refine ⟨.act x 0, hown, ?_⟩
    have hlimit := limit_pos (v := v) s x
    obtain ⟨r, hr⟩ := Option.isSome_iff_exists.mp hsome
    simp [timedStep, Mealy.timed, hown, hlimit, hr]

/-- After `cnCANInit` the program never hangs: unless it has jumped it goes on, and whatever
comes from the bus and from the timer meanwhile, `cnCANRecv` returns in every round. -/
theorem reads_on (h : Run (timedStep v devId) (boot devId flash filter ports inMsgData, 0) up t)
    (hl : Listening t.1) :
    (t.1.dev.pc ≠ .jump → ∃ i : TimedInput Input, i.goes Input.own = true ∧
      (timedStep v devId t i).isSome = true) ∧
    ∀ l t', Run (timedStep v devId) t l t' →
      total (clock Input.own) l < v.round * (total returns (untimed l) + 1) :=
  ⟨timed_total h hl, fun _ _ hrun => timed_returns hrun (dueIn_run h hl)⟩

/-- A device on which a page takes long. -/
def slowFlash : Speed := ⟨10, 50000, by omega⟩

theorem reads_on_started : ∃ up t, Run (timedStep slowFlash 42) (nodeStart, 0) up t ∧
    t.1.dev.pc = .timerStart ∧
    (∃ i : TimedInput Input, i.goes Input.own = true ∧
      (timedStep slowFlash 42 t i).isSome = true) ∧
    ∀ l t', Run (timedStep slowFlash 42) t l t' →
      total (clock Input.own) l < 50450 * (total returns (untimed l) + 1) := by
  obtain ⟨tr, s, hrun, _, hrest, hdev, _⟩ := started
  obtain ⟨up, hup, _⟩ := hrun.slowly Input.own (limit_pos (v := slowFlash))
  have hlisten : Listening s := by simp [Listening, hrest.idle]
  have hpc : s.dev.pc = .timerStart := by simp [hdev, Pump.boot]
  obtain ⟨hgoes, hbound⟩ := reads_on hup hlisten
  exact ⟨up, _, hup, hpc, hgoes (by simp [hpc]), hbound⟩

end CANnuccia.Stm32Node

import CANnuccia.BxCanInit
import CANnuccia.Observed

/-!
# An STM32 device on the bus

`main` from `cnCANInit` on, with the calls of its CAN driver cut at every access of a
register: between two of them frames arrive and leave, the timer expires and the timeout
comes. What `main` does is what the message pump does.
-/
namespace CANnuccia.Stm32Node

open Util CanMsgs BxCan
open Stm32Can (Mailbox canDtrDlc)
open Pump (Dev Event ResetFlash frame)
open Observed (Output Shows handled emitted)
open Mealy (Machine Transition Run outputs)

/-- A buffer after some writes, in order. -/
def written (writes : List (Nat × U8)) (buffer : Nat → U8) : Nat → U8 :=
  writes.foldl (fun buffer w => Function.update buffer w.1 w.2) buffer

/-- What `main` makes of a call of `cnCANRecv`, with `inMsgData` after it. -/
def message (r : Fetched) (inMsgData : Nat → U8) : Option Msg :=
  if r.ret < 0 then none
  else r.recvId.map fun id => frame id ((List.range r.ret.toNat).map inMsgData)

/-- The payload of a frame, as long as its length code. -/
def payload (m : Mailbox) : List U8 := (List.range (m.dtr &&& canDtrDlc).toNat).map m.byte

/-- The message that a frame is. -/
def messageOf (m : Mailbox) : Msg := frame m.ir (payload m)

/-- The call that `main` is in, with what is left of it. -/
inductive Running where
  | idle
  | init (p : Mmio Reg (Int × Bool))
  | recv (p : Mmio Reg Fetched)
  | send (id : U32) (data : List U8) (p : Mmio Reg Int)

structure Node where
  dev : Dev stm32
  inMsgData : Nat → U8
  running : Running
  can : Controller

/-- `main` makes a step outside of the driver or an access within it, the timer does
something, or the controller does. -/
inductive Input where
  | main
  | access
  | expire
  | irq
  | move (x : Move)
  deriving DecidableEq

abbrev Out := Output Int Traffic

/-- What a payload in `outMsgData` leads to. -/
def pointer (data : List U8) (i : Nat) : U8 := data.getD i 0

def sending (id : U32) (data : List U8) : Mmio Reg Int :=
  cnCANSend id (BitVec.ofNat 32 data.length) (pointer data)

/-- The call that comes with what `main` emits. -/
def calls : List Event → Running
  | [] => .idle
  | .send id data :: _ => .send id data (sending id data)
  | _ :: outs => calls outs

def step (devId : U8) : Machine Node Input Out
  | s, .main =>
    match s.running with
    | .idle =>
      if s.dev.pc = .recv then some ({ s with running := .recv (cnCANRecv 8) }, [])
      else (Pump.step stm32 devId s.dev .main).map fun r =>
        ({ s with dev := r.1, running := calls r.2 }, r.2.map .event)
    | _ => none
  | s, .access =>
    match s.running with
    | .idle => none
    | .init p =>
      let (p, can) := p.step device s.can
      match p.returned with
      | none => some ({ s with running := .init p, can := can }, [])
      | some _ => some ({ s with running := .idle, can := can }, [])
    | .recv p =>
      let (p, can) := p.step device s.can
      match p.returned with
      | none => some ({ s with running := .recv p, can := can }, [])
      | some r =>
        let inMsgData := written r.data s.inMsgData
        let m := message r inMsgData
        (Pump.step stm32 devId s.dev (.recv m)).map fun d =>
          (⟨d.1, inMsgData, .idle, can⟩, .received m :: d.2.map .event)
    | .send id data p =>
      let (p, can) := p.step device s.can
      match p.returned with
      | none => some ({ s with running := .send id data p, can := can }, [])
      | some r => some ({ s with running := .idle, can := can }, [.sent id data r])
  | s, .expire => (Pump.step stm32 devId s.dev .expire).map fun r =>
    ({ s with dev := r.1 }, r.2.map .event)
  | s, .irq => (Pump.step stm32 devId s.dev .irq).map fun r =>
    ({ s with dev := r.1 }, r.2.map .event)
  | s, .move x => (s.can.move x).map fun can =>
    ({ s with can := can }, (s.can.traffic x).map .traffic)

/-- The filter of `main`. -/
def filterOf (devId : U8) : Call := ⟨cnCANDevMask cnCanTxFilterId devId, cnCanTxFilterMask⟩

/-- `main` right before `cnCANInit`, after a reset with anything in the banks. -/
def boot (devId : U8) (flash : ResetFlash stm32) (filter : Nat → U32 × U32)
    (ports : Port → U32) (inMsgData : Nat → U8) : Node :=
  ⟨Pump.boot flash, inMsgData, .init (cnCANInit false (filterOf devId).id (filterOf devId).mask),
    resetController filter ports⟩

abbrev Trans := Transition Node Input Out

inductive Stepped (devId : U8) (s : Node) : Input → Node → List Out → Prop where
  | main {d : Dev stm32} {outs : List Event} : s.running = .idle → s.dev.pc ≠ .recv →
      Pump.step stm32 devId s.dev .main = some (d, outs) →
      Stepped devId s .main { s with dev := d, running := calls outs } (outs.map .event)
  | recv : s.running = .idle → s.dev.pc = .recv →
      Stepped devId s .main { s with running := .recv (cnCANRecv 8) } []
  | initGoes {p : Mmio Reg (Int × Bool)} : s.running = .init p →
      (p.step device s.can).1.returned = none → Stepped devId s .access
        { s with running := .init (p.step device s.can).1, can := (p.step device s.can).2 } []
  | initReturns {p : Mmio Reg (Int × Bool)} {r : Int × Bool} : s.running = .init p →
      (p.step device s.can).1.returned = some r → Stepped devId s .access
        { s with running := .idle, can := (p.step device s.can).2 } []
  | recvGoes {p : Mmio Reg Fetched} : s.running = .recv p →
      (p.step device s.can).1.returned = none → Stepped devId s .access
        { s with running := .recv (p.step device s.can).1, can := (p.step device s.can).2 } []
  | recvReturns {p : Mmio Reg Fetched} {r : Fetched} {d : Dev stm32} {outs : List Event} :
      s.running = .recv p → (p.step device s.can).1.returned = some r →
      Pump.step stm32 devId s.dev (.recv (message r (written r.data s.inMsgData))) =
        some (d, outs) →
      Stepped devId s .access ⟨d, written r.data s.inMsgData, .idle, (p.step device s.can).2⟩
        (.received (message r (written r.data s.inMsgData)) :: outs.map .event)
  | sendGoes {id : U32} {data : List U8} {p : Mmio Reg Int} : s.running = .send id data p →
      (p.step device s.can).1.returned = none → Stepped devId s .access
        { s with running := .send id data (p.step device s.can).1, can := (p.step device s.can).2 } []
  | sendReturns {id : U32} {data : List U8} {p : Mmio Reg Int} {r : Int} :
      s.running = .send id data p → (p.step device s.can).1.returned = some r →
      Stepped devId s .access
        { s with running := .idle, can := (p.step device s.can).2 } [.sent id data r]
  | timer {i : Pump.Input} {x : Input} {d : Dev stm32} {outs : List Event} :
      (x, i) = (.expire, .expire) ∨ (x, i) = (.irq, .irq) →
      Pump.step stm32 devId s.dev i = some (d, outs) →
      Stepped devId s x { s with dev := d } (outs.map .event)
  | move {x : Move} {can : Controller} : s.can.move x = some can →
      Stepped devId s (.move x) { s with can := can } ((s.can.traffic x).map .traffic)

theorem step_stepped {devId : U8} {s s' : Node} {x : Input} {outs : List Out}
    (h : step devId s x = some (s', outs)) : Stepped devId s x s' outs := by
  cases x with
  | main =>
    simp only [step] at h
    split at h
    · rename_i hrun
      split at h
      · cases h
        exact .recv hrun ‹_›
      · obtain ⟨⟨d, o⟩, hs, he⟩ := Option.map_eq_some_iff.mp h
        cases he
        exact .main hrun ‹_› hs
    · cases h
  | access =>
    simp only [step] at h
    split at h
    · cases h
    · split at h
      · cases h
        exact .initGoes ‹_› ‹_›
      · cases h
        exact .initReturns ‹_› ‹_›
    · split at h
      · cases h
        exact .recvGoes ‹_› ‹_›
      · obtain ⟨⟨d, o⟩, hs, he⟩ := Option.map_eq_some_iff.mp h
        cases he
        exact .recvReturns ‹_› ‹_› hs
    · split at h
      · cases h
        exact .sendGoes ‹_› ‹_›
      · cases h
        exact .sendReturns ‹_› ‹_›
  | expire =>
    obtain ⟨⟨d, o⟩, hs, he⟩ := Option.map_eq_some_iff.mp h
    cases he
    exact .timer (.inl rfl) hs
  | irq =>
    obtain ⟨⟨d, o⟩, hs, he⟩ := Option.map_eq_some_iff.mp h
    cases he
    exact .timer (.inr rfl) hs
  | move x =>
    obtain ⟨can, hmove, he⟩ := Option.map_eq_some_iff.mp h
    cases he
    exact .move hmove

theorem traffic_quiet (l : List Traffic) (o : Out) (ho : o ∈ l.map .traffic) : o.seen = none := by
  obtain ⟨e, _, rfl⟩ := List.mem_map.mp ho
  rfl

theorem stepped_shows {devId : U8} {s s' : Node} {x : Input} {outs : List Out}
    (h : Stepped devId s x s' outs) : Shows devId s.dev s'.dev outs := by
  cases h with
  | main _ _ hstep => exact .goes rfl hstep
  | recvReturns _ _ hstep => exact .hears hstep
  | timer hi hstep =>
    refine .goes ?_ hstep
    rcases hi with hi | hi <;> cases hi <;> rfl
  | move _ => exact .quiet (traffic_quiet _)
  | sendReturns _ _ =>
    refine .quiet fun o ho => ?_
    cases List.mem_singleton.mp ho
    rfl
  | _ => exact .quiet (by simp)

/-- Whatever the bus and the timer do between two accesses of the driver, the device is
as a run of the pump leaves it that is given the same messages and emits the same. -/
theorem runs_pump {devId : U8} {s₀ s : Node} {tr : List Trans} (h : Run (step devId) s₀ tr s) :
    ∃ tr', Run (Pump.step stm32 devId) s₀.dev tr' s.dev ∧ Pump.received tr' = handled tr ∧
      outputs tr' = emitted tr :=
  Observed.shows_run (fun hstep => stepped_shows (step_stepped hstep)) h

end CANnuccia.Stm32Node

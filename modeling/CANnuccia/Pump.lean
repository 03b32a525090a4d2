import CANnuccia.Backend
import CANnuccia.CanMsgs
import CANnuccia.Mealy

/-!
# The message pump (common/main.c)

`main` is cut at every access of `state`, so that the timeout interrupt can come
between any two of them. A program counter says where `main` is; the timer and
its interrupt stand beside the program and move on their own.
-/
namespace CANnuccia.Pump

open Util CanMsgs
open Mealy (Machine Transition Run outputs)

inductive State where
  | idle | locked | unlocked | done
  deriving DecidableEq, Repr

/-- The value of an enumerator. -/
def State.rank : State → Nat
  | .idle => 0
  | .locked => 1
  | .unlocked => 2
  | .done => 3

structure Page (B : Backend) where
  addr : BitVec B.w
  writeOffset : BitVec B.w
  writes : Vector U8 B.cnFlashPageSize.toNat

/-- What a pointer to the buffer leads to. -/
def Page.data {B : Backend} (p : Page B) (i : Nat) : U8 := p.writes.toList.getD i 0

/-- Where `main` is. A handler starts at the program counter named after its
message and ends at the loop test. -/
inductive Pc where
  | timerStart | stateIdle | loopTest | recv
  | progReqTest | progReqStop | progReqLocked | progReqResp
  | unlockTest | unlockIsLocked | unlockCall | unlockSet | unlockReply
  | selectPage (data : List U8) | seek (data : List U8) | write (data : List U8)
  | checkWrites
  | commitTest | commitWrites
  | progDone | progDoneSet
  | flashLock | jump
  deriving DecidableEq, Repr

inductive Event where
  | send (id : U32) (data : List U8)
  | cnFlashUnlock (ok : Bool)
  | cnTimerStop
  | onTimeout
  deriving DecidableEq, Repr

/-- What `main` itself works on. -/
structure Core (B : Backend) where
  pc : Pc
  state : State
  selPage : Page B
  flash : B.flash.Flash

structure Dev (B : Backend) extends Core B where
  timer : B.timer.Timer

/-- `main` makes a step, `cnCANRecv` returns, the counter reaches its end, or the
timer's interrupt is dispatched. -/
inductive Input where
  | main
  | recv (m : Option Msg)
  | expire
  | irq
  deriving DecidableEq

/-- The message that arrives with an input. -/
def Input.message : Input → Option Msg
  | .recv m => m
  | _ => none

@[simp] theorem message_main : Input.main.message = none := rfl
@[simp] theorem message_recv (m : Option Msg) : (Input.recv m).message = m := rfl
@[simp] theorem message_expire : Input.expire.message = none := rfl
@[simp] theorem message_irq : Input.irq.message = none := rfl

abbrev Trans (B : Backend) := Transition (Dev B) Input Event

variable (B : Backend) (devId : U8)

/-- The `switch`; a message of no known kind leaves it at once. -/
def dispatch (m : Msg) : Pc :=
  let kind := m.id &&& cnCanMsgidMask
  if kind = cnCanMsgProgReq then .progReqTest
  else if kind = cnCanMsgUnlock then .unlockTest
  else if kind = cnCanMsgSelectPage then .selectPage m.data
  else if kind = cnCanMsgSeek then .seek m.data
  else if kind = cnCanMsgWrite then .write m.data
  else if kind = cnCanMsgCheckWrites then .checkWrites
  else if kind = cnCanMsgCommitWrites then .commitTest
  else if kind = cnCanMsgProgDone then .progDone
  else .loopTest

def reply (kind : U32) (data : List U8) : Event := .send (cnCANDevMask kind devId) data

/-- Page size, number of pages and ELF machine type. -/
def progReqStats : List U8 :=
  BitVec.ofInt 8 (cnLog2I B.cnFlashPageSize)
    :: cnWriteU16LE ((B.flash.cnFlashSize / B.cnFlashPageSize).setWidth 16)
    ++ cnWriteU16LE B.cnEMachine

variable {B}

def selectPage (data : List U8) (p : Page B) : Page B × List Event :=
  if data.length = 4 then
    let newPageAddr := cnReadU32LE data
    -- the mask is zero-extended where it is narrower than the address
    let newPageAddr := newPageAddr &&& B.cnFlashPageMask.setWidth 32
    if B.flash.cnFlashPageWriteable (newPageAddr.setWidth B.w) then
      let p := { p with addr := newPageAddr.setWidth B.w }
      (p, [reply devId cnCanMsgPageSelected (cnWriteU32LE (p.addr.setWidth 32))])
    else (p, [])
  else (p, [])

def seek (data : List U8) (p : Page B) : Page B :=
  if data.length = 4 then
    let newOffset := cnReadU32LE data
    if newOffset < B.cnFlashPageSize.setWidth 32 then
      { p with writeOffset := newOffset.setWidth B.w }
    else p
  else p

/-- The loop ends at the end of the message or of the page. -/
def write : List U8 → Page B → Page B
  | [], p => p
  | b :: bs, p =>
    if h : p.writeOffset < B.cnFlashPageSize then
      write bs
        { p with
          writes := p.writes.set p.writeOffset.toNat b (BitVec.lt_def.mp h)
          writeOffset := p.writeOffset + 1 }
    else p

def checkWrites (p : Page B) : List Event :=
  [reply devId cnCanMsgWritesChecked (cnWriteU16LE (B.cnCRC16 p.writes.toList))]

def commitWrites (p : Page B) (f : B.flash.Flash) : Option (B.flash.Flash × List Event) :=
  match B.flash.cnFlashBeginWrite p.addr f with
  | (false, f) => some (f, [])
  | (true, f) =>
    match B.flash.cnFlashFill 0 B.cnFlashPageSize p.data f with
    | none => none
    | some (_, f) =>
      match B.flash.cnFlashEndWrite f with
      | (false, f) => some (f, [])
      | (true, f) =>
        some (f, [reply devId cnCanMsgWritesCommitted (cnWriteU32LE (p.addr.setWidth 32))])

/-- One step of `main`; `none` where it waits for a message or has left. -/
def mainStep (c : Core B) : Option (Core B × List Event) :=
  match c.pc with
  | .timerStart => some ({ c with pc := .stateIdle }, [])
  | .stateIdle => some ({ c with state := .idle, pc := .loopTest }, [])
  | .loopTest => some ({ c with pc := if c.state ≠ .done then .recv else .flashLock }, [])
  | .recv => none
  | .progReqTest => some ({ c with pc := if c.state = .idle then .progReqStop else .progReqResp }, [])
  | .progReqStop => some ({ c with pc := .progReqLocked }, [.cnTimerStop])
  | .progReqLocked => some ({ c with state := .locked, pc := .progReqResp }, [])
  | .progReqResp =>
    some ({ c with pc := .loopTest }, [reply devId cnCanMsgProgReqResp (progReqStats B)])
  | .unlockTest =>
    some ({ c with pc := if c.state.rank ≥ State.locked.rank then .unlockIsLocked else .loopTest }, [])
  | .unlockIsLocked =>
    some ({ c with pc := if c.state = .locked then .unlockCall else .unlockSet }, [])
  | .unlockCall =>
    let (unlocked, flash) := B.flash.cnFlashUnlock c.flash
    some ({ c with flash, pc := if unlocked then .unlockSet else .loopTest },
      [.cnFlashUnlock unlocked])
  | .unlockSet => some ({ c with state := .unlocked, pc := .unlockReply }, [])
  | .unlockReply => some ({ c with pc := .loopTest }, [reply devId cnCanMsgUnlocked []])
  | .selectPage data =>
    let (selPage, outs) := selectPage devId data c.selPage
    some ({ c with selPage, pc := .loopTest }, outs)
  | .seek data => some ({ c with selPage := seek data c.selPage, pc := .loopTest }, [])
  | .write data => some ({ c with selPage := write data c.selPage, pc := .loopTest }, [])
  | .checkWrites => some ({ c with pc := .loopTest }, checkWrites devId c.selPage)
  | .commitTest =>
    some ({ c with pc := if c.state = .unlocked then .commitWrites else .loopTest }, [])
  | .commitWrites => do
    let (flash, outs) ← commitWrites devId c.selPage c.flash
    some ({ c with flash, pc := .loopTest }, outs)
  | .progDone => some ({ c with pc := .progDoneSet }, [reply devId cnCanMsgProgDoneAck []])
  | .progDoneSet => some ({ c with state := .done, pc := .loopTest }, [])
  | .flashLock => some ({ c with flash := (B.flash.cnFlashLock c.flash).2, pc := .jump }, [])
  | .jump => none

/-- What a step of `main` does to the timer. -/
def callTimer (pc : Pc) (t : B.timer.Timer) : Option B.timer.Timer :=
  match pc with
  | .timerStart => (B.timer.cnTimerStart bootloaderTimeoutUs true (some .onTimeout) t).map Prod.snd
  | .progReqStop => some (B.timer.cnTimerStop t)
  | _ => some t

variable (B)

def step : Machine (Dev B) Input Event
  | d, .main => do
    let (c, outs) ← mainStep devId d.toCore
    let timer ← callTimer d.pc d.timer
    some (⟨c, timer⟩, outs)
  | d, .recv m =>
    if d.pc = .recv then
      match m with
      | none => some ({ d with pc := .loopTest }, [])
      | some m => some ({ d with pc := dispatch m }, [])
    else none
  | d, .expire => (B.timer.expire d.timer).map fun timer => ({ d with timer }, [])
  | d, .irq => do
    let (timer, timeoutFunc) ← B.timer.irq d.timer
    match timeoutFunc with
    | some .onTimeout => some ({ d with timer, state := .done }, [.onTimeout])
    | none => some ({ d with timer }, [])

/-- The flash as a reset leaves it. -/
abbrev ResetFlash := {f : B.flash.Flash // B.flash.AtReset f}

variable {B}

def Page.zero : Page B := ⟨0, 0, Vector.replicate _ 0⟩

/-- `main` right before it starts the timer. -/
def boot (flash : ResetFlash B) : Dev B :=
  ⟨⟨.timerStart, .idle, Page.zero, flash⟩, B.timer.reset⟩

/-- Factory-fresh devices. -/
def stm32Fresh : ResetFlash stm32 :=
  ⟨⟨.locked, false, false, 0, false, fun _ => 0xFF#8, [], 0⟩, ⟨.inl rfl, rfl, rfl, rfl, rfl⟩⟩

def avrFresh : ResetFlash avr :=
  ⟨⟨fun _ => 0xFF#8, fun _ => 0xFFFF#16, [], true, 0⟩, ⟨rfl, rfl, rfl⟩⟩

/-- The loop test, the arrival of a message and `steps` steps of its handler. -/
def handling (m : Msg) (steps : Nat) : List Input :=
  .main :: .recv (some m) :: List.replicate steps .main

end CANnuccia.Pump

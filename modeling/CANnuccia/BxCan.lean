import CANnuccia.Fifo
import CANnuccia.Frames
import CANnuccia.Masks
import CANnuccia.Mmio
import Mathlib.Data.Fin.Basic

/-!
# The bxCAN controller and its driver, access by access (stm32/can.c)

The controller as its registers show it: three mailboxes to transmit from, a FIFO of
three received frames and the filter banks. Some registers cannot be written at any time.
-/
namespace CANnuccia.BxCan

open Util CanMsgs
open Stm32Can (Mailbox canTirTxrq canTsrTme0 canTsrTme1 canTsrTme2 canTsrCode canDtrDlc canRfrRfom
  canRfrFmp)
open Masks (flag)
open Mmio (load store modify waitFor Device)

inductive Field where
  | ir | dtr | dlr | dhr
  deriving DecidableEq, Repr

def Field.get : Field → Mailbox → U32
  | .ir, m => m.ir
  | .dtr, m => m.dtr
  | .dlr, m => m.dlr
  | .dhr, m => m.dhr

def Field.set : Field → U32 → Mailbox → Mailbox
  | .ir, v, m => { m with ir := v }
  | .dtr, v, m => { m with dtr := v }
  | .dlr, v, m => { m with dlr := v }
  | .dhr, v, m => { m with dhr := v }

/-- Clocks and pins. -/
inductive Port where
  | rccApb1enr | rccApb2enr | afioMapr | gpiobCrh
  deriving DecidableEq, Repr

inductive Reg where
  | mcr | msr | tsr | rf0r | btr
  | outbox (n : Nat) (f : Field)
  /-- FIFO 0. -/
  | inbox (f : Field)
  | fmr | fm1r | fs1r | ffa1r | fa1r
  | filterR1 (n : Nat)
  | filterR2 (n : Nat)
  | port (p : Port)
  deriving DecidableEq, Repr

/-- The registers that the controller does not change on its own. -/
structure Setup where
  mcr : U32
  btr : U32
  fmr : U32
  fm1r : U32
  fs1r : U32
  ffa1r : U32
  fa1r : U32
  filter : Nat → U32 × U32
  ports : Port → U32

structure Controller where
  setup : Setup
  /-- In initialization mode. -/
  inak : Bool
  outbox : Fin 3 → Mailbox
  fifo : Fifo Mailbox 2
  full : Bool
  fovr : Bool

def canMcrAbom : U32 := 0x00000040#32
def canMcrAwum : U32 := 0x00000020#32
def canMcrSleep : U32 := 0x00000002#32
def canMcrInrq : U32 := 0x00000001#32
def canMsrInak : U32 := 0x00000001#32
def canFmrFinit : U32 := 0x00000001#32
def canRfrFovr : U32 := 0x00000010#32
def canRfrFull : U32 := 0x00000008#32

/-- The mailbox waits for the bus; until it does it can be written. -/
def requested (m : Mailbox) : Bool := m.ir &&& canTirTxrq ≠ 0

/-- The first empty mailbox. -/
def Controller.code (s : Controller) : Fin 3 :=
  ((List.finRange 3).find? fun n => !requested (s.outbox n)).getD (Fin.last 2)

/-- CODE, and a TME bit for each mailbox. -/
def Controller.tsr (s : Controller) : U32 :=
  (List.finRange 3).foldl
    (fun tsr n => tsr ||| flag (!requested (s.outbox n)) (canTsrTme0 <<< n.val))
    (BitVec.ofNat 32 s.code.val <<< 24)

def Controller.rf0r (s : Controller) : U32 :=
  BitVec.ofNat 32 s.fifo.items.length ||| flag s.full canRfrFull ||| flag s.fovr canRfrFovr

/-- The output mailbox of the FIFO. -/
def Controller.inbox (s : Controller) : Option Mailbox := s.fifo.items.head?

def Setup.read : Reg → Setup → U32
  | .mcr, k => k.mcr
  | .btr, k => k.btr
  | .fmr, k => k.fmr
  | .fm1r, k => k.fm1r
  | .fs1r, k => k.fs1r
  | .ffa1r, k => k.ffa1r
  | .fa1r, k => k.fa1r
  | .filterR1 n, k => (k.filter n).1
  | .filterR2 n, k => (k.filter n).2
  | .port p, k => k.ports p
  | _, _ => 0

def Controller.read : Reg → Controller → U32
  | .msr, s => flag s.inak canMsrInak
  | .tsr, s => s.tsr
  | .rf0r, s => s.rf0r
  | .outbox n f, s => if h : n < 3 then f.get (s.outbox ⟨n, h⟩) else 0
  -- nothing is known of an empty FIFO; its registers are taken to be zero
  | .inbox f, s => (s.inbox.map f.get).getD 0
  | reg, s => s.setup.read reg

/-- The flags are cleared by writing ones to them, RFOM releases the oldest frame. -/
def Controller.release (v : U32) (s : Controller) : Controller :=
  { s with
    fifo := if v &&& canRfrRfom ≠ 0 then s.fifo.pop else s.fifo
    full := s.full && decide (v &&& canRfrFull = 0)
    fovr := s.fovr && decide (v &&& canRfrFovr = 0) }

/-- Filters are initialized. -/
def Setup.finit (k : Setup) : Bool := k.fmr &&& canFmrFinit ≠ 0

/-- The bank can be edited. -/
def Setup.editable (n : Nat) (k : Setup) : Bool := k.finit || !k.fa1r.getLsbD n

/-- A write at the wrong time does nothing. -/
def Setup.write (inak : Bool) : Reg → U32 → Setup → Setup
  | .mcr, v, k => { k with mcr := v }
  | .btr, v, k => if inak then { k with btr := v } else k
  | .fmr, v, k => { k with fmr := v }
  | .fm1r, v, k => if k.finit then { k with fm1r := v } else k
  | .fs1r, v, k => if k.finit then { k with fs1r := v } else k
  | .ffa1r, v, k => if k.finit then { k with ffa1r := v } else k
  | .fa1r, v, k => { k with fa1r := v }
  | .filterR1 n, v, k =>
    if k.editable n then { k with filter := Function.update k.filter n (v, (k.filter n).2) } else k
  | .filterR2 n, v, k =>
    if k.editable n then { k with filter := Function.update k.filter n ((k.filter n).1, v) } else k
  | .port p, v, k => { k with ports := Function.update k.ports p v }
  -- the driver does not write the others
  | _, _, k => k

def Controller.write : Reg → U32 → Controller → Controller
  | .rf0r, v, s => s.release v
  | .outbox n f, v, s =>
    if h : n < 3 then
      if requested (s.outbox ⟨n, h⟩) then s
      else { s with outbox := Function.update s.outbox ⟨n, h⟩ (f.set v (s.outbox ⟨n, h⟩)) }
    else s
  | reg, v, s => { s with setup := s.setup.write s.inak reg v }

def device : Device Reg Controller := ⟨Controller.read, Controller.write⟩

/-- Bank 0, where it is a 32-bit mask for FIFO 0; no other bank is ever activated. -/
def Setup.accepts (ir : U32) (k : Setup) : Bool :=
  k.fa1r.getLsbD 0 && !k.fm1r.getLsbD 0 && k.fs1r.getLsbD 0 && !k.ffa1r.getLsbD 0
    && decide (ir &&& (k.filter 0).2 = (k.filter 0).1 &&& (k.filter 0).2)

/-- A frame on the bus that passes the filter is stored, maybe over the newest one. -/
def Controller.arrive (m : Mailbox) (s : Controller) : Controller :=
  if s.setup.accepts m.ir then
    { s with
      fifo := s.fifo.push m
      full := s.full || decide (2 ≤ s.fifo.items.length)
      fovr := s.fovr || s.fifo.isFull }
  else s

/-- A mailbox is transmitted. -/
def Controller.complete (n : Fin 3) (s : Controller) : Controller :=
  let sent := { s.outbox n with ir := (s.outbox n).ir &&& ~~~canTirTxrq }
  { s with outbox := Function.update s.outbox n sent }

/-- Initialization mode is entered and left when INRQ asks for it. -/
def Controller.ack (s : Controller) : Controller :=
  { s with inak := s.setup.mcr &&& canMcrInrq ≠ 0 }

/-- What the controller does on its own. -/
inductive Move where
  | arrive (m : Mailbox)
  | complete (n : Fin 3)
  | ack
  deriving DecidableEq

def Controller.move : Move → Controller → Option Controller
  | .arrive m, s => if s.inak = false ∧ s.setup.finit = false then some (s.arrive m) else none
  | .complete n, s => if requested (s.outbox n) then some (s.complete n) else none
  | .ack, s => some s.ack

/-- What of it can be seen. -/
inductive Traffic where
  | stored (m : Mailbox)
  | overrun
  | transmitted (m : Mailbox)
  deriving DecidableEq

def Controller.traffic : Move → Controller → List Traffic
  | .arrive m, s =>
    if s.setup.accepts m.ir then .stored m :: if s.fifo.isFull then [.overrun] else [] else []
  | .complete n, s => [.transmitted (s.outbox n)]
  | .ack, _ => []

/-- After a reset; the banks hold anything. -/
def resetSetup (filter : Nat → U32 × U32) (ports : Port → U32) : Setup :=
  ⟨0x00010002#32, 0x01230000#32, 0x2A1C0E01#32, 0, 0, 0, 0, filter, ports⟩

def resetController (filter : Nat → U32 × U32) (ports : Port → U32) : Controller :=
  ⟨resetSetup filter ports, false, fun _ => ⟨0, 0, 0, 0⟩, .empty, false, false⟩

/-- Clears the bit that the bank has in each configuration register, edits the bank and
activates it. -/
def initCANFilter (n : Nat) (id mask : U32) : Mmio Reg Unit := do
  let fltBit := 1#32 <<< n
  modify .fa1r fun v => v &&& ~~~fltBit
  modify .fm1r fun v => v &&& ~~~fltBit
  modify .fs1r fun v => v ||| fltBit
  modify .ffa1r fun v => v &&& ~~~fltBit
  store (.filterR1 n) id
  store (.filterR2 n) mask
  modify .fa1r fun v => v ||| fltBit

/-- What it returns, and `busInited` after it. -/
def cnCANInit (busInited : Bool) (id mask : U32) : Mmio Reg (Int × Bool) :=
  if busInited then do
    initCANFilter 0 id mask
    return (1, true)
  else do
    modify (.port .rccApb2enr) fun v => v ||| (0x00000008#32 ||| 0x00000001#32)
    modify (.port .afioMapr) fun v => v ||| 0x00004000#32
    modify (.port .gpiobCrh) fun v => v ||| 0x94#32
    modify (.port .rccApb1enr) fun v => v ||| 0x02000000#32
    modify .mcr fun v => v ||| canMcrInrq
    waitFor .msr fun v => v &&& canMsrInak ≠ 0
    modify .fmr fun v => v ||| canFmrFinit
    initCANFilter 0 id mask
    modify .fmr fun v => v &&& ~~~canFmrFinit
    modify .mcr fun v => v ||| (canMcrAwum ||| canMcrAbom)
    store .btr 0x00050008#32
    modify .mcr fun v => v &&& ~~~canMcrInrq
    waitFor .msr fun v => v &&& canMsrInak = 0
    modify .mcr fun v => v &&& ~~~canMcrSleep
    return (1, true)

section Send

variable (n : Nat) (data : Nat → U8)

/-- The byte that a case of the switch copies. -/
def packCase : Nat → Mmio Reg Unit
  | 8 => modify (.outbox n .dhr) fun v => v ||| ((data 7).setWidth 32 <<< 24)
  | 7 => modify (.outbox n .dhr) fun v => v ||| ((data 6).setWidth 32 <<< 16)
  | 6 => modify (.outbox n .dhr) fun v => v ||| ((data 5).setWidth 32 <<< 8)
  | 5 => modify (.outbox n .dhr) fun v => v ||| (data 4).setWidth 32
  | 4 => modify (.outbox n .dlr) fun v => v ||| ((data 3).setWidth 32 <<< 24)
  | 3 => modify (.outbox n .dlr) fun v => v ||| ((data 2).setWidth 32 <<< 16)
  | 2 => modify (.outbox n .dlr) fun v => v ||| ((data 1).setWidth 32 <<< 8)
  | 1 => modify (.outbox n .dlr) fun v => v ||| (data 0).setWidth 32
  | _ => return ()

/-- The cases from one on; each falls through to the next. -/
def packFrom : Nat → Mmio Reg Unit
  | 0 => return ()
  | k + 1 => do
    packCase n data (k + 1)
    packFrom k

/-- Loads an empty mailbox and requests its transmission. -/
def fill (id len : U32) : Mmio Reg Int := do
  store (.outbox n .ir) (id &&& ~~~canTirTxrq)
  let len := if len ≤ 8 then len else 8
  store (.outbox n .dtr) (len &&& canDtrDlc)
  store (.outbox n .dhr) 0
  store (.outbox n .dlr) 0
  packFrom n data len.toNat
  modify (.outbox n .ir) fun v => v ||| canTirTxrq
  return len.toInt

end Send

/-- TSR is read twice, for the test and for the mailbox. -/
def cnCANSend (id len : U32) (data : Nat → U8) : Mmio Reg Int := do
  let tsr ← load .tsr
  if tsr &&& (canTsrTme0 ||| canTsrTme1 ||| canTsrTme2) = 0 then return -1
  else
    let tsr ← load .tsr
    fill ((tsr &&& canTsrCode) >>> 24).toNat data id len

/-- What `cnCANRecv` returns, puts into `*recvId` and writes to `data`, in order. -/
structure Fetched where
  ret : Int
  recvId : Option U32
  data : List (Nat × U8)

def unpackCase : Nat → Mmio Reg (List (Nat × U8))
  | 8 => do return [(7, (((← load (.inbox .dhr)) &&& 0xFF000000#32) >>> 24).setWidth 8)]
  | 7 => do return [(6, (((← load (.inbox .dhr)) &&& 0x00FF0000#32) >>> 16).setWidth 8)]
  | 6 => do return [(5, (((← load (.inbox .dhr)) &&& 0x0000FF00#32) >>> 8).setWidth 8)]
  | 5 => do return [(4, ((← load (.inbox .dhr)) &&& 0x000000FF#32).setWidth 8)]
  | 4 => do return [(3, (((← load (.inbox .dlr)) &&& 0xFF000000#32) >>> 24).setWidth 8)]
  | 3 => do return [(2, (((← load (.inbox .dlr)) &&& 0x00FF0000#32) >>> 16).setWidth 8)]
  | 2 => do return [(1, (((← load (.inbox .dlr)) &&& 0x0000FF00#32) >>> 8).setWidth 8)]
  | 1 => do return [(0, ((← load (.inbox .dlr)) &&& 0x000000FF#32).setWidth 8)]
  | _ => return []

def unpackFrom : Nat → Mmio Reg (List (Nat × U8))
  | 0 => return []
  | k + 1 => do
    let first ← unpackCase (k + 1)
    let rest ← unpackFrom k
    return first ++ rest

/-- Reads the oldest frame. -/
def fetch (maxLen : U32) : Mmio Reg Fetched := do
  let ir ← load (.inbox .ir)
  let dtr ← load (.inbox .dtr)
  let payloadLen := dtr &&& canDtrDlc
  let maxLen := if maxLen < payloadLen then maxLen else payloadLen
  -- 8 is also the default case
  let data ← unpackFrom (if maxLen ≤ 8 then maxLen.toNat else 8)
  return ⟨maxLen.toInt, some ir, data⟩

def release (r : Fetched) : Mmio Reg Fetched := do
  modify .rf0r fun v => v ||| canRfrRfom
  return r

def cnCANRecv (maxLen : U32) : Mmio Reg Fetched := do
  let rf0r ← load .rf0r
  if rf0r &&& canRfrFmp = 0 then return ⟨-1, none, []⟩
  else
    let r ← fetch maxLen
    release r

end CANnuccia.BxCan

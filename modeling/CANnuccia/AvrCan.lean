import CANnuccia.CanMsgs
import CANnuccia.Mcp
import Mathlib.Data.Fintype.Basic
import Mathlib.Tactic.FinCases

/-!
# CAN over SPI on AVR (avr/can.c)

`int` and `unsigned` have 16 bits here.
-/
namespace CANnuccia.AvrCan

open Util CanMsgs Mcp
open Spi (spiSelect spiTransfer spiDeselect transferAll)

def mcpCmdReadRxbuf : U8 := 0x90#8
def mcpCmdLoadTxbuf : U8 := 0x40#8
def mcpCmdRts : U8 := 0x80#8
def mcpCmdReadStatus : U8 := 0xA0#8
def mcpCmdRxStatus : U8 := 0xB0#8

def mcpRxfsidlExide : U8 := 0x08#8
def mcpBdlcRtr : U8 := 0x40#8

def mcpStatusTx0Req : U8 := 0x04#8
def mcpStatusTx1Req : U8 := 0x10#8
def mcpStatusTx2Req : U8 := 0x40#8

def mcpRxstatusRxb0 : U8 := 0x40#8
def mcpRxstatusRxb1 : U8 := 0x80#8

/-- The four registers of an extended identifier: xSIDH, xSIDL, xEID8 and xEID0. -/
abbrev Eid := Vector U8 4

abbrev Eid.sidh (regs : Eid) : U8 := regs[0]
abbrev Eid.sidl (regs : Eid) : U8 := regs[1]
abbrev Eid.eid8 (regs : Eid) : U8 := regs[2]
abbrev Eid.eid0 (regs : Eid) : U8 := regs[3]

def mcpPutEID (id : U32) : Eid :=
  let sidh := ((id &&& 0x00003FC0#32) >>> 6).setWidth 8
  let sidl := mcpRxfsidlExide
  let sidl := (sidl.setWidth 32 ||| (id &&& 0xC0000000#32) >>> 30).setWidth 8
  let sidl := (sidl.setWidth 32 ||| (id &&& 0x00000038#32) <<< 2).setWidth 8
  let eid8 := ((id &&& 0x003FC000#32) >>> 14).setWidth 8
  let eid0 := ((id &&& 0x3FC00000#32) >>> 22).setWidth 8
  #v[sidh, sidl, eid8, eid0]

def mcpGetEID (regs : Eid) : U32 :=
  regs[0].setWidth 32 <<< 3
    ||| regs[1].setWidth 32 <<< 30
    ||| regs[1].setWidth 32 >>> 5
    ||| regs[2].setWidth 32 <<< 14
    ||| regs[3].setWidth 32 <<< 22

/-- `buffer` of `cnCANSend`, with the places it was written at and those of `data` that
were read. It is not read before all of it is written. -/
structure SendBuffer where
  buffer : Mailbox
  writes : List Nat
  reads : List Nat

/-- Outside the array nothing is known but that the write happens. -/
def SendBuffer.write (s : SendBuffer) (i : Nat) (byte : U8) : SendBuffer :=
  { s with
    buffer := if h : i < 13 then s.buffer.set i byte else s.buffer
    writes := s.writes ++ [i] }

/-- One turn of the copy loop; the index is computed in 16 bits. -/
def SendBuffer.copy (data : Nat → U8) (s : SendBuffer) (i : Nat) : SendBuffer :=
  { s.write (5#16 + BitVec.ofNat 16 i).toNat (data i) with reads := s.reads ++ [i] }

def fillBuffer (id : U32) (len : U16) (data : Nat → U8) : SendBuffer :=
  let s : SendBuffer := ⟨Vector.replicate 13 0, [], []⟩
  let eid := mcpPutEID id
  let s := (((s.write 0 eid[0]).write 1 eid[1]).write 2 eid[2]).write 3 eid[3]
  let s := s.write 4 (len.setWidth 8)
  let s := if id &&& cnCanRtr ≠ 0 then s.write 4 (s.buffer.dlc ||| mcpBdlcRtr) else s
  (List.range len.toNat).foldl (SendBuffer.copy data) s

/-- `len > 8 ? len : 8` -/
def capLen (len : U16) : U16 := if len > 8 then len else 8

def freeMailbox (status : U8) : Option U8 :=
  if status &&& mcpStatusTx0Req = 0 then some 0
  else if status &&& mcpStatusTx1Req = 0 then some 1
  else if status &&& mcpStatusTx2Req = 0 then some 2
  else none

/-- Requests a loaded mailbox to be sent out. -/
def requestToSend (mailboxId : U8) (len : U16) : Spi Int := do
  spiSelect
  let _ ← spiTransfer (mcpCmdRts ||| (1#8 <<< mailboxId))
  spiDeselect
  return len.toInt

def loadMailbox (mailboxId : U8) (id : U32) (len : U16) (data : Nat → U8) : Spi Int := do
  spiSelect
  let _ ← spiTransfer (mcpCmdLoadTxbuf ||| (mailboxId <<< 1))
  transferAll (fillBuffer id len data).buffer.toList
  spiDeselect
  requestToSend mailboxId len

/-- `data` is what the memory from the pointer on holds. -/
def cnCANSend (id : U32) (len : U16) (data : Nat → U8) : Spi Int := do
  let len := capLen len
  spiSelect
  let _ ← spiTransfer mcpCmdReadStatus
  let status ← spiTransfer 0x00#8
  spiDeselect
  match freeMailbox status with
  | none => return -1
  | some mailboxId => loadMailbox mailboxId id len data

/-- What `cnCANRecv` returns, puts into `*recvId` and writes to `data` from its start on. -/
structure Received where
  ret : Int
  recvId : Option U32
  data : List U8

def fullMailbox (rxStatus : U8) : Option U8 :=
  if rxStatus &&& mcpRxstatusRxb0 ≠ 0 then some 0
  else if rxStatus &&& mcpRxstatusRxb1 ≠ 0 then some 1
  else none

/-- Reads `n` more bytes. -/
def readBytes : Nat → Spi (List U8)
  | 0 => return []
  | n + 1 => do
    let byte ← spiTransfer 0x00#8
    let bytes ← readBytes n
    return byte :: bytes

/-- `recvId` tells whether the pointer is not NULL. -/
def cnCANRecv (recvId : Bool) (maxLen : U16) : Spi Received := do
  spiSelect
  let _ ← spiTransfer mcpCmdRxStatus
  let rxStatus ← spiTransfer 0x00#8
  spiDeselect
  match fullMailbox rxStatus with
  | none => return ⟨-1, none, []⟩
  | some rxMailboxId =>
    spiSelect
    let _ ← spiTransfer (mcpCmdReadRxbuf ||| (rxMailboxId <<< 1))
    let sidh ← spiTransfer 0x00#8
    let sidl ← spiTransfer 0x00#8
    let eid8 ← spiTransfer 0x00#8
    let eid0 ← spiTransfer 0x00#8
    let id := mcpGetEID #v[sidh, sidl, eid8, eid0]
    let dlc ← spiTransfer 0x00#8
    let id := if dlc &&& mcpBdlcRtr ≠ 0 then id ||| cnCanRtr else id
    let recvdLen := (dlc &&& 0x0F#8).setWidth 16
    let data ← readBytes (min recvdLen.toNat maxLen.toNat)
    spiDeselect
    return ⟨data.length, if recvId then some id else none, data⟩

/-- The driver and the controller name the mailboxes alike. -/
theorem freeMailbox_none (m : Controller) :
    freeMailbox m.status = none ↔ ∀ n, m.txreq n = true := by
  obtain ⟨h₀, h₁, h₂⟩ := status_txreq m
  simp only [freeMailbox, mcpStatusTx0Req, mcpStatusTx1Req, mcpStatusTx2Req, h₀, h₁, h₂]
  split_ifs <;> simp_all [Fin.forall_fin_succ]

theorem freeMailbox_some {m : Controller} {mailboxId : U8}
    (h : freeMailbox m.status = some mailboxId) :
    ∃ n : Fin 3, mailboxId = BitVec.ofNat 8 n ∧ m.txreq n = false := by
  obtain ⟨h₀, h₁, h₂⟩ := status_txreq m
  simp only [freeMailbox, mcpStatusTx0Req, mcpStatusTx1Req, mcpStatusTx2Req, h₀, h₁, h₂] at h
  split_ifs at h with h₀ h₁ h₂
  · exact ⟨0, (Option.some.inj h).symm, h₀⟩
  · exact ⟨1, (Option.some.inj h).symm, h₁⟩
  · exact ⟨2, (Option.some.inj h).symm, h₂⟩

theorem freeMailbox_exists {m : Controller} (hfree : ∃ n, m.txreq n = false) :
    ∃ n : Fin 3, freeMailbox m.status = some (BitVec.ofNat 8 n) ∧ m.txreq n = false := by
  cases hstatus : freeMailbox m.status with
  | none =>
    obtain ⟨n, hn⟩ := hfree
    rw [(freeMailbox_none m).mp hstatus n] at hn
    cases hn
  | some mailboxId =>
    obtain ⟨n, rfl, hn⟩ := freeMailbox_some hstatus
    exact ⟨n, rfl, hn⟩

/-- What the buffer holds whenever no index leaves it. -/
theorem fillBuffer_eight (id : U32) (data : Nat → U8) : fillBuffer id 8 data =
    { buffer := #v[(mcpPutEID id)[0], (mcpPutEID id)[1], (mcpPutEID id)[2], (mcpPutEID id)[3],
        if id &&& cnCanRtr ≠ 0 then 0x48#8 else 0x08#8,
        data 0, data 1, data 2, data 3, data 4, data 5, data 6, data 7]
      writes := [0, 1, 2, 3, 4] ++ (if id &&& cnCanRtr ≠ 0 then [4] else []) ++
        [5, 6, 7, 8, 9, 10, 11, 12]
      reads := [0, 1, 2, 3, 4, 5, 6, 7] } := by
  have hrange : List.range (8 : U16).toNat = [0, 1, 2, 3, 4, 5, 6, 7] := by decide
  unfold fillBuffer
  generalize mcpPutEID id = eid
  rw [hrange]
  by_cases h : id &&& cnCanRtr ≠ 0
  · simp only [if_pos h]
    simp [SendBuffer.copy, SendBuffer.write, mcpBdlcRtr]
    rfl
  · simp only [if_neg h]
    simp [SendBuffer.copy, SendBuffer.write]
    rfl

theorem capLen_short {len : U16} (h : len ≤ 8) : capLen len = 8 := by
  rw [capLen, if_neg (by simpa using h)]

variable {id : U32} {len : U16} {data : Nat → U8}

/-- The first window reads the status; if no mailbox is free, that is all. -/
theorem window_full {m : Controller} (h : freeMailbox m.status = none) :
    (cnCANSend id len data).window slave m =
      (.pure (-1), { m with session := .deselected }) := by
  have hpoll : slave.transfer 0#8 (slave.transfer mcpCmdReadStatus (slave.select m)).2 =
      (m.status, { m with session := .readStatus }) := rfl
  simp only [cnCANSend, Spi.select_bind, Spi.transfer_bind, Spi.deselect_bind, Spi.window_select,
    Spi.window_transfer, Spi.window_deselect, hpoll, h]
  rfl

theorem window_poll {m : Controller} {mailboxId : U8} (h : freeMailbox m.status = some mailboxId) :
    (cnCANSend id len data).window slave m =
      (loadMailbox mailboxId id (capLen len) data, { m with session := .deselected }) := by
  have hpoll : slave.transfer 0#8 (slave.transfer mcpCmdReadStatus (slave.select m)).2 =
      (m.status, { m with session := .readStatus }) := rfl
  simp only [cnCANSend, Spi.select_bind, Spi.transfer_bind, Spi.deselect_bind, Spi.window_select,
    Spi.window_transfer, Spi.window_deselect, hpoll, h]
  rfl

/-- The second loads the mailbox. -/
theorem window_load (n : Fin 3) (m : Controller) :
    (loadMailbox (BitVec.ofNat 8 n) id len data).window slave m =
      (requestToSend (BitVec.ofNat 8 n) len, { m with
        txb := Function.update m.txb n (fillBuffer id len data).buffer
        session := .deselected }) := by
  have hload : (slave.transfer (mcpCmdLoadTxbuf ||| BitVec.ofNat 8 n <<< 1) (slave.select m)).2 =
      { m with session := .loadTx n 0 } := by
    fin_cases n <;> rfl
  simp only [loadMailbox, Spi.select_bind, Spi.transfer_bind, Spi.window_select,
    Spi.window_transfer, Spi.window_transferAll, hload]
  rw [absorb_mailbox n _ rfl]
  rfl

/-- The third requests it to be sent, and the call returns. -/
theorem window_request (n : Fin 3) (m : Controller) :
    (requestToSend (BitVec.ofNat 8 n) len).window slave m =
      (.pure len.toInt, { m with
        txreq := Function.update m.txreq n true
        session := .deselected }) := by
  have hrts : (slave.transfer (mcpCmdRts ||| 1#8 <<< BitVec.ofNat 8 n) (slave.select m)).2 =
      { m with txreq := Function.update m.txreq n true, session := .ended } := by
    have hbits : (fun k : Fin 3 => m.txreq k ||
        (mcpCmdRts ||| 1#8 <<< BitVec.ofNat 8 n).getLsbD k.val) = Function.update m.txreq n true := by
      funext k
      fin_cases n <;> fin_cases k <;> simp [mcpCmdRts, Function.update]
    rw [← hbits]
    fin_cases n <;> rfl
  simp only [requestToSend, Spi.select_bind, Spi.transfer_bind, Spi.deselect_bind,
    Spi.window_select, Spi.window_transfer, Spi.window_deselect, hrts]
  rfl

/-- A call that is not interrupted. -/
theorem send_run {m : Controller} {n : Fin 3} (h : freeMailbox m.status = some (BitVec.ofNat 8 n)) :
    (cnCANSend id len data).run slave m = ((capLen len).toInt, { m with
      txb := Function.update m.txb n (fillBuffer id (capLen len) data).buffer
      txreq := Function.update m.txreq n true
      session := .deselected }) := by
  rw [← Spi.run_window, window_poll h, ← Spi.run_window, window_load, ← Spi.run_window,
    window_request]
  rfl

end CANnuccia.AvrCan

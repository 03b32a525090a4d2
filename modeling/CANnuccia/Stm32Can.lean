import CANnuccia.CanMsgs
import Mathlib.Logic.Function.Basic

/-!
# bxCAN on STM32 (stm32/can.c)

A mailbox is four words: the identifier with the IDE, RTR and TXRQ flags, the length
and eight bytes.
-/
namespace CANnuccia.Stm32Can

open Util CanMsgs

structure Mailbox where
  ir : U32
  dtr : U32
  dlr : U32
  dhr : U32
  deriving DecidableEq

/-- The registers that sending and receiving look at. -/
structure Can where
  tsr : U32
  rf0r : U32
  outbox : Nat → Mailbox
  inbox : Mailbox

def canTirTxrq : U32 := 0x00000001#32
def canTsrTme2 : U32 := 0x10000000#32
def canTsrTme1 : U32 := 0x08000000#32
def canTsrTme0 : U32 := 0x04000000#32
def canTsrCode : U32 := 0x03000000#32
def canDtrDlc : U32 := 0x0000000F#32
def canRfrRfom : U32 := 0x00000020#32
def canRfrFmp : U32 := 0x00000003#32

/-- The identifier of an extended frame in a mailbox. -/
def identifier (m : Mailbox) : Option (BitVec 29) :=
  if m.ir &&& 0x00000004#32 ≠ 0 then some ((m.ir >>> 3).setWidth 29) else none

/-- The first empty mailbox; CODE is at most 2. -/
def Can.code (c : Can) : Nat := ((c.tsr &&& canTsrCode) >>> 24).toNat

/-- What a case of the switch does: a byte of `data` goes into DLR or DHR. -/
structure Copy where
  src : Nat
  put : U32 → Mailbox → Mailbox

def packCopy : Nat → Option Copy
  | 8 => some ⟨7, fun b m => { m with dhr := m.dhr ||| (b <<< 24) }⟩
  | 7 => some ⟨6, fun b m => { m with dhr := m.dhr ||| (b <<< 16) }⟩
  | 6 => some ⟨5, fun b m => { m with dhr := m.dhr ||| (b <<< 8) }⟩
  | 5 => some ⟨4, fun b m => { m with dhr := m.dhr ||| b }⟩
  | 4 => some ⟨3, fun b m => { m with dlr := m.dlr ||| (b <<< 24) }⟩
  | 3 => some ⟨2, fun b m => { m with dlr := m.dlr ||| (b <<< 16) }⟩
  | 2 => some ⟨1, fun b m => { m with dlr := m.dlr ||| (b <<< 8) }⟩
  | 1 => some ⟨0, fun b m => { m with dlr := m.dlr ||| b }⟩
  | _ => none

def packCase (data : Nat → U8) (m : Mailbox) (n : Nat) : Mailbox :=
  match packCopy n with
  | some copy => copy.put ((data copy.src).setWidth 32) m
  | none => m

/-- The cases from `n` on; each falls through to the next. -/
def packFrom (data : Nat → U8) : Nat → Mailbox → Mailbox
  | 0, m => m
  | n + 1, m => packFrom data n (packCase data m (n + 1))

/-- The places of `data` that these cases read, in order. -/
def packReads : Nat → List Nat
  | 0 => []
  | n + 1 => (packCopy (n + 1)).toList.map Copy.src ++ packReads n

/-- What a call of `cnCANSend` returns, which places of `data` it reads, and the
registers after it. -/
structure Sent where
  ret : Int
  reads : List Nat
  can : Can

/-- `data` is what the memory from the pointer on holds. -/
def cnCANSend (id len : U32) (data : Nat → U8) (c : Can) : Sent :=
  if c.tsr &&& (canTsrTme0 ||| canTsrTme1 ||| canTsrTme2) = 0 then ⟨-1, [], c⟩
  else
    let mailboxId := c.code
    let len := if len ≤ 8 then len else 8
    let m : Mailbox := ⟨id &&& ~~~canTirTxrq, len &&& canDtrDlc, 0, 0⟩
    let m := packFrom data len.toNat m
    let m := { m with ir := m.ir ||| canTirTxrq }
    ⟨len.toInt, packReads len.toNat,
      { c with outbox := Function.update c.outbox mailboxId m }⟩

/-- The byte that a case of the switch copies, and where to. -/
def unpackCase (m : Mailbox) : Nat → List (Nat × U8)
  | 8 => [(7, ((m.dhr &&& 0xFF000000#32) >>> 24).setWidth 8)]
  | 7 => [(6, ((m.dhr &&& 0x00FF0000#32) >>> 16).setWidth 8)]
  | 6 => [(5, ((m.dhr &&& 0x0000FF00#32) >>> 8).setWidth 8)]
  | 5 => [(4, (m.dhr &&& 0x000000FF#32).setWidth 8)]
  | 4 => [(3, ((m.dlr &&& 0xFF000000#32) >>> 24).setWidth 8)]
  | 3 => [(2, ((m.dlr &&& 0x00FF0000#32) >>> 16).setWidth 8)]
  | 2 => [(1, ((m.dlr &&& 0x0000FF00#32) >>> 8).setWidth 8)]
  | 1 => [(0, (m.dlr &&& 0x000000FF#32).setWidth 8)]
  | _ => []

def unpackFrom (m : Mailbox) : Nat → List (Nat × U8)
  | 0 => []
  | n + 1 => unpackCase m (n + 1) ++ unpackFrom m n

/-- What a call of `cnCANRecv` returns, puts into `*recvId` and writes to `data`, in
order, and the registers after it. -/
structure Received where
  ret : Int
  recvId : Option U32
  data : List (Nat × U8)
  can : Can

def cnCANRecv (maxLen : U32) (c : Can) : Received :=
  if c.rf0r &&& canRfrFmp = 0 then ⟨-1, none, [], c⟩
  else
    let payloadLen := c.inbox.dtr &&& canDtrDlc
    let maxLen := if maxLen < payloadLen then maxLen else payloadLen
    -- 8 is also the default case
    let data := unpackFrom c.inbox (if maxLen ≤ 8 then maxLen.toNat else 8)
    ⟨maxLen.toInt, some c.inbox.ir, data, { c with rf0r := c.rf0r ||| canRfrRfom }⟩

end CANnuccia.Stm32Can

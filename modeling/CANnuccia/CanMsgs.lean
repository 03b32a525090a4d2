import CANnuccia.Util

/-!
# Message identifiers (common/can_msgs.h)

Identifiers carry the message kind in the upper 20 bits, the device id in bits
4 to 11 and the IDE, RTR and TXRQ flags in the lowest three.
-/
namespace CANnuccia.CanMsgs

open Util

/-- Ors the device id into a base identifier and sets the IDE bit. -/
def cnCANDevMask (mask : U32) (devId : U8) : U32 :=
  mask ||| (devId.setWidth 32 <<< 4) ||| 0x00000004#32

/-- Set in the identifier of a remote transmission request. -/
def cnCanRtr : U32 := 0x00000002#32

/-- Keeps the message kind only. -/
def cnCanMsgidMask : U32 := 0xFFFFF000#32

/-- With the device id, the filter of the messages from the master to the device. -/
def cnCanTxFilterId : U32 := 0xCA000004#32
def cnCanTxFilterMask : U32 := 0xFF000FFC#32

def cnCanMsgProgReq : U32 := 0xCA001000#32
def cnCanMsgProgDone : U32 := 0xCA002000#32
def cnCanMsgUnlock : U32 := 0xCA003000#32
def cnCanMsgSelectPage : U32 := 0xCA004000#32
def cnCanMsgSeek : U32 := 0xCA005000#32
def cnCanMsgWrite : U32 := 0xCA006000#32
def cnCanMsgCheckWrites : U32 := 0xCA007000#32
def cnCanMsgCommitWrites : U32 := 0xCA008000#32

def cnCanMsgProgReqResp : U32 := 0xCB001000#32
def cnCanMsgProgDoneAck : U32 := 0xCB002000#32
def cnCanMsgUnlocked : U32 := 0xCB003000#32
def cnCanMsgPageSelected : U32 := 0xCB004000#32
def cnCanMsgWritesChecked : U32 := 0xCB007000#32
def cnCanMsgWritesCommitted : U32 := 0xCB008000#32

/-- What `cnCANRecv` puts into `inMsgId` and `inMsgData`, whose length is the
value it returns; the receive buffer has eight bytes. -/
structure Msg where
  id : U32
  data : List U8
  length_le : data.length ≤ 8
  deriving DecidableEq

/-- A master's message of one kind to one device. -/
def master (kind : U32) (devId : U8) (data : List U8) (h : data.length ≤ 8) : Msg :=
  ⟨cnCANDevMask kind devId, data, h⟩

/-- One without a payload. -/
abbrev command (kind : U32) (devId : U8) : Msg := master kind devId [] (Nat.zero_le 8)

/-- One with an address or an offset as its payload. -/
abbrev commandAt (kind : U32) (devId : U8) (a : U32) : Msg :=
  master kind devId (cnWriteU32LE a) (cnWriteU32LE_length a ▸ Nat.le_add_right 4 4)

/-- The device id and the flags lie below the kind. -/
theorem devMask_kind (kind : U32) (devId : U8) :
    cnCANDevMask kind devId &&& cnCanMsgidMask = kind &&& cnCanMsgidMask := by
  apply BitVec.eq_of_getLsbD_eq
  intro i hi
  interval_cases i <;> simp [cnCANDevMask, cnCanMsgidMask]

end CANnuccia.CanMsgs

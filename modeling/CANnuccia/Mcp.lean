import CANnuccia.Overlay
import CANnuccia.Spi
import CANnuccia.Util
import Mathlib.Data.Fin.Basic
import Mathlib.Logic.Function.Basic

/-!
# The MCP25625 CAN controller

As far as a driver sees it that sends and receives over SPI: three mailboxes to
transmit from, two to receive to, and the instructions that name them.
-/
namespace CANnuccia.Mcp

open Util Overlay
open Spi (Slave)

/-- A mailbox: SIDH, SIDL, EID8, EID0, the length and eight bytes. -/
abbrev Mailbox := Vector U8 13

abbrev Mailbox.sidh (b : Mailbox) : U8 := b[0]
abbrev Mailbox.sidl (b : Mailbox) : U8 := b[1]
abbrev Mailbox.eid8 (b : Mailbox) : U8 := b[2]
abbrev Mailbox.eid0 (b : Mailbox) : U8 := b[3]
abbrev Mailbox.dlc (b : Mailbox) : U8 := b[4]

/-- What the selected controller does with the next byte. -/
inductive Session where
  | deselected
  | instruction
  | readStatus
  | loadTx (n : Fin 3) (pos : Nat)
  | rxStatus
  | readRx (n : Fin 2) (pos : Nat)
  | ended
  deriving DecidableEq, Repr

structure Controller where
  txb : Fin 3 → Mailbox
  /-- TXREQ: the mailbox waits for the bus. -/
  txreq : Fin 3 → Bool
  txif : Fin 3 → Bool
  rxb : Fin 2 → Mailbox
  /-- What the controller goes on with when a receive mailbox is read behind D7. -/
  beyond : Fin 2 → Nat → U8
  rxif : Fin 2 → Bool
  /-- The low bits of RX STATUS: kind of message and filter. -/
  rxMatch : U8
  session : Session

def bit (b : Bool) (k : Nat) : U8 := if b then 1#8 <<< k else 0

def Controller.status (m : Controller) : U8 :=
  bit (m.rxif 0) 0 ||| bit (m.rxif 1) 1
    ||| bit (m.txreq 0) 2 ||| bit (m.txif 0) 3
    ||| bit (m.txreq 1) 4 ||| bit (m.txif 1) 5
    ||| bit (m.txreq 2) 6 ||| bit (m.txif 2) 7

def Controller.rxStatus (m : Controller) : U8 :=
  bit (m.rxif 0) 6 ||| bit (m.rxif 1) 7 ||| (m.rxMatch &&& 0x1F#8)

/-- The mailbox and the register a LOAD TX BUFFER starts at. -/
def loadTxStart (byte : U8) : Option (Fin 3 × Nat) :=
  match byte.toNat with
  | 0x40 => some (0, 0)
  | 0x41 => some (0, 5)
  | 0x42 => some (1, 0)
  | 0x43 => some (1, 5)
  | 0x44 => some (2, 0)
  | 0x45 => some (2, 5)
  | _ => none

/-- The mailbox and the register a READ RX BUFFER starts at. -/
def readRxStart (byte : U8) : Option (Fin 2 × Nat) :=
  match byte.toNat with
  | 0x90 => some (0, 0)
  | 0x92 => some (0, 5)
  | 0x94 => some (1, 0)
  | 0x96 => some (1, 5)
  | _ => none

/-- The first byte after the selection. An instruction that is not modelled does nothing. -/
def Controller.instruction (byte : U8) (m : Controller) : Controller :=
  if byte = 0xA0#8 then { m with session := .readStatus }
  else if byte = 0xB0#8 then { m with session := .rxStatus }
  else if byte &&& 0xF8#8 = 0x80#8 then
    -- REQUEST TO SEND, one bit a mailbox
    { m with txreq := fun n => m.txreq n || byte.getLsbD n.val, session := .ended }
  else match loadTxStart byte, readRxStart byte with
    | some (n, pos), _ => { m with session := .loadTx n pos }
    | none, some (n, pos) => { m with session := .readRx n pos }
    | none, none => { m with session := .ended }

def Mailbox.store (b : Mailbox) (pos : Nat) (byte : U8) : Mailbox :=
  if h : pos < 13 then b.set pos byte else b

def Controller.transfer (byte : U8) (m : Controller) : U8 × Controller :=
  match m.session with
  | .deselected => (0, m)
  | .instruction => (0, m.instruction byte)
  | .readStatus => (m.status, m)
  | .loadTx n pos =>
    (0, { m with
      txb := Function.update m.txb n (Mailbox.store (m.txb n) pos byte)
      session := .loadTx n (pos + 1) })
  | .rxStatus => (m.rxStatus, m)
  | .readRx n pos =>
    ((m.rxb n).toList.getD pos (m.beyond n pos), { m with session := .readRx n (pos + 1) })
  | .ended => (0, m)

/-- A mailbox that was read is free when the controller is deselected. -/
def Controller.deselect (m : Controller) : Controller :=
  match m.session with
  | .readRx n _ =>
    { m with rxif := Function.update m.rxif n false, session := .deselected }
  | _ => { m with session := .deselected }

def slave : Slave Controller where
  select m := { m with session := .instruction }
  transfer := Controller.transfer
  deselect := Controller.deselect

/-- The controller transmits a mailbox. -/
def Controller.complete (n : Fin 3) (m : Controller) : Controller :=
  { m with
    txreq := Function.update m.txreq n false
    txif := Function.update m.txif n true }

/-- After a reset. -/
def resetController : Controller :=
  ⟨fun _ => Vector.replicate 13 0, fun _ => false, fun _ => false,
    fun _ => Vector.replicate 13 0, fun _ _ => 0, fun _ => false, 0, .deselected⟩

/-- The identifier of an extended frame in a mailbox. -/
def identifier (b : Mailbox) : Option (BitVec 29) :=
  if b.sidl &&& 0x08#8 ≠ 0 then
    some (b.sidh.setWidth 29 <<< 21
      ||| ((b.sidl >>> 5).setWidth 29 <<< 18)
      ||| ((b.sidl &&& 0x03#8).setWidth 29 <<< 16)
      ||| (b.eid8.setWidth 29 <<< 8)
      ||| b.eid0.setWidth 29)
  else none

/-- The bits of the identifier, whatever kind of frame the mailbox holds. -/
def ident (b : Mailbox) : BitVec 29 :=
  b.sidh.setWidth 29 <<< 21
    ||| ((b.sidl >>> 5).setWidth 29 <<< 18)
    ||| ((b.sidl &&& 0x03#8).setWidth 29 <<< 16)
    ||| (b.eid8.setWidth 29 <<< 8)
    ||| b.eid0.setWidth 29

theorem ident_identifier {b : Mailbox} {e : BitVec 29} (h : identifier b = some e) :
    ident b = e := by
  rw [identifier, Option.ite_none_right_eq_some, Option.some.injEq] at h
  exact h.2

theorem status_txreq (m : Controller) :
    (m.status &&& 0x04#8 = 0 ↔ m.txreq 0 = false) ∧
    (m.status &&& 0x10#8 = 0 ↔ m.txreq 1 = false) ∧
    (m.status &&& 0x40#8 = 0 ↔ m.txreq 2 = false) := by
  unfold Controller.status
  generalize m.rxif 0 = a, m.rxif 1 = b, m.txreq 0 = c, m.txif 0 = d, m.txreq 1 = e, m.txif 1 = f,
    m.txreq 2 = g, m.txif 2 = h
  revert a b c d e f g h
  decide

theorem rxStatus_rxif (m : Controller) :
    (m.rxStatus &&& 0x40#8 ≠ 0 ↔ m.rxif 0 = true) ∧
    (m.rxStatus &&& 0x80#8 ≠ 0 ↔ m.rxif 1 = true) := by
  unfold Controller.rxStatus
  generalize m.rxif 0 = a, m.rxif 1 = b, m.rxMatch = k
  revert a b k
  decide +kernel

/-- Bytes loaded one after the other are laid over the mailbox. -/
theorem absorb_load (n : Fin 3) (bytes : List U8) : ∀ (m : Controller) (pos : Nat),
    m.session = .loadTx n pos → ∃ b : Mailbox, b.toList = lay (m.txb n).toList pos bytes ∧
      slave.absorb bytes m = { m with
        txb := Function.update m.txb n b
        session := .loadTx n (pos + bytes.length) } := by
  induction bytes with
  | nil =>
    intro m pos hs
    refine ⟨m.txb n, by simp, ?_⟩
    rw [Function.update_eq_self, List.length_nil, Nat.add_zero, ← hs]
    rfl
  | cons byte bytes ih =>
    intro m pos hs
    have hfirst : (m.transfer byte).2 = { m with
        txb := Function.update m.txb n (Mailbox.store (m.txb n) pos byte)
        session := .loadTx n (pos + 1) } := by
      rw [Controller.transfer, hs]
    obtain ⟨b, hb, hrest⟩ := ih (m.transfer byte).2 (pos + 1) (by rw [hfirst])
    refine ⟨b, ?_, ?_⟩
    · rw [hb, hfirst]
      simp only [Function.update_self, Mailbox.store]
      split
      · rename_i hlt
        rw [Vector.toList_set, lay_cons _ _ _ (by simpa using hlt)]
      · rename_i hfull
        rw [lay_full _ _ (by simp; omega), lay_full _ _ (by simp; omega)]
    · have hcons : slave.absorb (byte :: bytes) m = slave.absorb bytes (m.transfer byte).2 := rfl
      rw [hcons, hrest, hfirst, List.length_cons]
      simp only [Function.update_idem, Nat.add_assoc, Nat.add_comm 1]

/-- A whole mailbox loaded from its first register. -/
theorem absorb_mailbox (n : Fin 3) (b : Mailbox) {m : Controller} (hs : m.session = .loadTx n 0) :
    slave.absorb b.toList m = { m with
      txb := Function.update m.txb n b
      session := .loadTx n 13 } := by
  obtain ⟨b', hb, habsorb⟩ := absorb_load n b.toList m 0 hs
  rw [lay_all _ _ (by simp)] at hb
  have hsame : b' = b := Vector.toList_inj.mp hb
  rw [habsorb, hsame, Vector.length_toList]

end CANnuccia.Mcp

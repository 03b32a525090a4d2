import CANnuccia.AvrCan

/-!
# What a call of cnCANRecv does to the controller

The first window polls, the second reads: the registers of a mailbox one after the other,
as many as the length code and the caller allow.
-/
namespace CANnuccia.AvrCan

open Util CanMsgs Mcp

/-- What a call makes of the registers that it reads. -/
def received (recvId : Bool) (maxLen : U16) (reg : Nat → U8) : Received :=
  let id := mcpGetEID #v[reg 0, reg 1, reg 2, reg 3]
  let id := if reg 4 &&& mcpBdlcRtr ≠ 0 then id ||| cnCanRtr else id
  let count := min (reg 4 &&& 0x0F#8).toNat maxLen.toNat
  ⟨count, if recvId then some id else none, (List.range count).map fun i => reg (5 + i)⟩

/-- What is read of a mailbox from a register on. -/
def readFrom (m : Controller) (n : Fin 2) (pos i : Nat) : U8 :=
  (m.rxb n).toList.getD (pos + i) (m.beyond n (pos + i))

/-- Up to D7 it is the mailbox. -/
theorem readFrom_register {m : Controller} {n : Fin 2} {pos i : Nat} (h : pos + i < 13) :
    readFrom m n pos i = (m.rxb n).toList.getD (pos + i) 0 := by
  have hin : pos + i < (m.rxb n).toList.length := by
    rwa [Vector.length_toList]
  rw [readFrom, List.getD_eq_getElem _ _ hin, List.getD_eq_getElem _ _ hin]

/-- The payload of the frame in a mailbox, which has eight bytes. -/
def payload (b : Mailbox) (i : Nat) : U8 := b.toList.getD (5 + i) 0

/-- The length code of the frame in a mailbox. -/
def lengthCode (b : Mailbox) : Nat := (b.dlc &&& 0x0F#8).toNat

theorem window_readBytes {α : Type} (count : Nat) : ∀ (m : Controller) (n : Fin 2) (pos : Nat)
    (f : List U8 → Spi α), m.session = .readRx n pos →
    (readBytes count >>= f).window slave m =
      (f ((List.range count).map (readFrom m n pos))).window slave
        { m with session := .readRx n (pos + count) } := by
  induction count with
  | zero =>
    intro m n pos f hs
    rw [Nat.add_zero, ← hs]
    rfl
  | succ count ih =>
    intro m n pos f hs
    have hbyte : slave.transfer 0#8 m =
        (readFrom m n pos 0, { m with session := .readRx n (pos + 1) }) := by
      have htransfer : slave.transfer 0#8 m = Controller.transfer 0#8 m := rfl
      rw [htransfer, Controller.transfer, hs]
      rfl
    have hnext : ∀ i, readFrom { m with session := .readRx n (pos + 1) } n (pos + 1) i =
        readFrom m n pos (i + 1) := by
      intro i
      rw [readFrom, readFrom, Nat.add_assoc, Nat.add_comm 1]
    rw [readBytes, Spi.bind_assoc, Spi.transfer_bind, Spi.window_transfer, hbyte]
    have hrest := ih { m with session := .readRx n (pos + 1) } n (pos + 1)
      (fun bytes => f (readFrom m n pos 0 :: bytes)) rfl
    rw [Spi.bind_assoc]
    refine hrest.trans ?_
    rw [List.range_succ_eq_map, List.map_cons, List.map_map, Nat.add_assoc, Nat.add_comm 1]
    rw [List.map_congr_left fun i _ => hnext i]
    rfl

/-- The window in which a mailbox is read, from one register on. -/
def Reads (recvId : Bool) (maxLen : U16) (n : Fin 2) (pos : Nat) (p : Spi Received) : Prop :=
  ∀ m, p.window slave m = (.pure (received recvId maxLen (readFrom m n pos)),
    { m with rxif := Function.update m.rxif n false, session := .deselected })

variable {recvId : Bool} {maxLen : U16} {m : Controller}

theorem recv_empty (h : fullMailbox m.rxStatus = none) :
    (cnCANRecv recvId maxLen).window slave m =
      (.pure ⟨-1, none, []⟩, { m with session := .deselected }) := by
  have hpoll : slave.transfer 0#8 (slave.transfer mcpCmdRxStatus (slave.select m)).2 =
      (m.rxStatus, { m with session := .rxStatus }) := rfl
  simp only [cnCANRecv, Spi.select_bind, Spi.transfer_bind, Spi.deselect_bind, Spi.window_select,
    Spi.window_transfer, Spi.window_deselect, hpoll, h]
  rfl

theorem recv_poll {mailboxId : U8} {n : Fin 2} {pos : Nat}
    (h : fullMailbox m.rxStatus = some mailboxId)
    (hread : ∀ m : Controller, (slave.transfer (mcpCmdReadRxbuf ||| mailboxId <<< 1)
      (slave.select m)).2 = { m with session := .readRx n pos }) :
    ∃ p, (cnCANRecv recvId maxLen).window slave m = (p, { m with session := .deselected }) ∧
      Reads recvId maxLen n pos p := by
  have hpoll : slave.transfer 0#8 (slave.transfer mcpCmdRxStatus (slave.select m)).2 =
      (m.rxStatus, { m with session := .rxStatus }) := rfl
  simp only [cnCANRecv, Spi.select_bind, Spi.transfer_bind, Spi.deselect_bind, Spi.window_select,
    Spi.window_transfer, Spi.window_deselect, hpoll, h]
  refine ⟨_, rfl, ?_⟩
  intro m
  have hbyte : ∀ pos, slave.transfer 0#8 { m with session := .readRx n pos } =
      ((m.rxb n).toList.getD pos (m.beyond n pos), { m with session := .readRx n (pos + 1) }) :=
    fun _ => rfl
  simp only [Spi.window_select, Spi.window_transfer, hread, hbyte]
  refine (window_readBytes _ _ n (pos + 5) _ rfl).trans ?_
  have hlen : ((m.rxb n).toList.getD (pos + 4) (m.beyond n (pos + 4)) &&& 0x0F#8).toNat % 2 ^ 16 =
      (readFrom m n pos 4 &&& 0x0F#8).toNat := by
    rw [readFrom]
    omega
  have hdata : ∀ session, readFrom { m with session := session } n (pos + 5) =
      fun i => readFrom m n pos (5 + i) := by
    intro session
    funext i
    rw [readFrom, readFrom, Nat.add_assoc]
  simp only [List.length_map, List.length_range, BitVec.toNat_setWidth, hlen, hdata]
  rfl

theorem fullMailbox_none : fullMailbox m.rxStatus = none ↔ ∀ n, m.rxif n = false := by
  obtain ⟨h₀, h₁⟩ := rxStatus_rxif m
  simp only [fullMailbox, mcpRxstatusRxb0, mcpRxstatusRxb1, h₀, h₁]
  split_ifs <;> simp_all [Fin.forall_fin_succ]

/-- Mailbox 0 is read from its first register on. -/
theorem poll_first (h₀ : m.rxif 0 = true) : ∃ p, (cnCANRecv recvId maxLen).window slave m =
    (p, { m with session := .deselected }) ∧ Reads recvId maxLen 0 0 p := by
  have hfull : fullMailbox m.rxStatus = some 0 := if_pos ((rxStatus_rxif m).1.mpr h₀)
  exact recv_poll hfull fun _ => rfl

/-- For mailbox 1 the driver reads mailbox 0, from the payload on. -/
theorem poll_second (h₀ : m.rxif 0 = false) (h₁ : m.rxif 1 = true) :
    ∃ p, (cnCANRecv recvId maxLen).window slave m =
      (p, { m with session := .deselected }) ∧ Reads recvId maxLen 0 5 p := by
  have hempty : ¬ m.rxStatus &&& mcpRxstatusRxb0 ≠ 0 := by
    intro h
    cases h₀.symm.trans ((rxStatus_rxif m).1.mp h)
  have hfull : fullMailbox m.rxStatus = some 1 := by
    rw [fullMailbox, if_neg hempty]
    exact if_pos ((rxStatus_rxif m).2.mpr h₁)
  exact recv_poll hfull fun _ => rfl

/-- A call that is not interrupted. -/
theorem run_poll {p : Spi Received} {n : Fin 2} {pos : Nat}
    (hpoll : (cnCANRecv recvId maxLen).window slave m = (p, { m with session := .deselected }))
    (hreads : Reads recvId maxLen n pos p) :
    (cnCANRecv recvId maxLen).run slave m = (received recvId maxLen (readFrom m n pos),
      { m with rxif := Function.update m.rxif n false, session := .deselected }) := by
  rw [← Spi.run_window, hpoll, ← Spi.run_window, hreads]
  rfl

theorem run_first (h₀ : m.rxif 0 = true) : (cnCANRecv recvId maxLen).run slave m =
    (received recvId maxLen (readFrom m 0 0),
      { m with rxif := Function.update m.rxif 0 false, session := .deselected }) := by
  obtain ⟨p, hpoll, hreads⟩ := poll_first h₀
  exact run_poll hpoll hreads

theorem run_second (h₀ : m.rxif 0 = false) (h₁ : m.rxif 1 = true) :
    (cnCANRecv recvId maxLen).run slave m = (received recvId maxLen (readFrom m 0 5),
      { m with rxif := Function.update m.rxif 0 false, session := .deselected }) := by
  obtain ⟨p, hpoll, hreads⟩ := poll_second h₀ h₁
  exact run_poll hpoll hreads

end CANnuccia.AvrCan

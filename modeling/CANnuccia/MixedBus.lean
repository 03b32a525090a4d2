import CANnuccia.Frames
import CANnuccia.Masks
import CANnuccia.Receive

/-!
# AVR and STM32 devices on one bus

What `cnCANSend` of either backend puts on the bus as the identifier, and what
`cnCANRecv` of either reports for it.
-/
namespace CANnuccia.MixedBus

open Util CanMsgs Mcp
open AvrCan (mcpPutEID mcpGetEID)

/-- Bits that equal those they are moved to equal those they come to in the end. -/
theorem iterate_bit {f : Nat → Bool} {π : Nat → Nat} {n : Nat} (hlt : ∀ i < n, π i < n)
    (hf : ∀ i < n, f (π i) = f i) (j : Nat) : ∀ i < n, f (π^[j] i) = f i := by
  induction j with
  | zero =>
    intro i _
    rfl
  | succ j ih =>
    intro i hi
    rw [Function.iterate_succ_apply, ih (π i) (hlt i hi), hf i hi]

/-- The identifier an AVR device puts on the bus instead of `e`. -/
def scrambled (e : BitVec 29) : BitVec 29 :=
  e <<< 18 ||| ((e >>> 11) &&& 0x30000#29) ||| ((e >>> 3) &&& 0xFF00#29) ||| ((e >>> 19) &&& 0xFF#29)

/-- Where its bits come from. -/
def scramble (i : Nat) : Nat :=
  if i < 8 then i + 19 else if i < 16 then i + 3 else if i < 18 then i + 11 else i - 18

theorem scrambled_bit (e : BitVec 29) {i : Nat} (hi : i < 29) :
    (scrambled e).getLsbD i = e.getLsbD (scramble i) := by
  interval_cases i <;> simp [scrambled, scramble]

/-- The bits of an identifier go round in one circle. -/
theorem scrambled_iff (e : BitVec 29) :
    scrambled e = e ↔ e = 0 ∨ e = BitVec.allOnes 29 := by
  constructor
  · intro h
    have hbit : ∀ i < 29, e.getLsbD (scramble i) = e.getLsbD i := by
      intro i hi
      rw [← scrambled_bit e hi, h]
    have hfirst : ∀ i < 29, e.getLsbD i = e.getLsbD 0 := by
      intro i hi
      have hcircle : ∀ i < 29, ∃ j < 29, scramble^[j] i = 0 := by decide
      obtain ⟨j, _, hj⟩ := hcircle i hi
      rw [← iterate_bit (n := 29) (by decide) hbit j i hi, hj]
    cases hzero : e.getLsbD 0 with
    | false =>
      refine .inl (BitVec.eq_of_getLsbD_eq fun i hi => ?_)
      rw [hfirst i hi, hzero]
      exact BitVec.getLsbD_zero.symm
    | true =>
      refine .inr (BitVec.eq_of_getLsbD_eq fun i hi => ?_)
      rw [hfirst i hi, hzero, BitVec.getLsbD_allOnes, decide_eq_true hi]
  · rintro (rfl | rfl) <;> decide

/-- What an AVR device reports for the identifier `e`, its lowest three bits apart. -/
def misread (e : BitVec 29) : BitVec 29 :=
  ((e &&& 0x30000#29) <<< 11) ||| ((e &&& 0xFF#29) <<< 19) ||| ((e &&& 0xFF00#29) <<< 3)
    ||| (e >>> 21)

/-- Where its bits come from; bits 8 to 10 are always zero. -/
def unread (i : Nat) : Nat :=
  if i < 8 then i + 21 else if i < 11 then i else if i < 19 then i - 3
  else if i < 27 then i - 19 else i - 11

theorem misread_bit (e : BitVec 29) {i : Nat} (hi : i < 29) :
    (misread e).getLsbD i = (decide (i < 8 ∨ 11 ≤ i) && e.getLsbD (unread i)) := by
  interval_cases i <;> simp [misread, unread]

theorem misread_iff (e : BitVec 29) : misread e = e ↔ e = 0 := by
  constructor
  · intro h
    have hbit : ∀ i < 29, e.getLsbD i = (decide (i < 8 ∨ 11 ≤ i) && e.getLsbD (unread i)) := by
      intro i hi
      rw [← misread_bit e hi, h]
    have hsame : ∀ i < 29, e.getLsbD (unread i) = e.getLsbD i := by
      intro i hi
      by_cases hmid : i < 8 ∨ 11 ≤ i
      · rw [hbit i hi, decide_eq_true hmid, Bool.true_and]
      · have hfix : unread i = i := by
          unfold unread
          split_ifs <;> omega
        rw [hfix]
    refine BitVec.eq_of_getLsbD_eq fun i hi => ?_
    have hend : ∀ i < 29, ¬ (unread^[29] i < 8 ∨ 11 ≤ unread^[29] i) := by decide +kernel
    have hlt : ∀ i < 29, unread^[29] i < 29 := by decide +kernel
    rw [← iterate_bit (n := 29) (by decide) hsame 29 i hi, hbit _ (hlt i hi),
      decide_eq_false (hend i hi), Bool.false_and]
    exact BitVec.getLsbD_zero.symm
  · rintro rfl
    decide

/-- The identifier of the frame that a call on AVR requests to be sent. -/
def avrSends (id : U32) (len : U16) (data : Nat → U8) (m : Controller) : Option (BitVec 29) :=
  let m' := ((AvrCan.cnCANSend id len data).run slave m).2
  ((List.finRange 3).find? fun n => !m.txreq n && m'.txreq n).bind fun n =>
    Mcp.identifier (m'.txb n)

/-- The same on STM32. -/
def stm32Sends (id len : U32) (data : Nat → U8) (c : Stm32Can.Can) : Option (BitVec 29) :=
  let sent := Stm32Can.cnCANSend id len data c
  if sent.ret < 0 then none else Stm32Can.identifier (sent.can.outbox c.code)

variable {id : U32} {data : Nat → U8}

theorem stm32Sends_eq {len : U32} {c : Stm32Can.Can} (hide : id &&& 0x00000004#32 ≠ 0)
    (hfree : c.tsr &&& (Stm32Can.canTsrTme0 ||| Stm32Can.canTsrTme1 ||| Stm32Can.canTsrTme2) ≠ 0) :
    stm32Sends id len data c = some ((id >>> 3).setWidth 29) := by
  have hret : ¬ (if len ≤ 8 then len else (8 : U32)).toInt < 0 := by
    split_ifs with hlen
    · rw [BitVec.le_def] at hlen
      have hsmall : len.toNat ≤ 8 := hlen
      rw [BitVec.toInt_eq_toNat_of_lt (by omega)]
      omega
    · decide
  have hir : (id &&& ~~~Stm32Can.canTirTxrq ||| Stm32Can.canTirTxrq) &&& 0x00000004#32 =
      id &&& 0x00000004#32 := Masks.write_disjoint _ _ _ _ (by decide) (by decide)
  have hid : (id &&& ~~~Stm32Can.canTirTxrq ||| Stm32Can.canTirTxrq) >>> 3 = id >>> 3 := by
    apply BitVec.eq_of_getLsbD_eq
    intro i hi
    interval_cases i <;> simp [Stm32Can.canTirTxrq]
  simp only [stm32Sends, Stm32Can.cnCANSend, if_neg hfree, if_neg hret, Function.update_self,
    Stm32Can.identifier, (Stm32Can.packFrom_frame data _ _).1, hir, if_pos hide, hid]

/-- The registers that `mcpPutEID` fills hold the identifier bit by bit, but elsewhere. -/
theorem identifier_putEID (b : Mailbox) (h₀ : b.sidh = (mcpPutEID id).sidh)
    (h₁ : b.sidl = (mcpPutEID id).sidl) (h₂ : b.eid8 = (mcpPutEID id).eid8)
    (h₃ : b.eid0 = (mcpPutEID id).eid0) :
    Mcp.identifier b = some (scrambled ((id >>> 3).setWidth 29)) := by
  have hide : b.sidl &&& 0x08#8 ≠ 0 := by
    intro hzero
    have hbit := congrArg (fun v => v.getLsbD 3) hzero
    simp [h₁, mcpPutEID, AvrCan.mcpRxfsidlExide] at hbit
  rw [Mcp.identifier, if_pos hide, h₀, h₁, h₂, h₃, Option.some.injEq]
  apply BitVec.eq_of_getLsbD_eq
  intro i hi
  interval_cases i <;> simp [mcpPutEID, AvrCan.mcpRxfsidlExide, scrambled]

theorem avrSends_eq {len : U16} {m : Controller} (hlen : len ≤ 8) (hfree : ∃ n, m.txreq n = false) :
    avrSends id len data m = some (scrambled ((id >>> 3).setWidth 29)) := by
  obtain ⟨n, hstatus, hn⟩ := AvrCan.freeMailbox_exists hfree
  have hnew : (fun k => !m.txreq k && Function.update m.txreq n true k) = fun k => decide (k = n) := by
    funext k
    by_cases hk : k = n
    · simp [hk, hn]
    · simp [hk]
  have hfind : (List.finRange 3).find? (fun k => decide (k = n)) = some n := by
    fin_cases n <;> rfl
  simp only [avrSends, AvrCan.send_run hstatus, hnew, hfind, Option.bind_some, Function.update_self,
    AvrCan.capLen_short hlen, AvrCan.fillBuffer_eight]
  exact identifier_putEID _ rfl rfl rfl rfl

/-- The identifier a call on AVR reports. -/
def avrReports (maxLen : U16) (m : Controller) : Option U32 :=
  ((AvrCan.cnCANRecv true maxLen).run slave m).1.recvId.map fun id => id &&& ~~~0x00000007#32

/-- The same on STM32. -/
def stm32Reports (maxLen : U32) (c : Stm32Can.Can) : Option U32 :=
  (Stm32Can.cnCANRecv maxLen c).recvId.map fun id => id &&& ~~~0x00000007#32

theorem stm32Reports_eq {maxLen : U32} {c : Stm32Can.Can} {e : BitVec 29}
    (hfull : c.rf0r &&& Stm32Can.canRfrFmp ≠ 0) (he : Stm32Can.identifier c.inbox = some e) :
    stm32Reports maxLen c = some (e.setWidth 32 <<< 3) := by
  rw [Stm32Can.identifier, Option.ite_none_right_eq_some, Option.some.injEq] at he
  rw [stm32Reports, Stm32Can.cnCANRecv, if_neg hfull, Option.map_some, Option.some.injEq, ← he.2]
  apply BitVec.eq_of_getLsbD_eq
  intro i hi
  interval_cases i <;> simp

/-- Four registers of a receive mailbox, from one on. -/
def registers (b : Mailbox) (pos : Nat) : AvrCan.Eid :=
  #v[b.toList.getD pos 0, b.toList.getD (pos + 1) 0, b.toList.getD (pos + 2) 0,
    b.toList.getD (pos + 3) 0]

/-- The identifier that `mcpGetEID` takes four registers for. -/
def taken (regs : AvrCan.Eid) : BitVec 29 :=
  regs.sidh.setWidth 29 ||| (regs.sidl.setWidth 29 <<< 27) ||| (regs.eid8.setWidth 29 <<< 11)
    ||| (regs.eid0.setWidth 29 <<< 19)

theorem getEID_taken (regs : AvrCan.Eid) :
    mcpGetEID regs &&& ~~~0x00000007#32 = (taken regs).setWidth 32 <<< 3 := by
  rw [mcpGetEID, taken]
  apply BitVec.eq_of_getLsbD_eq
  intro i hi
  interval_cases i <;> simp

/-- The RTR flag is not among the bits of the identifier. -/
theorem flag_masked (v : U32) :
    (v ||| cnCanRtr) &&& ~~~0x00000007#32 = v &&& ~~~0x00000007#32 :=
  Masks.or_disjoint _ _ _ (by decide)

/-- What a call reports that takes some registers for a mailbox. -/
theorem received_taken (maxLen : U16) (m : Controller) {pos : Nat} (hpos : pos + 3 < 13) :
    (AvrCan.received true maxLen (AvrCan.readFrom m 0 pos)).recvId.map
        (fun id => id &&& ~~~0x00000007#32) =
      some ((taken (registers (m.rxb 0) pos)).setWidth 32 <<< 3) := by
  have hrtr : ∀ (p : Prop) [Decidable p] (v : U32),
      (if p then v ||| cnCanRtr else v) &&& ~~~0x00000007#32 = v &&& ~~~0x00000007#32 := by
    intro p _ v
    split_ifs
    · exact flag_masked v
    · rfl
  have hreg : ∀ i < 4, AvrCan.readFrom m 0 pos i = (m.rxb 0).toList.getD (pos + i) 0 :=
    fun i hi => AvrCan.readFrom_register (by omega)
  simp only [AvrCan.received, if_true, Option.map_some, hrtr, getEID_taken]
  rw [hreg 0 (by omega), hreg 1 (by omega), hreg 2 (by omega), hreg 3 (by omega)]
  rfl

theorem registers_own (b : Mailbox) : registers b 0 = #v[b.sidh, b.sidl, b.eid8, b.eid0] := by
  simp [registers]

/-- A frame's own registers are taken for another identifier. -/
theorem taken_ident (b : Mailbox) : taken (registers b 0) = misread (Mcp.ident b) := by
  rw [registers_own, Mcp.ident, taken]
  generalize b.sidh = sidh, b.sidl = sidl, b.eid8 = eid8, b.eid0 = eid0
  apply BitVec.eq_of_getLsbD_eq
  intro i hi
  interval_cases i <;> simp [misread]

/-- Identifiers in bits 31 to 3 of a word. -/
theorem shifted_iff (e e' : BitVec 29) :
    some (e.setWidth 32 <<< 3) = some (e'.setWidth 32 <<< 3) ↔ e = e' := by
  constructor
  · intro h
    refine BitVec.eq_of_getLsbD_eq fun i hi => ?_
    have hbit := congrArg (fun v => v.getLsbD (i + 3)) (Option.some.inj h)
    simp only [BitVec.getLsbD_shiftLeft, BitVec.getLsbD_setWidth] at hbit
    simpa [show i + 3 < 32 by omega, show i < 32 by omega] using hbit
  · rintro rfl
    rfl

theorem avrReports_first {maxLen : U16} {m : Controller} (h₀ : m.rxif 0 = true) :
    avrReports maxLen m = some ((taken (registers (m.rxb 0) 0)).setWidth 32 <<< 3) := by
  rw [avrReports, AvrCan.run_first h₀]
  exact received_taken maxLen m (by omega)

/-- For mailbox 1 the payload of mailbox 0 is taken for an identifier. -/
theorem avrReports_second {maxLen : U16} {m : Controller} (h₀ : m.rxif 0 = false)
    (h₁ : m.rxif 1 = true) :
    avrReports maxLen m = some ((taken (registers (m.rxb 0) 5)).setWidth 32 <<< 3) := by
  rw [avrReports, AvrCan.run_second h₀ h₁]
  exact received_taken maxLen m (by omega)

/-- Both backends send the same identifier exactly where its bits are all the same, and
report the same exactly where it is zero. For a frame in mailbox 1 they do where the
payload that is left in mailbox 0 happens to be taken for it. -/
theorem same_bus (id : U32) (len maxLen : U16) (len' maxLen' : U32) (data data' : Nat → U8)
    (e : BitVec 29) (m : Controller) (c : Stm32Can.Can) :
    (id &&& 0x00000004#32 ≠ 0 → len ≤ 8 → (∃ n, m.txreq n = false) →
      c.tsr &&& (Stm32Can.canTsrTme0 ||| Stm32Can.canTsrTme1 ||| Stm32Can.canTsrTme2) ≠ 0 →
      ((avrSends id len data m = stm32Sends id len' data' c ∧
          stm32Sends id len' data' c = some ((id >>> 3).setWidth 29)) ↔
        id >>> 3 = 0 ∨ id >>> 3 = 0x1FFFFFFF#32)) ∧
    (c.rf0r &&& Stm32Can.canRfrFmp ≠ 0 → Stm32Can.identifier c.inbox = some e →
      (m.rxif 0 = true → Mcp.identifier (m.rxb 0) = some e →
        (avrReports maxLen m = stm32Reports maxLen' c ↔ e = 0)) ∧
      (m.rxif 0 = false → m.rxif 1 = true → Mcp.identifier (m.rxb 1) = some e →
        (avrReports maxLen m = stm32Reports maxLen' c ↔ taken (registers (m.rxb 0) 5) = e))) := by
  constructor
  · intro hide hlen hm hc
    rw [avrSends_eq hlen hm, stm32Sends_eq hide hc, and_iff_left rfl, Option.some.injEq,
      scrambled_iff]
    have hnarrow : ∀ v : BitVec 29, (id >>> 3).setWidth 29 = v ↔ id >>> 3 = v.setWidth 32 := by
      intro v
      simp only [← BitVec.toNat_inj, BitVec.toNat_setWidth, BitVec.toNat_ushiftRight]
      have hid := id.isLt
      omega
    rw [hnarrow, hnarrow]
    rfl
  · intro hpending he
    rw [stm32Reports_eq hpending he]
    constructor
    · intro h₀ hb
      rw [avrReports_first h₀, taken_ident, ident_identifier hb, shifted_iff, misread_iff]
    · intro h₀ h₁ _
      rw [avrReports_second h₀ h₁, shifted_iff]

/-- A frame with the identifier 0, or the one of the PROG_REQ_RESP of device 42. -/
def zeroFrame : Mailbox := #v[0x00, 0x08, 0x00, 0x00, 0x00, 0, 0, 0, 0, 0, 0, 0, 0]
def respFrame : Mailbox := #v[0xCB, 0x08, 0x02, 0x54, 0x05, 0, 0, 0, 0, 0, 0, 0, 0]

/-- One of them is received, in the mailbox `n`. -/
def avrPending (n : Fin 2) (b : Mailbox) : Controller :=
  { resetController with
    rxb := Function.update resetController.rxb n b
    rxif := Function.update resetController.rxif n true }

def stm32Pending (ir : U32) : Stm32Can.Can :=
  ⟨0x1C000000#32, 0x00000001#32, fun _ => ⟨0, 0, 0, 0⟩, ⟨ir, 0, 0, 0⟩⟩

/-- A message with the IDE bit alone, sent and received in either mailbox. -/
theorem same_bus_zero :
    (avrSends 0x00000004#32 0 (fun _ => 0) resetController =
      stm32Sends 0x00000004#32 0 (fun _ => 0) (stm32Pending 0)) ∧
    (avrReports 8 (avrPending 0 zeroFrame) = stm32Reports 8 (stm32Pending 0x00000004#32)) ∧
    (avrReports 8 (avrPending 1 zeroFrame) = stm32Reports 8 (stm32Pending 0x00000004#32)) := by
  have hsend := (same_bus 0x00000004#32 0 8 0 8 (fun _ => 0) (fun _ => 0) 0 resetController
    (stm32Pending 0)).1 (by decide) (by decide) ⟨0, rfl⟩ (by decide)
  have hfirst := (same_bus 0x00000004#32 0 8 0 8 (fun _ => 0) (fun _ => 0) 0
    (avrPending 0 zeroFrame) (stm32Pending 0x00000004#32)).2 (by decide) rfl
  have hsecond := (same_bus 0x00000004#32 0 8 0 8 (fun _ => 0) (fun _ => 0) 0
    (avrPending 1 zeroFrame) (stm32Pending 0x00000004#32)).2 (by decide) rfl
  exact ⟨(hsend.mpr (.inl (by decide))).1, (hfirst.1 rfl rfl).mpr rfl,
    (hsecond.2 rfl rfl rfl).mpr rfl⟩

/-- An AVR and an STM32 device with the same id answer a PROG_REQ with different
identifiers, and report different ones for what the STM32 device sends, whichever
mailbox it comes to. -/
theorem buses_differ :
    avrSends 0xCB0012A4#32 5 (fun _ => 0) resetController ≠
      stm32Sends 0xCB0012A4#32 5 (fun _ => 0) (stm32Pending 0) ∧
    avrReports 8 (avrPending 0 respFrame) ≠ stm32Reports 8 (stm32Pending 0xCB0012A4#32) ∧
    avrReports 8 (avrPending 1 respFrame) ≠ stm32Reports 8 (stm32Pending 0xCB0012A4#32) := by
  refine ⟨?_, by decide +kernel, by decide +kernel⟩
  rw [avrSends_eq (by decide) ⟨0, rfl⟩, stm32Sends_eq (by decide) (by decide)]
  decide

end CANnuccia.MixedBus

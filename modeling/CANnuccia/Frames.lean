import CANnuccia.Stm32Can

/-!
# Frames on STM32

A byte of the payload has a lane of its own in DLR or DHR. `cnCANSend` fills the lanes
from the last byte to the first, and `cnCANRecv` empties them in the same order.
-/
namespace CANnuccia.Stm32Can

open Util CanMsgs

/-- A byte put into an empty lane of a word reads back, and the other lanes stay. -/
theorem lane_or (w : U32) (b : U8) (i j : Nat) :
    ((w ||| b.setWidth 32 <<< (8 * j)) >>> (8 * i)).setWidth 8 =
      if i = j ∧ j < 4 then (w >>> (8 * i)).setWidth 8 ||| b else (w >>> (8 * i)).setWidth 8 := by
  apply BitVec.eq_of_getLsbD_eq
  intro k hk
  have hlane : (b.setWidth 32 <<< (8 * j)).getLsbD (8 * i + k) =
      (decide (i = j ∧ j < 4) && b.getLsbD k) := by
    rw [BitVec.getLsbD_shiftLeft, BitVec.getLsbD_setWidth]
    by_cases hij : i = j
    · subst hij
      have hback : 8 * i + k - 8 * i = k := by omega
      by_cases hi : i < 4
      · simp [hback, hi, show 8 * i + k < 32 by omega, show k < 32 by omega]
      · simp [hi, show ¬ 8 * i + k < 32 by omega]
    · by_cases hlt : 8 * i + k < 8 * j
      · simp [hlt, hij]
      · have hbeyond : b.getLsbD (8 * i + k - 8 * j) = false :=
          BitVec.getLsbD_of_ge b _ (by omega)
        simp [hbeyond, hij]
  rw [BitVec.getLsbD_setWidth, BitVec.getLsbD_ushiftRight, BitVec.getLsbD_or, hlane]
  split_ifs with h
  · simp [h, hk]
  · simp [h, hk]

/-- A byte of the payload; the first four are in DLR. -/
def Mailbox.byte (m : Mailbox) (i : Nat) : U8 :=
  if i < 4 then (m.dlr >>> (8 * i)).setWidth 8 else (m.dhr >>> (8 * (i - 4))).setWidth 8

/-- A case of the switch fills the lane of its byte. -/
theorem packCase_lane (data : Nat → U8) (m : Mailbox) {k : Nat} (hk : k < 8) :
    packCase data m (k + 1) =
      if k < 4 then { m with dlr := m.dlr ||| (data k).setWidth 32 <<< (8 * k) }
      else { m with dhr := m.dhr ||| (data k).setWidth 32 <<< (8 * (k - 4)) } := by
  interval_cases k <;> simp [packCase, packCopy]

theorem packCase_byte (data : Nat → U8) (m : Mailbox) {i k : Nat} (hi : i < 8) (hk : k < 8) :
    (packCase data m (k + 1)).byte i = if i = k then m.byte i ||| data i else m.byte i := by
  rw [packCase_lane data m hk]
  by_cases hik : i = k
  · subst hik
    by_cases hlow : i < 4
    · simp [Mailbox.byte, hlow, lane_or]
    · simp [Mailbox.byte, hlow, lane_or, show i - 4 < 4 by omega]
  · by_cases hlow : k < 4
    · simp [Mailbox.byte, hlow, lane_or, hik]
    · by_cases hi₄ : i < 4
      · simp [Mailbox.byte, hlow, hi₄, hik]
      · simp [Mailbox.byte, hlow, hi₄, lane_or, hik, show ¬ i - 4 = k - 4 by omega]

/-- The switch fills the lanes of the first `n` bytes. -/
theorem packFrom_byte (data : Nat → U8) {n i : Nat} (hn : n ≤ 8) (hi : i < 8) : ∀ m : Mailbox,
    (packFrom data n m).byte i = if i < n then m.byte i ||| data i else m.byte i := by
  induction n with
  | zero =>
    intro m
    rfl
  | succ n ih =>
    intro m
    rw [packFrom, ih (by omega), packCase_byte data m hi (by omega)]
    by_cases hin : i = n
    · simp [hin]
    · by_cases hlt : i < n
      · simp [hin, hlt, show i < n + 1 by omega]
      · simp [hin, hlt, show ¬ i < n + 1 by omega]

/-- A case leaves the length and the identifier as they are. -/
theorem packCase_frame (data : Nat → U8) (m : Mailbox) (k : Nat) :
    (packCase data m k).ir = m.ir ∧ (packCase data m k).dtr = m.dtr := by
  have hput : ∀ copy ∈ packCopy k, ∀ b, (copy.put b m).ir = m.ir ∧ (copy.put b m).dtr = m.dtr := by
    unfold packCopy
    split <;> simp
  unfold packCase
  split
  · exact hput _ ‹_› _
  · exact ⟨rfl, rfl⟩

theorem packFrom_frame (data : Nat → U8) (n : Nat) : ∀ m : Mailbox,
    (packFrom data n m).ir = m.ir ∧ (packFrom data n m).dtr = m.dtr := by
  induction n with
  | zero =>
    intro m
    exact ⟨rfl, rfl⟩
  | succ n ih =>
    intro m
    rw [packFrom, (ih _).1, (ih _).2]
    exact packCase_frame data m (n + 1)

/-- A case reads the byte that it is for. -/
theorem packCopy_src {k : Nat} (hk : k < 8) : ∀ copy ∈ packCopy (k + 1), copy.src = k := by
  interval_cases k <;> simp [packCopy]

theorem packReads_within {n : Nat} (hn : n ≤ 8) : ∀ i ∈ packReads n, i < n := by
  induction n with
  | zero => simp [packReads]
  | succ n ih =>
    intro i hi
    rw [packReads, List.mem_append, List.mem_map] at hi
    rcases hi with ⟨copy, hcopy, rfl⟩ | hi
    · rw [packCopy_src (by omega) copy (Option.mem_toList.mp hcopy)]
      exact Nat.lt_succ_self n
    · exact (ih (by omega) i hi).trans (Nat.lt_succ_self n)

/-- A case of the other switch reads the lane of its byte. -/
theorem unpackCase_byte (m : Mailbox) {k : Nat} (hk : k < 8) :
    unpackCase m (k + 1) = [(k, m.byte k)] := by
  have hmasked : ∀ w : U32, ((w &&& 0xFF000000#32) >>> 24).setWidth 8 = (w >>> 24).setWidth 8 ∧
      ((w &&& 0x00FF0000#32) >>> 16).setWidth 8 = (w >>> 16).setWidth 8 ∧
      ((w &&& 0x0000FF00#32) >>> 8).setWidth 8 = (w >>> 8).setWidth 8 ∧
      (w &&& 0x000000FF#32).setWidth 8 = w.setWidth 8 := by
    intro w
    refine ⟨?_, ?_, ?_, ?_⟩ <;>
    · apply BitVec.eq_of_getLsbD_eq
      intro i hi
      interval_cases i <;> simp
  obtain ⟨h₃, h₂, h₁, h₀⟩ := hmasked m.dlr
  obtain ⟨h₇, h₆, h₅, h₄⟩ := hmasked m.dhr
  interval_cases k <;> simp [unpackCase, Mailbox.byte, *]

/-- The bytes that are copied and where to, from the last to the first. -/
theorem unpackFrom_eq (m : Mailbox) {n : Nat} (hn : n ≤ 8) :
    unpackFrom m n = (List.range n).reverse.map fun i => (i, m.byte i) := by
  induction n with
  | zero => rfl
  | succ n ih =>
    rw [unpackFrom, unpackCase_byte m (by omega), ih (by omega), List.range_succ,
      List.reverse_append]
    rfl

/-- A frame as the receiver finds it. -/
def onBus (m : Mailbox) : Mailbox := { m with ir := m.ir &&& ~~~canTirTxrq }

/-- What a call that finds a free mailbox does. -/
structure Sends (id len : U32) (data : Nat → U8) (c : Can) : Prop where
  ret : (cnCANSend id len data c).ret = min len.toNat 8
  reads : ∀ i ∈ (cnCANSend id len data c).reads, i < min len.toNat 8
  mailboxes : ∀ k ≠ c.code, (cnCANSend id len data c).can.outbox k = c.outbox k
  registers : { (cnCANSend id len data c).can with outbox := c.outbox } = c

/-- What a call returns for a frame that was sent. -/
structure Receives (id len maxLen : U32) (data : Nat → U8) (r : Received) : Prop where
  ret : r.ret = min (min len.toNat 8) maxLen.toNat
  recvId : ∃ v, r.recvId = some v ∧ v >>> 1 = id >>> 1
  data : r.data = (List.range (min (min len.toNat 8) maxLen.toNat)).reverse.map fun i => (i, data i)

/-- The length that is sent. -/
theorem truncated (len : U32) : (if len ≤ 8 then len else 8).toNat = min len.toNat 8 := by
  have height : (8 : U32).toNat = 8 := rfl
  split_ifs with h
  · rw [BitVec.le_def, height] at h
    omega
  · rw [BitVec.le_def, height] at h
    omega

theorem small_toInt {v : U32} (h : v.toNat ≤ 15) : v.toInt = v.toNat :=
  BitVec.toInt_eq_toNat_of_lt (by omega)

/-- The mailbox that a call fills. -/
theorem send_outbox (id len : U32) (data : Nat → U8) {c : Can}
    (hfree : c.tsr &&& (canTsrTme0 ||| canTsrTme1 ||| canTsrTme2) ≠ 0) :
    ∃ m : Mailbox, (cnCANSend id len data c).can.outbox c.code = m ∧
      m.ir = id &&& ~~~canTirTxrq ||| canTirTxrq ∧
      (m.dtr &&& canDtrDlc).toNat = min len.toNat 8 ∧
      ∀ i < min len.toNat 8, m.byte i = data i := by
  have hlen := truncated len
  refine ⟨_, rfl, ?_, ?_, ?_⟩
  · simp only [cnCANSend, if_neg hfree, Function.update_self, (packFrom_frame data _ _).1]
  · have hmask : ∀ v : U32, v.toNat ≤ 8 → (v &&& canDtrDlc &&& canDtrDlc).toNat = v.toNat := by
      intro v hv
      have hdlc : canDtrDlc.toNat = 2 ^ 4 - 1 := rfl
      rw [BitVec.toNat_and, BitVec.toNat_and, hdlc, Nat.and_two_pow_sub_one_eq_mod,
        Nat.and_two_pow_sub_one_eq_mod]
      omega
    simp only [cnCANSend, if_neg hfree, Function.update_self, (packFrom_frame data _ _).2]
    rw [hmask _ (by omega), hlen]
  · intro i hi
    simp only [cnCANSend, if_neg hfree, Function.update_self]
    have hpacked := packFrom_byte data (n := min len.toNat 8) (i := i) (by omega) (by omega)
      ⟨id &&& ~~~canTirTxrq, (if len ≤ 8 then len else 8) &&& canDtrDlc, 0, 0⟩
    rw [if_pos hi] at hpacked
    rw [hlen]
    refine hpacked.trans ?_
    simp [Mailbox.byte]

theorem sends {id len : U32} {data : Nat → U8} {c : Can}
    (hfree : c.tsr &&& (canTsrTme0 ||| canTsrTme1 ||| canTsrTme2) ≠ 0) : Sends id len data c := by
  have hlen := truncated len
  constructor
  · simp only [cnCANSend, if_neg hfree]
    rw [small_toInt (by omega), hlen]
  · intro i hi
    simp only [cnCANSend, if_neg hfree, hlen] at hi
    exact packReads_within (by omega) i hi
  · intro k hk
    simp only [cnCANSend, if_neg hfree]
    exact Function.update_of_ne hk _ _
  · simp only [cnCANSend, if_neg hfree]

/-- The length code of the frame in FIFO 0. -/
def Can.dlc (c : Can) : Nat := (c.inbox.dtr &&& canDtrDlc).toNat

theorem dlc_le (c : Can) : c.dlc ≤ 15 := by
  have hdlc : canDtrDlc.toNat = 2 ^ 4 - 1 := rfl
  rw [Can.dlc, BitVec.toNat_and, hdlc, Nat.and_two_pow_sub_one_eq_mod]
  omega

/-- What a call returns for the frame in FIFO 0. -/
theorem recv_eq (maxLen : U32) {c : Can} (hfull : c.rf0r &&& canRfrFmp ≠ 0) :
    (cnCANRecv maxLen c).ret = min maxLen.toNat c.dlc ∧
      (cnCANRecv maxLen c).recvId = some c.inbox.ir ∧
      (cnCANRecv maxLen c).data =
        (List.range (min (min maxLen.toNat c.dlc) 8)).reverse.map fun i => (i, c.inbox.byte i) := by
  have hdlc := dlc_le c
  have hlen : (if maxLen < c.inbox.dtr &&& canDtrDlc then maxLen
      else c.inbox.dtr &&& canDtrDlc).toNat = min maxLen.toNat c.dlc := by
    rw [Can.dlc]
    split_ifs with h
    · rw [BitVec.lt_def] at h
      omega
    · rw [BitVec.lt_def] at h
      omega
  have hcopied : ∀ v : U32, v.toNat = min maxLen.toNat c.dlc →
      (if v ≤ 8 then v.toNat else 8) = min (min maxLen.toNat c.dlc) 8 := by
    intro v hv
    have height : (8 : U32).toNat = 8 := rfl
    split_ifs with h
    · rw [BitVec.le_def, height] at h
      omega
    · rw [BitVec.le_def, height] at h
      omega
  simp only [cnCANRecv, if_neg hfull]
  refine ⟨?_, trivial, ?_⟩
  · rw [small_toInt (by omega), hlen]
  · rw [hcopied _ hlen, unpackFrom_eq _ (Nat.min_le_right _ _)]

theorem receives {id len maxLen : U32} {data : Nat → U8} {c c' : Can}
    (hfree : c.tsr &&& (canTsrTme0 ||| canTsrTme1 ||| canTsrTme2) ≠ 0)
    (hfull : c'.rf0r &&& canRfrFmp ≠ 0)
    (hbus : c'.inbox = onBus ((cnCANSend id len data c).can.outbox c.code)) :
    Receives id len maxLen data (cnCANRecv maxLen c') := by
  obtain ⟨m, hm, hir, hdlc, hbytes⟩ := send_outbox id len data hfree
  obtain ⟨hret, hid, hdata⟩ := recv_eq maxLen hfull
  rw [hm] at hbus
  have hlen : c'.dlc = min len.toNat 8 := by
    rw [Can.dlc, hbus]
    exact hdlc
  have hcount : min (min maxLen.toNat c'.dlc) 8 = min (min len.toNat 8) maxLen.toNat := by omega
  constructor
  · rw [hret]
    omega
  · refine ⟨_, hid, ?_⟩
    rw [hbus, onBus, hir]
    apply BitVec.eq_of_getLsbD_eq
    intro i hi
    interval_cases i <;> simp [canTirTxrq]
  · rw [hdata, hcount]
    refine List.map_congr_left fun i hi => ?_
    rw [List.mem_reverse, List.mem_range] at hi
    have hbyte : c'.inbox.byte i = m.byte i := by rw [hbus]; rfl
    rw [hbyte, hbytes i (by omega)]

/-- A call without a free mailbox does nothing. Otherwise it fills one mailbox, and who
gets that frame reads what was sent, cut to what fits. -/
theorem frame_round_trip (id len maxLen : U32) (data : Nat → U8) (c c' : Can) :
    (c.tsr &&& (canTsrTme0 ||| canTsrTme1 ||| canTsrTme2) = 0 →
      cnCANSend id len data c = ⟨-1, [], c⟩) ∧
    (c.tsr &&& (canTsrTme0 ||| canTsrTme1 ||| canTsrTme2) ≠ 0 → Sends id len data c ∧
      (c'.rf0r &&& canRfrFmp ≠ 0 →
        c'.inbox = onBus ((cnCANSend id len data c).can.outbox c.code) →
        Receives id len maxLen data (cnCANRecv maxLen c'))) :=
  ⟨fun hfull => by rw [cnCANSend, if_pos hfull],
    fun hfree => ⟨sends hfree, fun hpending hbus => receives hfree hpending hbus⟩⟩

/-- All mailboxes are free and FIFO 0 is empty. -/
def idleCan : Can := ⟨0x1C000000#32, 0, fun _ => ⟨0, 0, 0, 0⟩, ⟨0, 0, 0, 0⟩⟩

/-- FIFO 0 has a frame. -/
def Can.pending (m : Mailbox) (c : Can) : Can := { c with rf0r := 0x00000001#32, inbox := m }

/-- A PROG_REQ_RESP with its five bytes. -/
theorem frame_round_trip_five :
    let sent := cnCANSend 0xCB0012A4#32 5 (BitVec.ofNat 8) idleCan
    let got := cnCANRecv 8 (idleCan.pending (onBus (sent.can.outbox idleCan.code)))
    Sends 0xCB0012A4#32 5 (BitVec.ofNat 8) idleCan ∧
      Receives 0xCB0012A4#32 5 8 (BitVec.ofNat 8) got := by
  intro sent got
  have hsends := (frame_round_trip 0xCB0012A4#32 5 8 (BitVec.ofNat 8) idleCan
    (idleCan.pending (onBus (sent.can.outbox idleCan.code)))).2 (by decide)
  exact ⟨hsends.1, hsends.2 (by decide) rfl⟩

end CANnuccia.Stm32Can

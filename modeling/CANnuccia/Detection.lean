import CANnuccia.Crc16
import CANnuccia.Integrity

/-!
# Errors that CHECK_WRITES detects

The master compares the checksum of what it wrote with the one of the page buffer. Two
buffers that differ in a burst of 16 bits, or in two bits, do not have the same.
-/
namespace CANnuccia.Pump

open Util
open Crc (bit crc)

/-- The bits that differ lie within 16 in a row, or there are two of them in a buffer no
longer than the largest page. Bits are numbered from the highest of the first byte on. -/
inductive Corrupted (a b : List U8) : Prop
  | burst (start : Nat) (hsome : ∃ i, bit a i ≠ bit b i)
      (hburst : ∀ i, bit a i ≠ bit b i → start ≤ i ∧ i < start + 16)
  | two (i j : Nat) (hne : i ≠ j) (htwo : ∀ n, bit a n ≠ bit b n ↔ n = i ∨ n = j)
      (hpage : a.length ≤ 1024)

variable {a b : List U8}

theorem crc_detected (hlen : a.length = b.length) (h : Corrupted a b) :
    crc xmodem a ≠ crc xmodem b := by
  have hlow : (Crc.gen xmodem).coeff 0 ≠ 0 := by
    rw [gen_xmodem]
    simp
  cases h with
  | burst start hsome hburst => exact Crc.burst_detected (by decide) hlow hlen hsome hburst
  | two i j hne htwo hpage =>
    have horder : 8 * a.length ≤ orderOf (AdjoinRoot.root (Crc.gen xmodem)) := by
      rw [order_xmodem]
      omega
    rcases Nat.lt_or_gt_of_ne hne with hij | hji
    · exact Crc.two_detected (by decide) hlow hlen hij htwo horder
    · exact Crc.two_detected (by decide) hlow hlen hji (fun n => (htwo n).trans or_comm) horder

theorem cnCRC16_crc (t : Target) (data : List U8) : t.backend.cnCRC16 data = crc xmodem data := by
  cases t
  · exact stm32CnCRC16_crc data
  · exact avrCnCRC16_crc data

/-- On either build such an error changes the checksum. -/
theorem corruption_detected (t : Target) (a b : List U8) (hlen : a.length = b.length)
    (h : Corrupted a b) : t.backend.cnCRC16 a ≠ t.backend.cnCRC16 b := by
  rw [cnCRC16_crc, cnCRC16_crc]
  exact crc_detected hlen h

/-- The highest bits of the first and of the last byte are flipped. -/
theorem corruption_detected_two : Corrupted [0x00#8, 0x31#8, 0x00#8] [0x80#8, 0x31#8, 0x80#8] ∧
    Target.stm32.backend.cnCRC16 [0x00#8, 0x31#8, 0x00#8] ≠
      Target.stm32.backend.cnCRC16 [0x80#8, 0x31#8, 0x80#8] := by
  have h : Corrupted [0x00#8, 0x31#8, 0x00#8] [0x80#8, 0x31#8, 0x80#8] := by
    refine .two 0 16 (by decide) (fun n => ?_) (by decide)
    by_cases hn : n < 24
    · revert n
      decide
    · rw [Crc.bit_none _ (show 8 * 3 ≤ n by omega), Crc.bit_none _ (show 8 * 3 ≤ n by omega)]
      exact iff_of_false (fun hne => hne rfl) (by omega)
  exact ⟨h, corruption_detected .stm32 _ _ rfl h⟩

/-- The answers to CHECK_WRITES tell such page buffers apart. -/
theorem checkWrites_detects (t : Target) (devId : U8) {p q : Page t.backend}
    (h : Corrupted p.writes.toList q.writes.toList) : checkWrites devId p ≠ checkWrites devId q := by
  intro hsame
  have hcrc := cnWriteU16LE_injective (reply_injective (List.singleton_inj.mp hsame))
  rw [cnCRC16_crc, cnCRC16_crc] at hcrc
  exact crc_detected (by rw [Vector.length_toList, Vector.length_toList]) h hcrc

end CANnuccia.Pump

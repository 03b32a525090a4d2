import CANnuccia.Crc
import CANnuccia.Util
import Mathlib.Tactic.NormNum.Prime

/-!
# CRC-16/XMODEM

Both loops of `cnCRC16` are the shift register of 16 bits with the polynomial 0x1021. The
one of stm32/util.c keeps it in an `int`, where the bit that is shifted out can be tested
after the shift; the one of avr/util.c tests it before.
-/
namespace CANnuccia.Util

open Polynomial
open Crc (step feed crc poly gen message residue powerX)

/-- The low part of x^16 + x^12 + x^5 + 1. -/
abbrev xmodem : U16 := 0x1021#16

/-- The bit tested by `crc & 0x10000` is the one that leaves a 16-bit register. -/
theorem stm32CrcBit_test (c : U16) :
    (c.setWidth 32 <<< 1) &&& 0x10000#32 ≠ 0 ↔ c.msb = true := by
  have hbit : (0x10000#32 : U32) = BitVec.twoPow 32 16 := by decide
  have hmsb : (c.setWidth 32 <<< 1).getLsbD 16 = c.msb := by
    rw [BitVec.msb_eq_getLsbD_last]
    simp
  rw [hbit, BitVec.and_twoPow, hmsb]
  cases c.msb <;> decide

/-- A turn of the inner loop on a value of 16 bits is a step of the register. -/
theorem stm32CrcBit_step (r : U16) : stm32CrcBit (r.setWidth 32) = (step xmodem r).setWidth 32 := by
  rw [stm32CrcBit, step]
  by_cases h : r.msb = true
  · rw [if_pos ((stm32CrcBit_test r).mpr h), if_pos h]
    apply BitVec.eq_of_getLsbD_eq
    intro i hi
    interval_cases i <;> simp [cnCrc16Polynomial]
  · rw [if_neg (mt (stm32CrcBit_test r).mp h), if_neg h]
    have hmsb : r[15] = false := by
      rw [Bool.not_eq_true, BitVec.msb_eq_getLsbD_last] at h
      exact h
    apply BitVec.eq_of_getLsbD_eq
    intro i hi
    interval_cases i <;> simp [hmsb]

theorem stm32CrcBit_steps (c : U16) (n : Nat) :
    Nat.repeat stm32CrcBit n (c.setWidth 32) = (Nat.repeat (step xmodem) n c).setWidth 32 := by
  induction n with
  | zero => rfl
  | succ n ih => rw [Nat.repeat, Nat.repeat, ih, stm32CrcBit_step]

/-- `crc ^= (*it << 8)` -/
theorem stm32Crc_xor (c : U16) (b : U8) :
    c.setWidth 32 ^^^ b.setWidth 32 <<< 8 = (c ^^^ b.setWidth 16 <<< 8).setWidth 32 := by
  apply BitVec.eq_of_getLsbD_eq
  intro i hi
  interval_cases i <;> simp

theorem stm32CrcByte_feed (c : U16) (b : U8) :
    stm32CrcByte (c.setWidth 32) b = (feed xmodem c b).setWidth 32 := by
  rw [stm32CrcByte, stm32Crc_xor, stm32CrcBit_steps]
  rfl

theorem stm32Crc_fold (data : List U8) (c : U16) :
    data.foldl stm32CrcByte (c.setWidth 32) = (data.foldl (feed xmodem) c).setWidth 32 := by
  induction data generalizing c with
  | nil => rfl
  | cons b data ih => rw [List.foldl_cons, List.foldl_cons, stm32CrcByte_feed, ih]

theorem stm32CnCRC16_crc (data : List U8) : stm32CnCRC16 data = crc xmodem data := by
  have hfold := stm32Crc_fold data 0
  have hinit : (0 : U16).setWidth 32 = BitVec.ofNat 32 cnCrc16Initval := by decide
  rw [hinit] at hfold
  rw [stm32CnCRC16, hfold, BitVec.setWidth_setWidth_of_le _ (by decide), BitVec.setWidth_eq]
  rfl

/-- `crc & 0x8000` is the same test. -/
theorem crcXmodemUpdate_feed (c : U16) (b : U8) : crcXmodemUpdate c b = feed xmodem c b := by
  have hstep : (fun c : U16 => if c &&& 0x8000#16 ≠ 0 then (c <<< 1) ^^^ 0x1021#16 else c <<< 1) =
      step xmodem := by
    funext c
    have hbit : (0x8000#16 : U16) = BitVec.twoPow 16 15 := by decide
    have hmsb : c.getLsbD 15 = c.msb := (BitVec.msb_eq_getLsbD_last c).symm
    rw [step, hbit, BitVec.and_twoPow, hmsb]
    cases c.msb <;> rfl
  rw [crcXmodemUpdate, hstep]
  rfl

theorem avrCnCRC16_crc (data : List U8) : avrCnCRC16 data = crc xmodem data := by
  have hfeed : crcXmodemUpdate = feed (k := 8) xmodem := by
    funext c b
    exact crcXmodemUpdate_feed c b
  rw [avrCnCRC16, hfeed]
  rfl

/-- The master computes one checksum for both targets. -/
theorem cnCRC16_agree (data : List U8) : stm32CnCRC16 data = avrCnCRC16 data := by
  rw [stm32CnCRC16_crc, avrCnCRC16_crc]

theorem gen_xmodem : gen xmodem = X ^ 16 + X ^ 12 + X ^ 5 + 1 := by
  have hpoly : poly xmodem = X ^ 12 + X ^ 5 + 1 := by
    ext i
    rw [Crc.poly_coeff, coeff_add, coeff_add, coeff_X_pow, coeff_X_pow, coeff_one]
    by_cases hi : i < 16
    · interval_cases i <;> decide
    · have hout : xmodem.getLsbD i = false := BitVec.getLsbD_of_ge _ i (by omega)
      rw [hout, if_neg (by omega), if_neg (by omega), if_neg (by omega)]
      decide
  rw [gen, hpoly, add_assoc, add_assoc, add_assoc]

/-- The `int` of stm32/util.c after `n` turns of the inner loop for byte `i`. -/
def stm32CrcInt (data : List U8) (i n : Nat) : U32 :=
  Nat.repeat stm32CrcBit n
    ((data.take i).foldl stm32CrcByte (BitVec.ofNat 32 cnCrc16Initval) ^^^
      (data.getD i 0).setWidth 32 <<< 8)

/-- Eight turns lead to the next byte. -/
theorem stm32CrcInt_eight {data : List U8} {i : Nat} (hi : i < data.length) :
    stm32CrcInt data i 8 =
      (data.take (i + 1)).foldl stm32CrcByte (BitVec.ofNat 32 cnCrc16Initval) := by
  rw [List.take_add_one, List.getElem?_eq_getElem hi, Option.toList_some, List.foldl_append,
    stm32CrcInt, List.getD_eq_getElem _ _ hi]
  rfl

/-- The `int` always holds what a register of 16 bits does. -/
theorem stm32CrcInt_register (data : List U8) (i n : Nat) :
    ∃ c : U16, stm32CrcInt data i n = c.setWidth 32 := by
  have hinit : BitVec.ofNat 32 cnCrc16Initval = (0 : U16).setWidth 32 := by decide
  rw [stm32CrcInt, hinit, stm32Crc_fold, stm32Crc_xor, stm32CrcBit_steps]
  exact ⟨_, rfl⟩

/-- The checksum is the remainder of CRC-16/XMODEM, and the `int` neither leaves the range
of 16 bits nor overflows when it is shifted. -/
theorem stm32CnCRC16_xmodem (data : List U8) :
    poly (stm32CnCRC16 data) = (message data * X ^ 16) %ₘ (X ^ 16 + X ^ 12 + X ^ 5 + 1) ∧
      ∀ i n, 0 ≤ (stm32CrcInt data i n).toInt ∧ (stm32CrcInt data i n).toInt ≤ 0xFFFF ∧
        (stm32CrcInt data i n <<< 1).toInt = 2 * (stm32CrcInt data i n).toInt := by
  constructor
  · rw [stm32CnCRC16_crc, Crc.crc_remainder (by decide), gen_xmodem]
  · intro i n
    obtain ⟨c, hc⟩ := stm32CrcInt_register data i n
    have hlt := c.isLt
    have hsmall : (c.setWidth 32).toNat = c.toNat := by
      rw [BitVec.toNat_setWidth, Nat.mod_eq_of_lt (by omega)]
    have hdouble : (c.setWidth 32 <<< 1).toNat = 2 * c.toNat := by
      rw [BitVec.toNat_shiftLeft, hsmall, Nat.shiftLeft_eq, Nat.mod_eq_of_lt (by omega)]
      omega
    rw [hc, BitVec.toInt_eq_toNat_of_lt (by omega), BitVec.toInt_eq_toNat_of_lt (by omega), hsmall,
      hdouble]
    omega

/-- x is a unit that comes back to one after 32767 steps and no divisor of them. -/
theorem order_xmodem : orderOf (AdjoinRoot.root (gen xmodem)) = 32767 := by
  have hpower : ∀ bs, AdjoinRoot.root (gen xmodem) ^ bs.foldr Nat.bit 0 = 1 ↔ powerX xmodem bs = 1 := by
    intro bs
    rw [← Crc.residue_powerX, ← Crc.residue_one xmodem]
    exact ⟨fun h => Crc.residue_injective h, fun h => congrArg _ h⟩
  apply orderOf_eq_of_pow_and_pow_div_prime (by decide)
  · exact (hpower (List.replicate 15 true)).mpr (by decide +kernel)
  · intro p hp hdvd
    have hfactors : p = 7 ∨ p = 31 ∨ p = 151 := by
      have hsplit : 32767 = 7 * (31 * 151) := by decide
      rw [hsplit, hp.dvd_mul, hp.dvd_mul, Nat.prime_dvd_prime_iff_eq hp (by norm_num),
        Nat.prime_dvd_prime_iff_eq hp (by norm_num), Nat.prime_dvd_prime_iff_eq hp (by norm_num)] at hdvd
      exact hdvd
    rcases hfactors with rfl | rfl | rfl
    -- 4681, 1057 and 217 in binary
    · exact mt (hpower [true, false, false, true, false, false, true, false, false, true, false,
        false, true]).mp (by decide +kernel)
    · exact mt (hpower [true, false, false, false, false, true, false, false, false, false,
        true]).mp (by decide +kernel)
    · exact mt (hpower [true, false, false, true, true, false, true, true]).mp (by decide +kernel)

end CANnuccia.Util

import Mathlib.Data.Nat.Bitwise
import Mathlib.Tactic.IntervalCases
import Mathlib.Tactic.Ring

/-!
# Integer codecs, logarithms and checksums (common/util.h, stm32/util.c, avr/util.c)
-/
namespace CANnuccia.Util

abbrev U8 := BitVec 8
abbrev U16 := BitVec 16
abbrev U32 := BitVec 32

/-- The two bytes of a little-endian U16. -/
def cnWriteU16LE (u16 : U16) : List U8 :=
  [(u16 &&& 0x00FF#16).setWidth 8, ((u16 &&& 0xFF00#16) >>> 8).setWidth 8]

/-- Reads the first four bytes; the callers check that there are four. -/
def cnReadU32LE (bytes : List U8) : U32 :=
  (bytes.getD 0 0).setWidth 32
    ||| (bytes.getD 1 0).setWidth 32 <<< 8
    ||| (bytes.getD 2 0).setWidth 32 <<< 16
    ||| (bytes.getD 3 0).setWidth 32 <<< 24

/-- The four bytes of a little-endian U32. -/
def cnWriteU32LE (u32 : U32) : List U8 :=
  [(u32 &&& 0x000000FF#32).setWidth 8,
    ((u32 &&& 0x0000FF00#32) >>> 8).setWidth 8,
    ((u32 &&& 0x00FF0000#32) >>> 16).setWidth 8,
    ((u32 &&& 0xFF000000#32) >>> 24).setWidth 8]

@[simp] theorem cnWriteU32LE_length (u : U32) : (cnWriteU32LE u).length = 4 := rfl

/-- The four byte lanes cover the word without overlap. -/
@[simp] theorem cnReadU32LE_cnWriteU32LE (u : U32) : cnReadU32LE (cnWriteU32LE u) = u := by
  apply BitVec.eq_of_getLsbD_eq
  intro i hi
  interval_cases i <;> simp [cnReadU32LE, cnWriteU32LE]

theorem cnWriteU32LE_injective {u v : U32} (h : cnWriteU32LE u = cnWriteU32LE v) : u = v := by
  have hread := congrArg cnReadU32LE h
  simpa using hread

/-- The half word that a little-endian load reads from two bytes. -/
def word (lo hi : U8) : U16 := hi.setWidth 16 <<< 8 ||| lo.setWidth 16

@[simp] theorem word_lo (lo hi : U8) : (word lo hi).setWidth 8 = lo := by
  apply BitVec.eq_of_getLsbD_eq
  intro i h
  interval_cases i <;> simp [word]

@[simp] theorem word_hi (lo hi : U8) : (word lo hi >>> 8).setWidth 8 = hi := by
  apply BitVec.eq_of_getLsbD_eq
  intro i h
  interval_cases i <;> simp [word]

/-- The branch both compilers take: trailing zeroes, or a negative value for zero. -/
def cnLog2I {w : Nat} (n : BitVec w) : Int :=
  if n = 0 then -1 else n.ctz.toNat

example : cnLog2I 0x400#32 = 10 ∧ cnLog2I 0x80#16 = 7 := by decide +kernel

/-- The loop of the other branch, from a value of `lg2` on. -/
def log2Loop {w : Nat} (n : BitVec w) (lg2 : Int) : Int :=
  if n = 0 then lg2 else log2Loop (n >>> 1) (lg2 + 1)
termination_by n.toNat
decreasing_by
  rename_i hn
  have hpos : n.toNat ≠ 0 := fun h => hn (BitVec.eq_of_toNat_eq h)
  rw [BitVec.toNat_ushiftRight, Nat.shiftRight_one]
  omega

/-- The branch of other compilers. -/
def portableCnLog2I {w : Nat} (n : BitVec w) : Int := if n = 0 then -1 else log2Loop n (-1)

/-- Each turn halves what is left. -/
theorem log2Loop_eq {w : Nat} (n : BitVec w) (lg2 : Int) :
    log2Loop n lg2 = if n = 0 then lg2 else lg2 + n.toNat.log2 + 1 := by
  fun_induction log2Loop n lg2 with
  | case1 => rfl
  | case2 n lg2 hn ih =>
    have hhalf : (n >>> 1).toNat = n.toNat / 2 := by
      rw [BitVec.toNat_ushiftRight, Nat.shiftRight_one]
    have hpos : n.toNat ≠ 0 := fun h => hn (BitVec.eq_of_toNat_eq h)
    rw [ih, if_neg hn]
    split_ifs with hlast
    · have hzero : n.toNat / 2 = 0 := by rw [← hhalf, hlast]; rfl
      have hone : n.toNat = 1 := by omega
      have hlog : Nat.log2 1 = 0 := by decide
      rw [hone, hlog]
      ring
    · have hnext : n.toNat / 2 ≠ 0 := fun h => hlast (BitVec.eq_of_toNat_eq (hhalf.trans h))
      rw [hhalf, Nat.log2_def n.toNat, if_pos (by omega)]
      push_cast
      ring

theorem portableCnLog2I_eq {w : Nat} {n : BitVec w} (hn : n ≠ 0) :
    portableCnLog2I n = n.toNat.log2 := by
  rw [portableCnLog2I, if_neg hn, log2Loop_eq, if_neg hn]
  ring

/-- The zero bits at the lower end are a power of two that divides the word. -/
theorem ctz_dvd {w : Nat} (n : BitVec w) : 2 ^ n.ctz.toNat ∣ n.toNat := by
  apply Nat.dvd_of_mod_eq_zero
  apply Nat.eq_of_testBit_eq
  intro i
  rw [Nat.testBit_mod_two_pow, Nat.zero_testBit]
  by_cases hi : i < n.ctz.toNat
  · have hzero : n.toNat.testBit i = false := BitVec.getLsbD_false_of_lt_ctz hi
    rw [hzero, Bool.and_false]
  · rw [decide_eq_false hi, Bool.false_and]

/-- Both branches give the integer logarithm. -/
def Log2Right {w : Nat} (n : BitVec w) : Prop :=
  ∃ r : Nat, 2 ^ r ≤ n.toNat ∧ n.toNat < 2 ^ (r + 1) ∧ cnLog2I n = r ∧ portableCnLog2I n = r

/-- They do for the powers of two, which is what the program passes. -/
theorem log2_right {w : Nat} (n : BitVec w) : Log2Right n ↔ ∃ k, n.toNat = 2 ^ k := by
  constructor
  · rintro ⟨r, hle, hlt, hctz, _⟩
    have hn : n ≠ 0 := by
      rintro rfl
      have hpos := Nat.two_pow_pos r
      rw [show (0 : BitVec w).toNat = 0 from rfl] at hle
      omega
    rw [cnLog2I, if_neg hn, Int.ofNat_inj] at hctz
    obtain ⟨q, hq⟩ := ctz_dvd n
    rw [hctz] at hq
    rw [hq, Nat.pow_succ] at hlt
    rw [hq] at hle
    have hq₁ : q < 2 := Nat.lt_of_mul_lt_mul_left hlt
    have hq₀ : q ≠ 0 := by
      rintro rfl
      have hpos := Nat.two_pow_pos r
      omega
    refine ⟨r, ?_⟩
    rw [hq, show q = 1 by omega, Nat.mul_one]
  · rintro ⟨k, hk⟩
    have hn : n ≠ 0 := by
      rintro rfl
      exact absurd hk (Nat.two_pow_pos k).ne
    have hctz : n.ctz.toNat = k := by
      have hbit : n.toNat.testBit n.ctz.toNat = true := BitVec.getLsbD_true_ctz_of_ne_zero hn
      rw [hk, Nat.testBit_two_pow, decide_eq_true_eq] at hbit
      exact hbit.symm
    refine ⟨k, hk.ge, ?_, ?_, ?_⟩
    · rw [hk]
      exact Nat.pow_lt_pow_right (by decide) (Nat.lt_succ_self k)
    · rw [cnLog2I, if_neg hn, hctz]
    · rw [portableCnLog2I_eq hn, hk, Nat.log2_two_pow]

/-- Six is between four and eight, but has one zero bit at the end. -/
theorem log2_six : cnLog2I 6#32 = 1 ∧ portableCnLog2I 6#32 = 2 ∧
    ¬ ∀ n : U32, 0 < n → Log2Right n := by
  have hctz : cnLog2I 6#32 = 1 := by decide +kernel
  have hlog : portableCnLog2I 6#32 = 2 := by
    rw [portableCnLog2I_eq (by decide)]
    decide +kernel
  refine ⟨hctz, hlog, fun h => ?_⟩
  obtain ⟨r, _, _, h₁, h₂⟩ := h 6#32 (by decide)
  rw [hctz] at h₁
  rw [hlog, ← h₁] at h₂
  exact absurd h₂ (by decide)

def cnCrc16Initval : Nat := 0x0000

def cnCrc16Polynomial : Nat := 0x1021

/-- One turn of the inner loop of stm32/util.c; `crc` is a 32-bit int. -/
def stm32CrcBit (crc : U32) : U32 :=
  let crc := crc <<< 1
  if crc &&& 0x10000#32 ≠ 0 then (crc ^^^ BitVec.ofNat 32 cnCrc16Polynomial) &&& 0xFFFF#32
  else crc

def stm32CrcByte (crc : U32) (byte : U8) : U32 :=
  Nat.repeat stm32CrcBit 8 (crc ^^^ (byte.setWidth 32 <<< 8))

/-- `cnCRC16` of stm32/util.c. -/
def stm32CnCRC16 (data : List U8) : U16 :=
  (data.foldl stm32CrcByte (BitVec.ofNat 32 cnCrc16Initval)).setWidth 16

/-- The documented C equivalent of avr-libc's `_crc_xmodem_update`. -/
def crcXmodemUpdate (crc : U16) (data : U8) : U16 :=
  Nat.repeat (fun crc => if crc &&& 0x8000#16 ≠ 0 then (crc <<< 1) ^^^ 0x1021#16 else crc <<< 1) 8
    (crc ^^^ (data.setWidth 16 <<< 8))

/-- `cnCRC16` of avr/util.c. -/
def avrCnCRC16 (data : List U8) : U16 := data.foldl crcXmodemUpdate 0x0000#16

example : stm32CnCRC16 [0x31#8, 0x32#8, 0x33#8] = avrCnCRC16 [0x31#8, 0x32#8, 0x33#8] := by
  decide +kernel

end CANnuccia.Util

import CANnuccia.Drivers
import CANnuccia.Overlay

/-!
# The AVR flash driver (avr/flash.c)

`uintptr_t` and `unsigned` have 16 bits. The flash array is written a page at a
time from a temporary buffer of 64 words; avr-libc's `boot_page_*_safe` macros
wait for the previous operation themselves. Bit 15 of an address is ignored by
the ATmega328P. The page size, the mask and the bootloader size are those of the
toolchain file.
-/
namespace CANnuccia.AvrFlash

open Util
open Overlay

def cnFlashPageSize : U16 := 0x80#16
def cnFlashPageMask : U16 := 0xFF80#16
def cnFlashBootloaderSize : U16 := 4096#16

def flashSize : U16 := 0x8000#16

structure Flash where
  mem : Nat → U8
  temp : Nat → U16
  ops : List FlashOp
  flashLocked : Bool
  curPageAddr : U16

/-- The first byte of the page an address lies in. -/
def pageBase (addr : U16) : Nat := addr.toNat % 0x8000 / 128 * 128

/-- The bytes of the temporary buffer, low byte first. -/
def tempBytes (temp : Nat → U16) : List U8 :=
  (List.range 64).flatMap fun i => [(temp i).setWidth 8, (temp i >>> 8).setWidth 8]

def bootPageFillSafe (addr : U16) (w : U16) (f : Flash) : Flash :=
  { f with temp := overlay f.temp (addr.toNat % 128 / 2) [w] }

def bootPageEraseSafe (addr : U16) (f : Flash) : Flash :=
  { f with
    mem := overlay f.mem (pageBase addr) (erased 128)
    ops := f.ops ++ [.erase addr.toNat] }

/-- Copies the buffer to the page and clears the buffer. -/
def bootPageWriteSafe (addr : U16) (f : Flash) : Flash :=
  { f with
    mem := overlay f.mem (pageBase addr) (tempBytes f.temp)
    temp := fun _ => 0xFFFF#16
    ops := f.ops ++ [.program addr.toNat] }

def cnFlashSize : U16 := flashSize

def cnFlashPageWriteable (addr : U16) : Bool :=
  decide (addr + cnFlashPageSize < flashSize - cnFlashBootloaderSize)

def cnFlashUnlock (f : Flash) : Bool × Flash := (true, { f with flashLocked := false })

def cnFlashLock (f : Flash) : Bool × Flash := (true, { f with flashLocked := true })

def cnFlashBeginWrite (addr : U16) (f : Flash) : Bool × Flash :=
  (true, { f with curPageAddr := addr })

/-- The copy loop of `cnFlashFill`, for at most `fuel` tests of its condition;
`src` is how far the source pointer has advanced, in bytes. -/
def fillLoop (offset size : U16) (data : Nat → U8) :
    Nat → U16 → Nat → U16 → Flash → Option (U16 × Flash)
  | 0, _, _, _, _ => none
  | fuel + 1, bytesWritten, src, addr, f =>
    if bytesWritten < size ∧ bytesWritten + offset < cnFlashPageSize then
      fillLoop offset size data fuel (bytesWritten + 2) (src + 2) (addr + 2)
        (bootPageFillSafe addr (word (data src) (data (src + 1))) f)
    else some (bytesWritten, f)

/-- The page bound ends the loop after at most 64 words. -/
def cnFlashFill (offset size : U16) (data : Nat → U8) (f : Flash) : Option (U16 × Flash) :=
  if f.curPageAddr = 0 then some (0, f)
  else fillLoop offset size data 65 0 0 (f.curPageAddr + offset) f

def cnFlashEndWrite (f : Flash) : Bool × Flash :=
  if f.curPageAddr = 0 ∨ f.flashLocked then (false, f)
  else
    -- `SREG` is saved and restored around the two operations, so no interrupt comes between
    let f := bootPageEraseSafe f.curPageAddr f
    let f := bootPageWriteSafe f.curPageAddr f
    (true, { f with curPageAddr := 0 })

/-- The bound is tested on a sum that may wrap around. -/
theorem pageWriteable_iff (addr : U16) :
    cnFlashPageWriteable addr = true ↔ (addr.toNat + 128) % 2 ^ 16 < 0x7000 := by
  simp only [cnFlashPageWriteable, decide_eq_true_iff, BitVec.lt_def, BitVec.toNat_add]
  exact Iff.rfl

theorem pageBase_eq {p : U16} (halign : p.toNat % 128 = 0) (hp : p.toNat < 0x8000) :
    pageBase p = p.toNat := by
  unfold pageBase
  omega

/-- Over a page-aligned address the loop loads every word up to an even size that
stays in the page. The induction is on the words still to load. -/
theorem fillLoop_spec (offset size : U16) (data : Nat → U8) (base : Nat) (hbase : base % 128 = 0)
    (heven : offset.toNat % 2 = 0) (hfit : offset.toNat + size.toNat ≤ 128) (m : Nat) :
    ∀ (fuel src : Nat) (bytesWritten addr : U16) (f : Flash),
      m < fuel → bytesWritten.toNat = src → src % 2 = 0 → size.toNat = src + 2 * m →
      addr = BitVec.ofNat 16 (base + offset.toNat + src) →
      fillLoop offset size data fuel bytesWritten src addr f = some (size,
        { f with
          temp := overlay f.temp ((offset.toNat + src) / 2)
            ((List.range' src m 2).map fun i => word (data i) (data (i + 1))) }) := by
  induction m with
  | zero =>
    intro fuel src bytesWritten addr f hfuel hb he hs ha
    obtain ⟨fuel, rfl⟩ : ∃ n, fuel = n + 1 := ⟨fuel - 1, by omega⟩
    have hdone : ¬ bytesWritten < size := by
      rw [BitVec.lt_def]; omega
    have heq : bytesWritten = size := BitVec.eq_of_toNat_eq (by omega)
    rw [fillLoop, if_neg (fun h => hdone h.1), heq]
    simp
  | succ m ih =>
    intro fuel src bytesWritten addr f hfuel hb he hs ha
    obtain ⟨fuel, rfl⟩ : ∃ n, fuel = n + 1 := ⟨fuel - 1, by omega⟩
    have hgo : bytesWritten < size ∧ bytesWritten + offset < cnFlashPageSize := by
      simp only [BitVec.lt_def, BitVec.toNat_add, hb, cnFlashPageSize, BitVec.toNat_ofNat]
      omega
    have hcell : addr.toNat % 128 / 2 = (offset.toNat + src) / 2 := by
      rw [ha, BitVec.toNat_ofNat]
      omega
    have hb' : (bytesWritten + 2).toNat = src + 2 := by
      rw [BitVec.toNat_add, hb]
      exact Nat.mod_eq_of_lt (by simp; omega)
    have ha' : addr + 2 = BitVec.ofNat 16 (base + offset.toNat + (src + 2)) := by
      rw [ha, ← Nat.add_assoc, BitVec.ofNat_add (base + offset.toNat + src) 2]
      rfl
    rw [fillLoop, if_pos hgo, bootPageFillSafe, hcell]
    rw [ih fuel (src + 2) (bytesWritten + 2) (addr + 2) _ (by omega) hb' (by omega) (by omega) ha']
    have hjoin := overlay_append f.temp ((offset.toNat + src) / 2) [word (data src) (data (src + 1))]
      ((List.range' (src + 2) m 2).map fun i => word (data i) (data (i + 1)))
    have hnext : (offset.toNat + (src + 2)) / 2 = (offset.toNat + src) / 2 + 1 := by omega
    simp only [List.length_cons, List.length_nil, List.cons_append, List.nil_append] at hjoin
    simp only [List.range'_succ, List.map_cons, ← hjoin, hnext]

/-- A byte of the temporary buffer. -/
def tempByte (temp : Nat → U16) (i : Nat) : U8 :=
  if i % 2 = 0 then (temp (i / 2)).setWidth 8 else (temp (i / 2) >>> 8).setWidth 8

theorem tempBytes_eq (temp : Nat → U16) : tempBytes temp = (List.range 128).map (tempByte temp) := by
  have hpairs : ∀ n, (List.range n).flatMap (fun i => [(temp i).setWidth 8, (temp i >>> 8).setWidth 8]) =
      (List.range (2 * n)).map (tempByte temp) := by
    intro n
    induction n with
    | zero => rfl
    | succ n ih =>
      have hlow : tempByte temp (2 * n) = (temp n).setWidth 8 := by
        rw [tempByte, if_pos (by omega), show 2 * n / 2 = n by omega]
      have hhigh : tempByte temp (2 * n + 1) = (temp n >>> 8).setWidth 8 := by
        rw [tempByte, if_neg (by omega), show (2 * n + 1) / 2 = n by omega]
      rw [List.range_succ, List.flatMap_append, ih, show 2 * (n + 1) = 2 * n + 1 + 1 by omega,
        List.range_succ, List.range_succ]
      simp [hlow, hhigh]
  exact hpairs 64

/-- Words filled in from an even byte on are the data as bytes again. -/
theorem tempByte_overlay (temp : Nat → U16) (data : Nat → U8) {offset : Nat} (heven : offset % 2 = 0)
    (m : Nat) :
    tempByte (overlay temp (offset / 2)
        ((List.range' 0 m 2).map fun i => word (data i) (data (i + 1)))) =
      overlay (tempByte temp) offset ((List.range' 0 (2 * m)).map data) := by
  funext i
  by_cases hi : offset ≤ i ∧ i < offset + 2 * m
  · obtain ⟨k, rfl⟩ := Nat.exists_eq_add_of_le hi.1
    have hcell : (offset + k) / 2 = offset / 2 + k / 2 := by omega
    have hword := overlay_inside temp (offset / 2)
      ((List.range' 0 m 2).map fun i => word (data i) (data (i + 1))) (i := k / 2)
      (by rw [List.length_map, List.length_range']; omega)
    have hbyte := overlay_inside (tempByte temp) offset ((List.range' 0 (2 * m)).map data) (i := k)
      (by rw [List.length_map, List.length_range']; omega)
    rw [List.getElem_map, List.getElem_range', Nat.zero_add] at hword hbyte
    rw [hbyte, tempByte, hcell, hword, Nat.one_mul]
    split_ifs with hpar
    · rw [word_lo, show 2 * (k / 2) = k by omega]
    · rw [word_hi, show 2 * (k / 2) + 1 = k by omega]
  · have hcell : ¬ (offset / 2 ≤ i / 2 ∧ i / 2 < offset / 2 + m) := by omega
    rw [overlay_outside _ _ (by rwa [List.length_map, List.length_range']), tempByte,
      overlay_outside _ _ (by rwa [List.length_map, List.length_range']), tempByte]

/-- A buffer filled from the first byte on holds the data. -/
theorem tempBytes_overlay (temp : Nat → U16) (data : Nat → U8) :
    tempBytes (overlay temp 0 ((List.range' 0 64 2).map fun i => word (data i) (data (i + 1)))) =
      (List.range 128).map data := by
  have hbytes := tempByte_overlay temp data (Nat.zero_mod 2) 64
  rw [Nat.zero_div] at hbytes
  rw [tempBytes_eq, hbytes]
  refine List.map_congr_left fun i hi => ?_
  have hbyte := overlay_inside (tempByte temp) 0 ((List.range' 0 128).map data) (i := i)
    (by simpa using hi)
  rw [Nat.zero_add, List.getElem_map, List.getElem_range', Nat.zero_add, Nat.one_mul] at hbyte
  exact hbyte

/-- The loop only loads the temporary buffer. -/
theorem fillLoop_frame (offset size : U16) (data : Nat → U8) :
    ∀ (fuel src : Nat) (bytesWritten addr : U16) (f : Flash) (n : U16) (f' : Flash),
      fillLoop offset size data fuel bytesWritten src addr f = some (n, f') →
      ∃ temp, f' = { f with temp := temp } := by
  intro fuel
  induction fuel with
  | zero =>
    intro src bytesWritten addr f n f' h
    cases h
  | succ fuel ih =>
    intro src bytesWritten addr f n f' h
    rw [fillLoop] at h
    split at h
    · obtain ⟨temp, rfl⟩ := ih _ _ _ _ _ _ h
      exact ⟨temp, rfl⟩
    · cases h
      exact ⟨f.temp, rfl⟩

theorem fill_frame {offset size : U16} {data : Nat → U8} {f f' : Flash} {n : U16}
    (h : cnFlashFill offset size data f = some (n, f')) : ∃ temp, f' = { f with temp := temp } := by
  unfold cnFlashFill at h
  split at h
  · cases h
    exact ⟨f.temp, rfl⟩
  · exact fillLoop_frame _ _ _ _ _ _ _ _ _ _ h

/-- A whole cycle over an unlocked page other than the first erases the page and
copies the data. -/
theorem cycle_done {addr : U16} {f : Flash} (data : Nat → U8) (hl : f.flashLocked = false)
    (hp : addr ≠ 0) (halign : addr.toNat % 128 = 0) :
    ∃ f₂, cnFlashFill 0 cnFlashPageSize data (cnFlashBeginWrite addr f).2 =
        some (cnFlashPageSize, f₂) ∧
      cnFlashEndWrite f₂ = (true,
        { mem := overlay f.mem (pageBase addr) ((List.range 128).map data)
          temp := fun _ => 0xFFFF#16
          ops := f.ops ++ [.erase addr.toNat, .program addr.toNat]
          flashLocked := false
          curPageAddr := 0 }) := by
  have hfill := fillLoop_spec 0 cnFlashPageSize data addr.toNat halign rfl (by decide) 64 65 0 0
    (addr + 0) (cnFlashBeginWrite addr f).2 (by decide) rfl rfl rfl (by simp)
  refine ⟨_, (if_neg hp).trans hfill, ?_⟩
  have hcell : ((0 : U16).toNat + 0) / 2 = 0 := rfl
  have hlen : (erased 128).length ≤ ((List.range 128).map data).length := by simp
  simp only [cnFlashEndWrite, cnFlashBeginWrite, hp, hl, Bool.false_eq_true, or_self, ↓reduceIte,
    bootPageEraseSafe, bootPageWriteSafe]
  rw [hcell, tempBytes_overlay, overlay_overlay _ _ hlen]
  simp

/-- A cycle on the first page, or while locked, ends without a write. -/
theorem cycle_refused {addr n : U16} {f f₂ : Flash} {data : Nat → U8} {offset size : U16}
    (h : addr = 0 ∨ f.flashLocked = true)
    (hfill : cnFlashFill offset size data (cnFlashBeginWrite addr f).2 = some (n, f₂)) :
    cnFlashEndWrite f₂ = (false, f₂) ∧ f₂.mem = f.mem ∧ f₂.ops = f.ops ∧
      f₂.flashLocked = f.flashLocked := by
  obtain ⟨temp, rfl⟩ := fill_frame hfill
  refine ⟨?_, rfl, rfl, rfl⟩
  rw [cnFlashEndWrite]
  exact if_pos h

/-- A locked driver notices at the end of the cycle, which stays open. -/
theorem cycle_locked {addr : U16} {f : Flash} (data : Nat → U8) (hl : f.flashLocked = true)
    (hp : addr ≠ 0) (halign : addr.toNat % 128 = 0) :
    ∃ temp, cnFlashFill 0 cnFlashPageSize data (cnFlashBeginWrite addr f).2 =
        some (cnFlashPageSize, { f with curPageAddr := addr, temp := temp }) ∧
      cnFlashEndWrite { f with curPageAddr := addr, temp := temp } =
        (false, { f with curPageAddr := addr, temp := temp }) := by
  have hfill := fillLoop_spec 0 cnFlashPageSize data addr.toNat halign rfl (by decide) 64 65 0 0
    (addr + 0) (cnFlashBeginWrite addr f).2 (by decide) rfl rfl rfl (by simp)
  exact ⟨_, (if_neg hp).trans hfill, if_pos (.inr hl)⟩

/-- Out of reset the driver refuses to write and no cycle is open. -/
structure AtReset (f : Flash) : Prop where
  flashLocked : f.flashLocked = true
  curPageAddr : f.curPageAddr = 0
  ops : f.ops = []

def driver : FlashDriver 16 where
  Flash := Flash
  cnFlashSize := cnFlashSize
  cnFlashPageWriteable := cnFlashPageWriteable
  cnFlashUnlock := cnFlashUnlock
  cnFlashLock := cnFlashLock
  cnFlashBeginWrite := cnFlashBeginWrite
  cnFlashFill := cnFlashFill
  cnFlashEndWrite := cnFlashEndWrite
  AtReset := AtReset
  contents := Flash.mem
  ops := Flash.ops
  locked := Flash.flashLocked

/-- The lock is tested only at the end of a cycle; nothing before that writes. -/
theorem lockRespected : LockRespected driver where
  reset f h := h.flashLocked
  reset_ops f h := h.ops
  unlock_contents f := rfl
  unlock_ops f := rfl
  unlock_refused f h hu := by cases hu
  lock_contents f := rfl
  lock_ops f := rfl
  lock_locked f := rfl
  beginWrite addr f h := ⟨rfl, h⟩
  fill offset size data f n f' h hf := by
    obtain ⟨temp, rfl⟩ := fill_frame hf
    exact ⟨rfl, h⟩
  endWrite f h := by
    have hl : f.flashLocked = true := h
    simp [driver, cnFlashEndWrite, hl]

theorem unlockLasts : UnlockLasts driver where
  unlock_done f _ := rfl
  beginWrite addr f h := h
  fill offset size data f n f' h hf := by
    obtain ⟨temp, rfl⟩ := fill_frame hf
    exact h
  endWrite f h := by
    simp only [driver, cnFlashEndWrite]
    split
    · exact h
    · exact h

end CANnuccia.AvrFlash

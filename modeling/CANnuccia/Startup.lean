import CANnuccia.Overlay
import CANnuccia.Stm32Flash

/-!
# From the reset of the STM32 to `main` (stm32/startup.c)

`resetHandler` gives the variables of the bootloader their initial values, which lie in
flash, and clears the others. Where they lie the linker script says.
-/
namespace CANnuccia.Startup

open Util Overlay
open Stm32Flash (flashStart flashEnd)

/-- The symbols of the linker script: .data is loaded from flash into RAM, .bss lies behind
it. -/
structure Layout where
  dataLoadAddr : U32
  dataStart : U32
  dataEnd : U32
  bssStart : U32
  bssEnd : U32
  ram : 0x20000000 ≤ dataStart.toNat
  data : dataStart.toNat ≤ dataEnd.toNat
  behind : dataEnd.toNat ≤ bssStart.toNat
  bss : bssStart.toNat ≤ bssEnd.toNat
  ramEnd : bssEnd.toNat ≤ 0x20005000
  loaded : flashStart.toNat ≤ dataLoadAddr.toNat ∧
    dataLoadAddr.toNat + (dataEnd.toNat - dataStart.toNat) ≤ flashEnd.toNat

/-- The sizes of the sections, in the order of the linker script. -/
structure Sizes where
  isrs : Nat
  text : Nat
  data : Nat
  bss : Nat

/-- `. = ALIGN(4)` -/
def align4 (a : Nat) : Nat := (a + 3) / 4 * 4

def Sizes.textEnd (k : Sizes) : Nat := align4 (align4 (flashStart.toNat + k.isrs) + k.text)
def Sizes.dataEnd (k : Sizes) : Nat := align4 (align4 0x20000000 + k.data)
def Sizes.bssEnd (k : Sizes) : Nat := align4 (align4 k.dataEnd + k.bss)

/-- What fits FLASH and RAM can be linked. -/
structure Sections extends Sizes where
  fitsFlash : toSizes.textEnd + (toSizes.dataEnd - align4 0x20000000) ≤ flashEnd.toNat
  fitsRam : toSizes.bssEnd ≤ 0x20005000

theorem le_align4 (a : Nat) : a ≤ align4 a := by
  unfold align4
  omega

theorem ofNat_toNat {a : Nat} (h : a ≤ 0x20005000) : (BitVec.ofNat 32 a).toNat = a := by
  rw [BitVec.toNat_ofNat]
  omega

namespace Sections

variable (k : Sections)

theorem ram_dataEnd : align4 0x20000000 ≤ k.dataEnd :=
  (Nat.le_add_right _ _).trans (le_align4 _)

theorem dataEnd_bssEnd : align4 k.dataEnd ≤ k.bssEnd :=
  (Nat.le_add_right _ _).trans (le_align4 _)

theorem flash_textEnd : flashStart.toNat ≤ k.textEnd := by
  have hisrs := le_align4 (flashStart.toNat + k.isrs)
  have htext := le_align4 (align4 (flashStart.toNat + k.isrs) + k.text)
  rw [Sizes.textEnd]
  omega

/-- The symbols that the linker script gives to its sections. -/
def link : Layout where
  dataLoadAddr := BitVec.ofNat 32 k.textEnd
  dataStart := BitVec.ofNat 32 (align4 0x20000000)
  dataEnd := BitVec.ofNat 32 k.dataEnd
  bssStart := BitVec.ofNat 32 (align4 k.dataEnd)
  bssEnd := BitVec.ofNat 32 k.bssEnd
  ram := le_rfl
  data := by
    have hram := k.fitsRam
    have hdata := k.ram_dataEnd
    have halign := le_align4 k.dataEnd
    have hbss := k.dataEnd_bssEnd
    rw [ofNat_toNat (by omega), ofNat_toNat (by omega)]
    exact hdata
  behind := by
    have hram := k.fitsRam
    have halign := le_align4 k.dataEnd
    have hbss := k.dataEnd_bssEnd
    rw [ofNat_toNat (by omega), ofNat_toNat (by omega)]
    exact halign
  bss := by
    have hram := k.fitsRam
    have hbss := k.dataEnd_bssEnd
    rw [ofNat_toNat (by omega), ofNat_toNat (by omega)]
    exact hbss
  ramEnd := by
    have hram := k.fitsRam
    rw [ofNat_toNat (by omega)]
    exact hram
  loaded := by
    have hflash := k.fitsFlash
    have hram := k.fitsRam
    have hdata := k.ram_dataEnd
    have halign := le_align4 k.dataEnd
    have hbss := k.dataEnd_bssEnd
    have hend : flashEnd.toNat = 0x08010000 := rfl
    rw [ofNat_toNat (by omega), ofNat_toNat (by omega), ofNat_toNat (by omega)]
    exact ⟨k.flash_textEnd, hflash⟩

end Sections

theorem succ_toNat {dst stop : U32} (h : dst < stop) : (dst + 1).toNat = dst.toNat + 1 := by
  have hstop := stop.isLt
  rw [BitVec.lt_def] at h
  rw [BitVec.toNat_add]
  exact Nat.mod_eq_of_lt (by simp; omega)

/-- Copies .data from flash to RAM. -/
def copyData (src dst stop : U32) (mem : Nat → U8) : Nat → U8 :=
  if dst < stop then
    copyData (src + 1) (dst + 1) stop (Function.update mem dst.toNat (mem src.toNat))
  else mem
termination_by stop.toNat - dst.toNat
decreasing_by
  rename_i h
  have hsucc := succ_toNat h
  rw [BitVec.lt_def] at h
  omega

/-- Fills .bss with zeros. -/
def zeroBss (dst stop : U32) (mem : Nat → U8) : Nat → U8 :=
  if dst < stop then zeroBss (dst + 1) stop (Function.update mem dst.toNat 0) else mem
termination_by stop.toNat - dst.toNat
decreasing_by
  rename_i h
  have hsucc := succ_toNat h
  rw [BitVec.lt_def] at h
  omega

/-- What `resetHandler` does to the memory before `enableHSE`. -/
def resetHandler (l : Layout) (mem : Nat → U8) : Nat → U8 :=
  zeroBss l.bssStart l.bssEnd (copyData l.dataLoadAddr l.dataStart l.dataEnd mem)

theorem update_overlay (mem : Nat → U8) (a : Nat) (v : U8) (xs : List U8) :
    overlay (Function.update mem a v) (a + 1) xs = overlay mem a (v :: xs) := by
  have hone : Function.update mem a v = overlay mem a [v] := by
    funext b
    by_cases hb : b = a
    · subst hb
      simp [overlay]
    · have hout : ¬ (a ≤ b ∧ b < a + [v].length) := by
        rw [List.length_singleton]
        omega
      rw [Function.update_of_ne hb, overlay_outside mem [v] hout]
  rw [hone]
  exact overlay_append mem a [v] xs

/-- The source lies below what is written, so that the copy reads what was there before. -/
theorem copyData_overlay (n : Nat) : ∀ (src dst stop : U32) (mem : Nat → U8),
    dst.toNat + n = stop.toNat → src.toNat + n ≤ dst.toNat →
    copyData src dst stop mem =
      overlay mem dst.toNat ((List.range n).map fun i => mem (src.toNat + i)) := by
  induction n with
  | zero =>
    intro src dst stop mem hn _
    have hdone : ¬ dst < stop := by
      rw [BitVec.lt_def]
      omega
    rw [copyData, if_neg hdone]
    simp
  | succ n ih =>
    intro src dst stop mem hn hsrc
    have hgo : dst < stop := by
      rw [BitVec.lt_def]
      omega
    have hdst := succ_toNat hgo
    have hnext : (src + 1).toNat = src.toNat + 1 := by
      have hwide := dst.isLt
      rw [BitVec.toNat_add]
      exact Nat.mod_eq_of_lt (by simp; omega)
    rw [copyData, if_pos hgo, ih _ _ _ _ (by omega) (by omega), hdst, update_overlay,
      List.range_succ_eq_map, List.map_cons, List.map_map]
    congr 2
    refine List.map_congr_left fun i hi => ?_
    have hi : i < n := List.mem_range.mp hi
    have hkept : src.toNat + 1 + i ≠ dst.toNat := by omega
    rw [hnext, Function.update_of_ne hkept, Function.comp_apply, Nat.succ_eq_add_one,
      Nat.add_right_comm, Nat.add_assoc]

theorem zeroBss_overlay (n : Nat) : ∀ (dst stop : U32) (mem : Nat → U8),
    dst.toNat + n = stop.toNat →
      zeroBss dst stop mem = overlay mem dst.toNat (List.replicate n 0) := by
  induction n with
  | zero =>
    intro dst stop mem hn
    have hdone : ¬ dst < stop := by
      rw [BitVec.lt_def]
      omega
    rw [zeroBss, if_neg hdone]
    simp
  | succ n ih =>
    intro dst stop mem hn
    have hgo : dst < stop := by
      rw [BitVec.lt_def]
      omega
    have hdst := succ_toNat hgo
    rw [zeroBss, if_pos hgo, ih _ _ _ (by omega), hdst, update_overlay, List.replicate_succ]

/-- Wherever the linker has put them: before `main` every initialized variable has the
value that lies in flash, every other one is zero, and nothing else has changed. -/
theorem memory_initialized (l : Layout) (mem : Nat → U8) (a : Nat) : resetHandler l mem a =
    if l.dataStart.toNat ≤ a ∧ a < l.dataEnd.toNat then
      mem (l.dataLoadAddr.toNat + (a - l.dataStart.toNat))
    else if l.bssStart.toNat ≤ a ∧ a < l.bssEnd.toNat then 0
    else mem a := by
  obtain ⟨n, hn⟩ := Nat.exists_eq_add_of_le l.data
  obtain ⟨z, hz⟩ := Nat.exists_eq_add_of_le l.bss
  have hram := l.ram
  have hbehind := l.behind
  obtain ⟨_, hloaded⟩ := l.loaded
  have hflash : flashEnd.toNat ≤ l.dataStart.toNat := by
    have hend : flashEnd.toNat = 0x08010000 := rfl
    omega
  rw [resetHandler, zeroBss_overlay z _ _ _ hz.symm,
    copyData_overlay n _ _ _ _ hn.symm (by omega)]
  by_cases hdata : l.dataStart.toNat ≤ a ∧ a < l.dataEnd.toNat
  · obtain ⟨i, rfl⟩ := Nat.exists_eq_add_of_le hdata.1
    rw [if_pos hdata, overlay_below _ _ (by omega),
      overlay_inside _ _ _ (by rw [List.length_map, List.length_range]; omega)]
    simp
  · rw [if_neg hdata]
    have hcopied : overlay mem l.dataStart.toNat
        ((List.range n).map fun i => mem (l.dataLoadAddr.toNat + i)) a = mem a := by
      refine overlay_outside _ _ ?_
      rw [List.length_map, List.length_range]
      omega
    by_cases hbss : l.bssStart.toNat ≤ a ∧ a < l.bssEnd.toNat
    · obtain ⟨i, rfl⟩ := Nat.exists_eq_add_of_le hbss.1
      rw [if_pos hbss, overlay_inside _ _ _ (by rw [List.length_replicate]; omega),
        List.getElem_replicate]
    · rw [if_neg hbss, overlay_outside _ _ (by rw [List.length_replicate]; omega), hcopied]

/-- Sections of a bootloader that ends before the program. -/
def bootSizes : Sizes := ⟨304, 3502, 6, 1100⟩

theorem bootSizes_flash :
    bootSizes.textEnd + (bootSizes.dataEnd - align4 0x20000000) ≤ flashEnd.toNat := by
  decide

theorem bootSizes_ram : bootSizes.bssEnd ≤ 0x20005000 := by
  decide

def bootSections : Sections := ⟨bootSizes, bootSizes_flash, bootSizes_ram⟩

/-- A byte of .data, one of .bss and one behind them. -/
theorem memory_initialized_linked :
    resetHandler bootSections.link (fun a => BitVec.ofNat 8 a) 0x20000003 = 0xE3#8 ∧
    resetHandler bootSections.link (fun a => BitVec.ofNat 8 a) 0x20000453 = 0x00#8 ∧
    resetHandler bootSections.link (fun a => BitVec.ofNat 8 a) 0x20000454 = 0x54#8 := by
  rw [memory_initialized, memory_initialized, memory_initialized]
  decide +kernel

end CANnuccia.Startup

import CANnuccia.Drivers
import CANnuccia.Overlay

/-!
# The STM32 flash driver (stm32/flash.c)

The controller is modelled by what the driver touches: the key lock, the PG and
PER bits of CR, AR and the busy flag. STRT reads as zero, since the driver waits
before it reads CR again. An operation issued while another one runs is lost, so
the driver's `waitForFlash` calls matter. The page size, the mask and the bootloader size are
those of the toolchain file, the flash bounds those of the linker script.
-/
namespace CANnuccia.Stm32Flash

open Util
open Overlay

def cnFlashPageSize : U32 := 0x400#32
def cnFlashPageMask : U32 := 0xFFFFFC00#32
def cnFlashBootloaderSize : U32 := 0x1000#32

def flashStart : U32 := 0x08000000#32
def flashEnd : U32 := flashStart + 0x10000#32

def flashKey1 : U32 := 0x45670123#32
def flashKey2 : U32 := 0xCDEF89AB#32
def flashCrLock : U32 := 0x00000080#32
def flashCrStrt : U32 := 0x00000040#32
def flashCrPer : U32 := 0x00000002#32
def flashCrPg : U32 := 0x00000001#32

/-- The key lock. `key1` has seen the first key; `stuck` has seen a wrong key, or
a key while unlocked, and stays locked until reset. -/
inductive KeyLock where
  | locked | key1 | unlocked | stuck
  deriving DecidableEq, Repr

structure Flash where
  lock : KeyLock
  pg : Bool
  per : Bool
  ar : U32
  bsy : Bool
  mem : Nat → U8
  ops : List FlashOp
  curPageAddr : U32

def Flash.readCR (f : Flash) : U32 :=
  (if f.lock = .unlocked then 0 else flashCrLock)
    ||| (if f.per then flashCrPer else 0)
    ||| (if f.pg then flashCrPg else 0)

def Flash.writeKEYR (f : Flash) (key : U32) : Flash :=
  match f.lock with
  | .locked => { f with lock := if key = flashKey1 then .key1 else .stuck }
  | .key1 => { f with lock := if key = flashKey2 then .unlocked else .stuck }
  | .unlocked => { f with lock := .stuck }
  | .stuck => f

/-- Erases the page that AR points into. -/
def Flash.startErase (f : Flash) : Flash :=
  if f.bsy then f
  else
    { f with
      bsy := true
      mem := overlay f.mem (f.ar.toNat / 1024 * 1024) (erased 1024)
      ops := f.ops ++ [.erase f.ar.toNat] }

/-- CR cannot be written while locked; LOCK locks it, STRT with PER starts an erase. -/
def Flash.writeCR (f : Flash) (v : U32) : Flash :=
  if f.lock ≠ .unlocked then f
  else
    let f := { f with
      pg := decide (v &&& flashCrPg ≠ 0)
      per := decide (v &&& flashCrPer ≠ 0) }
    if v &&& flashCrLock ≠ 0 then { f with lock := .locked }
    else if v &&& flashCrStrt ≠ 0 ∧ f.per then f.startErase
    else f

/-- A half-word store into flash programs it while PG is set, if it is erased or
the value is zero. -/
def Flash.storeHW (f : Flash) (dest : U32) (v : U16) : Flash :=
  if f.lock = .unlocked ∧ f.pg ∧ f.bsy = false ∧
      (v = 0 ∨ (f.mem dest.toNat = 0xFF#8 ∧ f.mem (dest.toNat + 1) = 0xFF#8)) then
    { f with
      bsy := true
      mem := overlay f.mem dest.toNat [v.setWidth 8, (v >>> 8).setWidth 8]
      ops := f.ops ++ [.program dest.toNat] }
  else f

def cnFlashSize : U32 := flashEnd - flashStart

def cnFlashPageWriteable (addr : U32) : Bool :=
  let minAddr := flashStart + cnFlashBootloaderSize
  let maxAddr := flashEnd
  decide (minAddr ≤ addr) && decide (addr + cnFlashPageSize < maxAddr)

def cnFlashUnlock (f : Flash) : Bool × Flash :=
  let f := f.writeKEYR flashKey1
  let f := f.writeKEYR flashKey2
  if f.readCR &&& flashCrLock ≠ 0 then (false, f) else (true, f)

def cnFlashLock (f : Flash) : Bool × Flash :=
  let f := f.writeCR (f.readCR ||| flashCrLock)
  (decide (f.readCR &&& flashCrLock ≠ 0), f)

/-- Spins until the running operation is over. -/
def waitForFlash (f : Flash) : Flash := { f with bsy := false }

def cnFlashBeginWrite (addr : U32) (f : Flash) : Bool × Flash :=
  if f.readCR &&& flashCrLock ≠ 0 then (false, f)
  else
    let f := waitForFlash f
    let f := f.writeCR (f.readCR ||| flashCrPer)
    let f := { f with ar := addr }
    let f := f.writeCR (f.readCR ||| flashCrStrt)
    let f := waitForFlash f
    let f := f.writeCR (f.readCR &&& ~~~flashCrPer)
    let f := f.writeCR (f.readCR ||| flashCrPg)
    (true, { f with curPageAddr := addr })

/-- The copy loop of `cnFlashFill`, for at most `fuel` tests of its condition;
`src` is how far `srcHW` has advanced into the data, in bytes. -/
def fillLoop (size : U32) (data : Nat → U8) :
    Nat → U32 → Nat → U32 → Flash → Option (U32 × Flash)
  | 0, _, _, _, _ => none
  | fuel + 1, bytesWritten, src, destHW, f =>
    if bytesWritten < size then
      fillLoop size data fuel (bytesWritten + 2) (src + 2) (destHW + 2)
        ((waitForFlash f).storeHW destHW (word (data src) (data (src + 1))))
    else some (bytesWritten, waitForFlash f)

/-- `size + 1` tests are enough unless `bytesWritten` wraps around. -/
def cnFlashFill (offset size : U32) (data : Nat → U8) (f : Flash) : Option (U32 × Flash) :=
  if f.curPageAddr = 0 then some (0, f)
  else fillLoop size data (size.toNat + 1) 0 0 (f.curPageAddr + offset) f

def cnFlashEndWrite (f : Flash) : Bool × Flash :=
  if f.curPageAddr = 0 then (false, f)
  else
    let f := waitForFlash f
    let f := f.writeCR (f.readCR &&& ~~~flashCrPg)
    (true, { f with curPageAddr := 0 })

/-- The bound is tested on a sum that may wrap around. -/
theorem pageWriteable_iff (addr : U32) : cnFlashPageWriteable addr = true ↔
    0x08001000 ≤ addr.toNat ∧ (addr.toNat + 1024) % 2 ^ 32 < 0x08010000 := by
  simp only [cnFlashPageWriteable, Bool.and_eq_true, decide_eq_true_iff, BitVec.le_def,
    BitVec.lt_def, BitVec.toNat_add]
  exact Iff.rfl

/-- CR reads as locked exactly while the key lock is not open. -/
theorem readCR_lock (f : Flash) : f.readCR &&& flashCrLock ≠ 0 ↔ f.lock ≠ .unlocked := by
  unfold Flash.readCR
  by_cases h : f.lock = .unlocked <;> cases f.per <;> cases f.pg <;> simp [h] <;> decide

theorem beginWrite_locked {f : Flash} (h : f.lock ≠ .unlocked) (addr : U32) :
    cnFlashBeginWrite addr f = (false, f) := by
  rw [cnFlashBeginWrite, if_pos ((readCR_lock f).mpr h)]

theorem beginWrite_unlocked {f : Flash} (h : f.lock = .unlocked) (addr : U32) :
    cnFlashBeginWrite addr f = (true,
      { lock := .unlocked
        pg := true
        per := false
        ar := addr
        bsy := false
        mem := overlay f.mem (addr.toNat / 1024 * 1024) (erased 1024)
        ops := f.ops ++ [.erase addr.toNat]
        curPageAddr := addr }) := by
  have hread : ¬ f.readCR &&& flashCrLock ≠ 0 := by rw [readCR_lock]; simp [h]
  rw [cnFlashBeginWrite, if_neg hread]
  obtain ⟨lock, pg, per, ar, bsy, mem, ops, cur⟩ := f
  simp only at h
  subst h
  cases pg <;> cases per <;>
    simp [Flash.writeCR, Flash.readCR, waitForFlash, Flash.startErase, flashCrPg, flashCrPer,
      flashCrStrt, flashCrLock]

theorem endWrite_unlocked {f : Flash} (h : f.lock = .unlocked) (hp : f.curPageAddr ≠ 0) :
    cnFlashEndWrite f = (true, { f with pg := false, bsy := false, curPageAddr := 0 }) := by
  rw [cnFlashEndWrite, if_neg hp]
  obtain ⟨lock, pg, per, ar, bsy, mem, ops, cur⟩ := f
  simp only at h
  subst h
  cases pg <;> cases per <;>
    simp [Flash.writeCR, Flash.readCR, waitForFlash, flashCrPg, flashCrPer, flashCrStrt,
      flashCrLock]

/-- The half-word addresses of `m` stores from `base` on. -/
def programs (base m : Nat) : List FlashOp := (List.range' base m 2).map FlashOp.program

/-- With an open cycle the loop stores every half word up to an even size, over
erased memory. The induction is on the half words still to store. -/
theorem fillLoop_spec (size : U32) (data : Nat → U8) (base m : Nat) :
    ∀ (fuel src : Nat) (bytesWritten destHW : U32) (f : Flash),
      m < fuel → bytesWritten.toNat = src → size.toNat = src + 2 * m →
      destHW = BitVec.ofNat 32 (base + src) → base + size.toNat ≤ 2 ^ 32 →
      f.lock = .unlocked → f.pg = true →
      (∀ a, base + src ≤ a → a < base + size.toNat → f.mem a = 0xFF#8) →
      fillLoop size data fuel bytesWritten src destHW f = some (size,
        { f with
          bsy := false
          mem := overlay f.mem (base + src) ((List.range' src (2 * m)).map data)
          ops := f.ops ++ programs (base + src) m }) := by
  induction m with
  | zero =>
    intro fuel src bytesWritten destHW f hfuel hb hs hd hfit hl hpg he
    obtain ⟨fuel, rfl⟩ : ∃ n, fuel = n + 1 := ⟨fuel - 1, by omega⟩
    have hdone : ¬ bytesWritten < size := by
      rw [BitVec.lt_def]; omega
    have heq : bytesWritten = size := BitVec.eq_of_toNat_eq (by omega)
    rw [fillLoop, if_neg hdone, heq]
    simp [waitForFlash, programs]
  | succ m ih =>
    intro fuel src bytesWritten destHW f hfuel hb hs hd hfit hl hpg he
    obtain ⟨fuel, rfl⟩ : ∃ n, fuel = n + 1 := ⟨fuel - 1, by omega⟩
    have hlt := size.isLt
    have hgo : bytesWritten < size := by
      rw [BitVec.lt_def]; omega
    have hdest : destHW.toNat = base + src := by
      rw [hd, BitVec.toNat_ofNat]
      exact Nat.mod_eq_of_lt (by omega)
    have hstore : (waitForFlash f).storeHW destHW (word (data src) (data (src + 1))) =
        { f with
          bsy := true
          mem := overlay f.mem (base + src) [data src, data (src + 1)]
          ops := f.ops ++ [.program (base + src)] } := by
      have hlo := he (base + src) (by omega) (by omega)
      have hhi := he (base + src + 1) (by omega) (by omega)
      simp [Flash.storeHW, waitForFlash, hl, hpg, hdest, hlo, hhi]
    rw [fillLoop, if_pos hgo, hstore]
    have hb' : (bytesWritten + 2).toNat = src + 2 := by
      rw [BitVec.toNat_add, hb]
      exact Nat.mod_eq_of_lt (by simp; omega)
    have hd' : destHW + 2 = BitVec.ofNat 32 (base + (src + 2)) := by
      rw [hd, ← Nat.add_assoc, BitVec.ofNat_add (base + src) 2]
      rfl
    have hrestErased : ∀ a, base + (src + 2) ≤ a → a < base + size.toNat →
        overlay f.mem (base + src) [data src, data (src + 1)] a = 0xFF#8 := by
      intro a ha ha'
      rw [overlay_above _ _ (by simp only [List.length_cons, List.length_nil]; omega)]
      exact he a (by omega) ha'
    have hrest := ih fuel (src + 2) (bytesWritten + 2) (destHW + 2)
      { f with
        bsy := true
        mem := overlay f.mem (base + src) [data src, data (src + 1)]
        ops := f.ops ++ [.program (base + src)] } (by omega) hb' (by omega) hd' hfit hl hpg hrestErased
    rw [hrest]
    have hjoin := overlay_append f.mem (base + src) [data src, data (src + 1)]
      ((List.range' (src + 2) (2 * m)).map data)
    have hrange : List.range' src (2 * (m + 1)) =
        src :: (src + 1) :: List.range' (src + 2) (2 * m) := by
      rw [show 2 * (m + 1) = 2 * m + 1 + 1 by omega, List.range'_succ, List.range'_succ]
    simp only [List.length_cons, List.length_nil, List.cons_append, List.nil_append] at hjoin
    simp only [hrange, List.map_cons, ← hjoin, programs, List.range'_succ, List.append_assoc,
      List.cons_append, List.nil_append]
    rfl

/-- A whole cycle on an unlocked controller, over a page other than the one at zero,
erases the page and stores the data. -/
theorem cycle_done {addr : U32} {f : Flash} (data : Nat → U8) (hl : f.lock = .unlocked)
    (hp : addr ≠ 0) (halign : addr.toNat % 1024 = 0) :
    ∃ f₁ f₂, cnFlashBeginWrite addr f = (true, f₁) ∧
      cnFlashFill 0 cnFlashPageSize data f₁ = some (cnFlashPageSize, f₂) ∧
      cnFlashEndWrite f₂ = (true,
        { lock := .unlocked
          pg := false
          per := false
          ar := addr
          bsy := false
          mem := overlay f.mem addr.toNat ((List.range' 0 1024).map data)
          ops := f.ops ++ .erase addr.toNat :: programs addr.toNat 512
          curPageAddr := 0 }) := by
  have hlt := addr.isLt
  have hbase : addr.toNat / 1024 * 1024 = addr.toNat := by omega
  have herased : ∀ a, addr.toNat + 0 ≤ a → a < addr.toNat + 1024 →
      overlay f.mem addr.toNat (erased 1024) a = 0xFF#8 := by
    intro a ha ha'
    obtain ⟨i, rfl⟩ := Nat.exists_eq_add_of_le ha
    have hi : i < (erased 1024).length := by rw [erased_length]; omega
    exact (overlay_inside f.mem addr.toNat (erased 1024) hi).trans (erased_getElem hi)
  have hbegin := beginWrite_unlocked hl addr
  rw [hbase] at hbegin
  have hfill := fillLoop_spec cnFlashPageSize data addr.toNat 512 1025 0 0 (addr + 0)
    { lock := .unlocked
      pg := true
      per := false
      ar := addr
      bsy := false
      mem := overlay f.mem addr.toNat (erased 1024)
      ops := f.ops ++ [.erase addr.toNat]
      curPageAddr := addr } (by decide) rfl rfl (by simp)
    (by change addr.toNat + 1024 ≤ 2 ^ 32; omega) rfl rfl herased
  refine ⟨_, _, hbegin, (if_neg hp).trans hfill, ?_⟩
  rw [endWrite_unlocked rfl hp]
  have hlen : (erased 1024).length ≤ ((List.range' 0 1024).map data).length := by simp
  simp only [Nat.add_zero, Nat.reduceMul, overlay_overlay _ _ hlen, List.append_assoc,
    List.singleton_append]

/-- Out of reset CR holds LOCK only; the keys may or may not be accepted. -/
structure AtReset (f : Flash) : Prop where
  lock : f.lock = .locked ∨ f.lock = .stuck
  pg : f.pg = false
  per : f.per = false
  curPageAddr : f.curPageAddr = 0
  ops : f.ops = []

def driver : FlashDriver 32 where
  Flash := Flash
  cnFlashSize := cnFlashSize
  cnFlashPageWriteable := cnFlashPageWriteable
  cnFlashUnlock := cnFlashUnlock
  cnFlashLock := cnFlashLock
  cnFlashBeginWrite := cnFlashBeginWrite
  cnFlashFill := cnFlashFill
  cnFlashEndWrite := cnFlashEndWrite
  AtReset := AtReset
  contents := Flash.mem
  ops := Flash.ops
  locked f := decide (f.lock ≠ .unlocked)

theorem writeCR_locked {f : Flash} (h : f.lock ≠ .unlocked) (v : U32) : f.writeCR v = f := by
  simp [Flash.writeCR, h]

/-- While the controller is locked the loop spins but stores nothing. -/
theorem fillLoop_locked (size : U32) (data : Nat → U8) :
    ∀ (fuel src : Nat) (bytesWritten destHW : U32) (f : Flash) (n : U32) (f' : Flash),
      f.lock ≠ .unlocked → fillLoop size data fuel bytesWritten src destHW f = some (n, f') →
      f' = { f with bsy := f'.bsy } := by
  intro fuel
  induction fuel with
  | zero =>
    intro src bytesWritten destHW f n f' hl h
    cases h
  | succ fuel ih =>
    intro src bytesWritten destHW f n f' hl h
    have hstore : ∀ v, (waitForFlash f).storeHW destHW v = { f with bsy := false } := by
      intro v
      simp [Flash.storeHW, waitForFlash, hl]
    rw [fillLoop, hstore] at h
    split at h
    · exact ih _ _ _ { f with bsy := false } _ _ hl h
    · cases h
      rfl

theorem unlock_frame (f : Flash) :
    (cnFlashUnlock f).2.mem = f.mem ∧ (cnFlashUnlock f).2.ops = f.ops := by
  have hkey : ∀ (g : Flash) k, (g.writeKEYR k).mem = g.mem ∧ (g.writeKEYR k).ops = g.ops := by
    intro g k
    unfold Flash.writeKEYR
    split <;> exact ⟨rfl, rfl⟩
  simp only [cnFlashUnlock]
  split <;> simp [hkey]

theorem lock_frame (f : Flash) : (cnFlashLock f).2.mem = f.mem ∧
    (cnFlashLock f).2.ops = f.ops ∧ (cnFlashLock f).2.lock ≠ .unlocked := by
  by_cases h : f.lock = .unlocked
  · obtain ⟨lock, pg, per, ar, bsy, mem, ops, cur⟩ := f
    simp only at h
    subst h
    cases pg <;> cases per <;>
      simp [cnFlashLock, Flash.writeCR, Flash.readCR, flashCrPg, flashCrPer, flashCrLock]
  · simp [cnFlashLock, writeCR_locked h, h]

/-- The two keys in order open a locked controller. -/
theorem unlock_locked {f : Flash} (h : f.lock = .locked) :
    cnFlashUnlock f = (true, { f with lock := .unlocked }) := by
  have hkeys : (f.writeKEYR flashKey1).writeKEYR flashKey2 = { f with lock := .unlocked } := by
    simp [Flash.writeKEYR, h]
  have hread : ¬ Flash.readCR { f with lock := .unlocked } &&& flashCrLock ≠ 0 := by
    rw [readCR_lock]
    simp
  simp only [cnFlashUnlock, hkeys]
  rw [if_neg hread]

/-- In any other state the keys wedge the controller. -/
theorem unlock_refuses {f : Flash} (h : f.lock ≠ .locked) :
    cnFlashUnlock f = (false, { f with lock := .stuck }) := by
  have hkeys : (f.writeKEYR flashKey1).writeKEYR flashKey2 = { f with lock := .stuck } := by
    obtain ⟨lock, pg, per, ar, bsy, mem, ops, cur⟩ := f
    cases lock with
    | locked => exact absurd rfl h
    | key1 | unlocked | stuck => simp [Flash.writeKEYR, flashKey1, flashKey2]
  have hread : Flash.readCR { f with lock := .stuck } &&& flashCrLock ≠ 0 := by
    rw [readCR_lock]
    simp
  simp only [cnFlashUnlock, hkeys]
  rw [if_pos hread]

theorem lock_unlocked {f : Flash} (h : f.lock = .unlocked) :
    (cnFlashLock f).2 = { f with lock := .locked } := by
  obtain ⟨lock, pg, per, ar, bsy, mem, ops, cur⟩ := f
  simp only at h
  subst h
  cases pg <;> cases per <;>
    simp [cnFlashLock, Flash.writeCR, Flash.readCR, flashCrPg, flashCrPer, flashCrLock]

/-- The lock is tested at the beginning of a cycle, and the controller ignores
every later access while it is locked. -/
theorem lockRespected : LockRespected driver where
  reset f h := by
    rcases h.lock with hl | hl <;> simp [driver, hl]
  reset_ops f h := h.ops
  unlock_contents f := (unlock_frame f).1
  unlock_ops f := (unlock_frame f).2
  unlock_refused f _ hu := by
    simp only [driver, cnFlashUnlock] at hu ⊢
    split at hu
    · rename_i hr
      rw [if_pos hr]
      simpa using (readCR_lock _).mp hr
    · cases hu
  lock_contents f := (lock_frame f).1
  lock_ops f := (lock_frame f).2.1
  lock_locked f := by simpa [driver] using (lock_frame f).2.2
  beginWrite addr f h := by
    have hl : f.lock ≠ .unlocked := by simpa [driver] using h
    simp [driver, beginWrite_locked hl, hl]
  fill offset size data f n f' h hf := by
    have hl : f.lock ≠ .unlocked := by simpa [driver] using h
    simp only [driver, cnFlashFill] at hf
    split at hf
    · cases hf
      exact ⟨rfl, h⟩
    · rw [fillLoop_locked _ _ _ _ _ _ _ _ _ hl hf]
      exact ⟨rfl, h⟩
  endWrite f h := by
    have hl : f.lock ≠ .unlocked := by simpa [driver] using h
    have hw : ∀ v, (waitForFlash f).writeCR v = waitForFlash f := by
      intro v
      exact writeCR_locked (f := waitForFlash f) hl v
    simp only [driver, cnFlashEndWrite]
    split
    · exact ⟨rfl, h⟩
    · rw [hw]
      exact ⟨rfl, h⟩

theorem storeHW_lock (f : Flash) (dest : U32) (v : U16) : (f.storeHW dest v).lock = f.lock := by
  unfold Flash.storeHW
  split <;> rfl

theorem fillLoop_lock (size : U32) (data : Nat → U8) :
    ∀ (fuel src : Nat) (bytesWritten destHW : U32) (f : Flash) (n : U32) (f' : Flash),
      fillLoop size data fuel bytesWritten src destHW f = some (n, f') → f'.lock = f.lock := by
  intro fuel
  induction fuel with
  | zero =>
    intro src bytesWritten destHW f n f' h
    cases h
  | succ fuel ih =>
    intro src bytesWritten destHW f n f' h
    rw [fillLoop] at h
    split at h
    · rw [ih _ _ _ _ _ _ h, storeHW_lock]
      rfl
    · cases h
      rfl

theorem unlockLasts : UnlockLasts driver where
  unlock_done f hu := by
    simp only [driver, cnFlashUnlock] at hu ⊢
    split at hu
    · cases hu
    · rename_i hr
      rw [if_neg hr]
      exact decide_eq_false ((readCR_lock _).not.mp hr)
  beginWrite addr f h := by
    have hl : f.lock = .unlocked := by simpa [driver] using h
    simp [driver, beginWrite_unlocked hl]
  fill offset size data f n f' h hf := by
    have hl : f.lock = .unlocked := by simpa [driver] using h
    simp only [driver, cnFlashFill] at hf
    split at hf
    · cases hf
      exact h
    · simp [driver, fillLoop_lock _ _ _ _ _ _ _ _ _ hf, hl]
  endWrite f h := by
    have hl : f.lock = .unlocked := by simpa [driver] using h
    by_cases hp : f.curPageAddr = 0
    · simp [driver, cnFlashEndWrite, hp, hl]
    · simp [driver, endWrite_unlocked hl hp, hl]

end CANnuccia.Stm32Flash

import CANnuccia.Moves

/-!
# SELECT_PAGE

What the mask, the conversion to `uintptr_t` and `cnFlashPageWriteable` make of a
32-bit address, in natural numbers, and which pages they let through.
-/
namespace CANnuccia

open Util

/-- The application region of a build. -/
def Target.appStart : Target → Nat
  | .stm32 => Stm32Flash.flashStart.toNat + Stm32Flash.cnFlashBootloaderSize.toNat
  | .avr => 0

def Target.appEnd : Target → Nat
  | .stm32 => Stm32Flash.flashEnd.toNat
  | .avr => AvrFlash.flashSize.toNat - AvrFlash.cnFlashBootloaderSize.toNat

def Target.pageSize (t : Target) : Nat := t.backend.cnFlashPageSize.toNat

/-- What is left of an address after the mask and the conversion. -/
def Target.maskedAddr : Target → Nat → Nat
  | .stm32, a => a / 1024 * 1024
  | .avr, a => a % 65536 / 128 * 128

/-- `cnFlashPageWriteable`, whose sum may wrap around. -/
def Target.accepts : Target → Nat → Prop
  | .stm32, p => 0x08001000 ≤ p ∧ (p + 1024) % 2 ^ 32 < 0x08010000
  | .avr, p => (p + 128) % 2 ^ 16 < 0x7000

instance (t : Target) (p : Nat) : Decidable (t.accepts p) := by
  cases t
  · exact inferInstanceAs (Decidable (_ ∧ _))
  · exact inferInstanceAs (Decidable (_ < _))

/-- `p` is a page of the application region and `a` lies in it. -/
structure PageOf (t : Target) (p a : Nat) : Prop where
  aligned : p % t.pageSize = 0
  below : p ≤ a
  above : a < p + t.pageSize
  start : t.appStart ≤ p
  inside : p + t.pageSize ≤ t.appEnd

theorem pageOf_stm32 {p a : Nat} : PageOf .stm32 p a ↔
    p % 1024 = 0 ∧ p ≤ a ∧ a < p + 1024 ∧ 0x08001000 ≤ p ∧ p + 1024 ≤ 0x08010000 :=
  ⟨fun h => ⟨h.1, h.2, h.3, h.4, h.5⟩, fun ⟨h₁, h₂, h₃, h₄, h₅⟩ => ⟨h₁, h₂, h₃, h₄, h₅⟩⟩

theorem pageOf_avr {p a : Nat} : PageOf .avr p a ↔
    p % 128 = 0 ∧ p ≤ a ∧ a < p + 128 ∧ 0 ≤ p ∧ p + 128 ≤ 0x7000 :=
  ⟨fun h => ⟨h.1, h.2, h.3, h.4, h.5⟩, fun ⟨h₁, h₂, h₃, h₄, h₅⟩ => ⟨h₁, h₂, h₃, h₄, h₅⟩⟩

namespace Pump

open CanMsgs
open Mealy (Machine Transition Run outputs)

theorem stm32_masked (a : U32) :
    ((a &&& Stm32Flash.cnFlashPageMask.setWidth 32).setWidth 32).toNat =
      Target.maskedAddr .stm32 a.toNat := by
  have hshift : a &&& Stm32Flash.cnFlashPageMask = a >>> 10 <<< 10 := by
    apply BitVec.eq_of_getLsbD_eq
    intro i hi
    interval_cases i <;> simp [Stm32Flash.cnFlashPageMask]
  have hlt := a.isLt
  rw [BitVec.setWidth_eq, BitVec.setWidth_eq, hshift]
  simp only [BitVec.toNat_shiftLeft, BitVec.toNat_ushiftRight, Nat.shiftRight_eq_div_pow,
    Nat.shiftLeft_eq, Target.maskedAddr]
  omega

theorem avr_masked (a : U32) :
    ((a &&& AvrFlash.cnFlashPageMask.setWidth 32).setWidth 16).toNat =
      Target.maskedAddr .avr a.toNat := by
  have hshift : (a &&& AvrFlash.cnFlashPageMask.setWidth 32).setWidth 16 =
      a.setWidth 16 >>> 7 <<< 7 := by
    apply BitVec.eq_of_getLsbD_eq
    intro i hi
    interval_cases i <;> simp [AvrFlash.cnFlashPageMask]
  rw [hshift]
  simp only [BitVec.toNat_shiftLeft, BitVec.toNat_ushiftRight, BitVec.toNat_setWidth,
    Nat.shiftRight_eq_div_pow, Nat.shiftLeft_eq, Target.maskedAddr]
  omega

theorem masked_addr (t : Target) (a : U32) :
    ((a &&& t.backend.cnFlashPageMask.setWidth 32).setWidth t.backend.w).toNat =
      t.maskedAddr a.toNat := by
  cases t
  · exact stm32_masked a
  · exact avr_masked a

theorem writeable_iff (t : Target) (p : BitVec t.backend.w) :
    t.backend.flash.cnFlashPageWriteable p = true ↔ t.accepts p.toNat := by
  cases t
  · exact Stm32Flash.pageWriteable_iff p
  · exact AvrFlash.pageWriteable_iff p

/-- A SELECT_PAGE of any address selects the masked page if that is accepted. -/
theorem selectPage_eq (t : Target) (devId : U8) (a : U32) (page : Page t.backend) :
    selectPage devId (cnWriteU32LE a) page =
      if t.accepts (t.maskedAddr a.toNat) then
        ({ page with addr := BitVec.ofNat t.backend.w (t.maskedAddr a.toNat) },
          [reply devId cnCanMsgPageSelected (cnWriteU32LE (BitVec.ofNat 32 (t.maskedAddr a.toNat)))])
      else (page, []) := by
  have haddr : (a &&& t.backend.cnFlashPageMask.setWidth 32).setWidth t.backend.w =
      BitVec.ofNat t.backend.w (t.maskedAddr a.toNat) := by
    rw [← masked_addr, BitVec.ofNat_toNat, BitVec.setWidth_eq]
  have hreply : (BitVec.ofNat t.backend.w (t.maskedAddr a.toNat)).setWidth 32 =
      BitVec.ofNat 32 (t.maskedAddr a.toNat) := by
    rw [← haddr, ← BitVec.ofNat_toNat, masked_addr]
  have hwrite := writeable_iff t ((a &&& t.backend.cnFlashPageMask.setWidth 32).setWidth t.backend.w)
  rw [masked_addr] at hwrite
  simp only [selectPage, cnWriteU32LE_length, ↓reduceIte, cnReadU32LE_cnWriteU32LE, hwrite]
  simp only [haddr, hreply]

variable {t : Target} {devId : U8}

theorem toNat_addr (a : BitVec t.backend.w) : (a.setWidth 32).toNat = a.toNat := by
  have hlt := a.isLt
  have hw : 2 ^ t.backend.w ≤ 2 ^ 32 := by cases t <;> decide
  rw [BitVec.toNat_setWidth, Nat.mod_eq_of_lt (by omega)]

/-- A page that is accepted can be selected by its own address. -/
theorem selectPage_self (devId : U8) {p : BitVec t.backend.w} (halign : p.toNat % t.pageSize = 0)
    (hw : t.backend.flash.cnFlashPageWriteable p = true) (page : Page t.backend) :
    selectPage devId (cnWriteU32LE (p.setWidth 32)) page =
      ({ page with addr := p }, [reply devId cnCanMsgPageSelected (cnWriteU32LE (p.setWidth 32))]) := by
  have hmask : t.maskedAddr (p.setWidth 32).toNat = p.toNat := by
    have hlt := p.isLt
    rw [toNat_addr]
    cases t with
    | stm32 =>
      have hmod : p.toNat % 1024 = 0 := halign
      simp only [Target.maskedAddr]
      omega
    | avr =>
      have hmod : p.toNat % 128 = 0 := halign
      have hsmall : p.toNat < 2 ^ 16 := hlt
      simp only [Target.maskedAddr]
      omega
  have hacc : t.accepts (t.maskedAddr (p.setWidth 32).toNat) := by
    rw [hmask]
    exact (writeable_iff t p).mp hw
  rw [selectPage_eq, if_pos hacc, hmask, BitVec.ofNat_toNat, BitVec.ofNat_toNat, BitVec.setWidth_eq]

theorem step_selectPage {B : Backend} {d : Dev B} {data : List U8} (hpc : d.pc = .selectPage data) :
    step B devId d .main = some ({ d with
      selPage := (selectPage devId data d.selPage).1
      pc := .loopTest }, (selectPage devId data d.selPage).2) := by
  obtain ⟨⟨pc, state, page, flash⟩, timer⟩ := d
  simp only at hpc
  subst hpc
  rfl

theorem masked_lt (t : Target) (a : U32) : t.maskedAddr a.toNat < 2 ^ 32 := by
  have hlt := a.isLt
  cases t <;> simp only [Target.maskedAddr] <;> omega

/-- What the device answers names the masked page, and only an accepted one. -/
theorem selected_iff {a p : U32} {page : Page t.backend} :
    reply devId cnCanMsgPageSelected (cnWriteU32LE p) ∈ (selectPage devId (cnWriteU32LE a) page).2 ↔
      t.accepts (t.maskedAddr a.toNat) ∧ p.toNat = t.maskedAddr a.toNat := by
  have hm : (BitVec.ofNat 32 (t.maskedAddr a.toNat)).toNat = t.maskedAddr a.toNat := by
    rw [BitVec.toNat_ofNat, Nat.mod_eq_of_lt (masked_lt t a)]
  rw [selectPage_eq]
  split
  · rename_i hacc
    simp only [List.mem_singleton, reply, Event.send.injEq, true_and, hacc]
    constructor
    · intro h
      rw [cnWriteU32LE_injective h, hm]
    · intro h
      rw [BitVec.eq_of_toNat_eq (h.trans hm.symm)]
  · rename_i hacc
    simp [hacc]

/-- The addresses whose page, if accepted, is computed without a wrap or a cut. -/
def SelectSafe : Target → Nat → Prop
  | .stm32, a => a < 0xFFFFFC00
  | .avr, a => a < 0x6F80 ∨ (0x6F80 ≤ a % 0x10000 ∧ a % 0x10000 < 0xFF80)

theorem masked_page_iff (t : Target) (a : U32) :
    (t.accepts (t.maskedAddr a.toNat) → PageOf t (t.maskedAddr a.toNat) a.toNat) ↔
      SelectSafe t a.toNat := by
  have hlt := a.isLt
  cases t with
  | stm32 =>
    simp only [pageOf_stm32, Target.accepts, Target.maskedAddr, SelectSafe]
    omega
  | avr =>
    simp only [pageOf_avr, Target.accepts, Target.maskedAddr, SelectSafe]
    omega

/-- A selected page is the application page of the address, exactly for the safe addresses. -/
theorem select_safe_iff (t : Target) (devId : U8) (a : U32) {d : Dev t.backend}
    (hpc : d.pc = .selectPage (cnWriteU32LE a)) :
    (∀ (p : U32) (d' : Dev t.backend) (outs : List Event),
      step t.backend devId d .main = some (d', outs) →
      reply devId cnCanMsgPageSelected (cnWriteU32LE p) ∈ outs → PageOf t p.toNat a.toNat) ↔
    SelectSafe t a.toNat := by
  rw [← masked_page_iff, step_selectPage hpc]
  constructor
  · intro h hacc
    have hm : (BitVec.ofNat 32 (t.maskedAddr a.toNat)).toNat = t.maskedAddr a.toNat := by
      rw [BitVec.toNat_ofNat, Nat.mod_eq_of_lt (masked_lt t a)]
    have hp := h (BitVec.ofNat 32 (t.maskedAddr a.toNat)) _ _ rfl (selected_iff.mpr ⟨hacc, hm⟩)
    rwa [hm] at hp
  · intro h p d' outs hstep hp
    cases hstep
    obtain ⟨hacc, hm⟩ := selected_iff.mp hp
    rw [hm]
    exact h hacc

/-- A device in the middle of a SELECT_PAGE. -/
def selecting (a : U32) : Dev Target.avr.backend :=
  { boot avrFresh with pc := .selectPage (cnWriteU32LE a) }

theorem select_safe_iff_0085 :
    (∀ (p : U32) (d' : Dev Target.avr.backend) (outs : List Event),
      step Target.avr.backend 42#8 (selecting 0x0085#32) .main = some (d', outs) →
      reply 42#8 cnCanMsgPageSelected (cnWriteU32LE p) ∈ outs →
      PageOf .avr p.toNat (0x0085#32).toNat) ↔ SelectSafe .avr (0x0085#32).toNat :=
  select_safe_iff .avr 42#8 0x0085#32 rfl

/-- The start of a run up to the SELECT_PAGE of an address. -/
def selectSession (a : U32) : List Input :=
  [.main, .main] ++ handling (commandAt cnCanMsgSelectPage 42#8 a) 0

/-- The sum wraps around for the topmost page: bootloader flash to the hardware,
which ignores bit 15. -/
theorem select_wraps : ¬ ∀ (t : Target) (devId : U8) (a : U32) (flash : ResetFlash t.backend)
    (tr : List (Trans t.backend)) (d : Dev t.backend),
    Run (step t.backend devId) (boot flash) tr d → d.pc = .selectPage (cnWriteU32LE a) →
    ∀ (p : U32) (d' : Dev t.backend) (outs : List Event),
      step t.backend devId d .main = some (d', outs) →
      reply devId cnCanMsgPageSelected (cnWriteU32LE p) ∈ outs → PageOf t p.toNat a.toNat := by
  intro hclaim
  obtain ⟨tr, d, hrun, hp⟩ := Mealy.run_of_exec_any (M := step Target.avr.backend 42#8)
    (s := boot avrFresh) (p := fun r => decide (r.2.pc = .selectPage (cnWriteU32LE 0xFF80#32)))
    (selectSession 0xFF80#32) (by decide +kernel)
  have hpc := of_decide_eq_true hp
  have hpage := hclaim .avr 42#8 0xFF80#32 avrFresh tr d hrun hpc 0xFF80#32 _ _
    (step_selectPage hpc) (selected_iff.mpr ⟨by decide, by decide⟩)
  exact absurd hpage.inside (by decide)

theorem pageOf_masked {t : Target} {p a : Nat} (h : PageOf t p a) : t.maskedAddr a = p := by
  cases t with
  | stm32 =>
    obtain ⟨h₁, h₂, h₃, h₄, h₅⟩ := pageOf_stm32.mp h
    simp only [Target.maskedAddr]
    omega
  | avr =>
    obtain ⟨h₁, h₂, h₃, h₄, h₅⟩ := pageOf_avr.mp h
    simp only [Target.maskedAddr]
    omega

/-- Of the application pages all but the last are accepted. -/
theorem pageOf_accepts {t : Target} {p a : Nat} (h : PageOf t p a) :
    t.accepts p ↔ p + t.pageSize < t.appEnd := by
  cases t with
  | stm32 =>
    obtain ⟨h₁, h₂, h₃, h₄, h₅⟩ := pageOf_stm32.mp h
    change 0x08001000 ≤ p ∧ (p + 1024) % 2 ^ 32 < 0x08010000 ↔ p + 1024 < 0x08010000
    omega
  | avr =>
    obtain ⟨h₁, h₂, h₃, h₄, h₅⟩ := pageOf_avr.mp h
    change (p + 128) % 2 ^ 16 < 0x7000 ↔ p + 128 < 0x7000
    omega

theorem pageOf_lt {t : Target} {p a : Nat} (h : PageOf t p a) : p < 2 ^ t.backend.w := by
  cases t with
  | stm32 =>
    obtain ⟨h₁, h₂, h₃, h₄, h₅⟩ := pageOf_stm32.mp h
    change p < 2 ^ 32
    omega
  | avr =>
    obtain ⟨h₁, h₂, h₃, h₄, h₅⟩ := pageOf_avr.mp h
    change p < 2 ^ 16
    omega

/-- A SELECT_PAGE into an application page selects it, unless it is the last one. -/
theorem select_accepts_iff (t : Target) (devId : U8) (p : Nat) (a : U32)
    (hpage : PageOf t p a.toNat) {d : Dev t.backend}
    (hpc : d.pc = .selectPage (cnWriteU32LE a)) :
    (t.backend.flash.cnFlashPageWriteable (BitVec.ofNat t.backend.w p) = true ∧
      ∃ d', step t.backend devId d .main = some (d',
          [reply devId cnCanMsgPageSelected (cnWriteU32LE (BitVec.ofNat 32 p))]) ∧
        d'.selPage.addr = BitVec.ofNat t.backend.w p) ↔
    p + t.pageSize < t.appEnd := by
  have hwrite : t.backend.flash.cnFlashPageWriteable (BitVec.ofNat t.backend.w p) = true ↔
      t.accepts p := by
    rw [writeable_iff, BitVec.toNat_ofNat, Nat.mod_eq_of_lt (pageOf_lt hpage)]
  rw [step_selectPage hpc, selectPage_eq, pageOf_masked hpage, hwrite, ← pageOf_accepts hpage]
  constructor
  · intro h
    exact h.1
  · intro h
    rw [if_pos h]
    exact ⟨h, _, rfl, rfl⟩

theorem select_accepts_iff_0080 :
    (Target.avr.backend.flash.cnFlashPageWriteable (BitVec.ofNat 16 0x0080) = true ∧
      ∃ d', step Target.avr.backend 42#8 (selecting 0x0085#32) .main = some (d',
          [reply 42#8 cnCanMsgPageSelected (cnWriteU32LE (BitVec.ofNat 32 0x0080))]) ∧
        d'.selPage.addr = BitVec.ofNat 16 0x0080) ↔ 0x0080 + Target.avr.pageSize < Target.avr.appEnd :=
  select_accepts_iff .avr 42#8 0x0080 0x0085#32
    ⟨by decide, by decide, by decide, by decide, by decide⟩ rfl

/-- The last application page is refused. -/
theorem select_refuses_last : ¬ ∀ (t : Target) (devId : U8) (p : Nat) (a : U32)
    (flash : ResetFlash t.backend) (tr : List (Trans t.backend)) (d : Dev t.backend),
    PageOf t p a.toNat → Run (step t.backend devId) (boot flash) tr d →
    d.pc = .selectPage (cnWriteU32LE a) →
    t.backend.flash.cnFlashPageWriteable (BitVec.ofNat t.backend.w p) = true ∧
      ∃ d', step t.backend devId d .main = some (d',
          [reply devId cnCanMsgPageSelected (cnWriteU32LE (BitVec.ofNat 32 p))]) ∧
        d'.selPage.addr = BitVec.ofNat t.backend.w p := by
  intro hclaim
  obtain ⟨tr, d, hrun, hp⟩ := Mealy.run_of_exec_any (M := step Target.avr.backend 42#8)
    (s := boot avrFresh) (p := fun r => decide (r.2.pc = .selectPage (cnWriteU32LE 0x6F80#32)))
    (selectSession 0x6F80#32) (by decide +kernel)
  have hpage : PageOf .avr 0x6F80 (0x6F80#32).toNat :=
    ⟨by decide, by decide, by decide, by decide, by decide⟩
  have hacc := (hclaim .avr 42#8 0x6F80 0x6F80#32 avrFresh tr d hpage hrun (of_decide_eq_true hp)).1
  exact absurd hacc (by decide)

end Pump

end CANnuccia

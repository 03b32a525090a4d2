import CANnuccia.StoreRefined
import CANnuccia.Session

/-!
# What can be changed in the flash

Over all runs, with any messages and the timeout at any time. On STM32 the first page of
the bootloader can be erased, on AVR the last one can be overwritten.
-/
namespace CANnuccia.Pump

open Util CanMsgs Overlay
open Mealy (Machine Transition Run outputs)

/-- The addresses at which a commit can do something. On STM32 the first KiB is erased by a
commit before a page is selected, and the sum in `cnFlashPageWriteable` wraps around for
the topmost page. On AVR it wraps around too, and the hardware ignores bit 15. -/
def Target.Addressable : Target → Nat → Prop
  | .stm32, a => (0x08001000 ≤ a ∧ a < 0x0800FC00) ∨ a < 0x400 ∨ (0xFFFFFC00 ≤ a ∧ a < 2 ^ 32)
  | .avr, a => (0x80 ≤ a ∧ a < 0x6F80) ∨ (0x7F80 ≤ a ∧ a < 0x8000)

/-- The byte of the flash that an address leads to. The STM32 has 64 KiB, which it also
shows at address 0, as BOOT0 is low. -/
def Target.place : Target → Nat → Option Nat
  | .stm32, a =>
    if a < 0x10000 then some (0x08000000 + a)
    else if 0x08000000 ≤ a ∧ a < 0x08010000 then some a
    else none
  | .avr, a => if a < 0x8000 then some a else none

/-- The bytes of the flash that can come to change: on STM32 the erase at address 0 is one
of the first page of the bootloader, and the topmost page is no flash. -/
def Target.Changeable : Target → Nat → Prop
  | .stm32, p => (0x08001000 ≤ p ∧ p < 0x0800FC00) ∨ (0x08000000 ≤ p ∧ p < 0x08000400)
  | .avr, p => (0x80 ≤ p ∧ p < 0x6F80) ∨ (0x7F80 ≤ p ∧ p < 0x8000)

instance (t : Target) (p : Nat) : Decidable (Target.Changeable t p) := by
  cases t
  · exact inferInstanceAs (Decidable (_ ∨ _))
  · exact inferInstanceAs (Decidable (_ ∨ _))

variable {t : Target} {devId : U8}

theorem stm32_commit_changes {p : Page stm32} {f f' : Stm32Flash.Flash} {outs : List Event}
    (halign : p.addr.toNat % 1024 = 0) (hsel : p.addr = 0 ∨ Target.accepts .stm32 p.addr.toNat)
    (h : commitWrites devId p f = some (f', outs)) {a : Nat}
    (ha : ¬ Target.Addressable .stm32 a) : f'.mem a = f.mem a := by
  simp only [Target.Addressable, not_or] at ha
  obtain ⟨happ, hlow, hhigh⟩ := ha
  by_cases hl : f.lock = .unlocked
  · by_cases hp : p.addr = 0
    · cases (stm32_commit_unselected hl hp).symm.trans h
      have hout : ¬ (0 ≤ a ∧ a < 0 + (erased 1024).length) := by
        rw [erased_length]
        omega
      exact overlay_outside f.mem (erased 1024) hout
    · obtain ⟨hstart, hend⟩ := hsel.resolve_left hp
      have hwide : p.addr.toNat < 2 ^ 32 := p.addr.isLt
      have hlen : p.writes.toList.length = 1024 := Vector.length_toList
      cases (stm32_commit hl hp halign).symm.trans h
      refine overlay_outside _ _ ?_
      rw [hlen]
      omega
  · cases (stm32_commit_locked hl).symm.trans h
    rfl

theorem avr_commit_changes {p : Page avr} {f f' : AvrFlash.Flash} {outs : List Event}
    (halign : p.addr.toNat % 128 = 0) (hsel : p.addr = 0 ∨ Target.accepts .avr p.addr.toNat)
    (h : commitWrites devId p f = some (f', outs)) {a : Nat}
    (ha : ¬ Target.Addressable .avr a) : f'.mem a = f.mem a := by
  simp only [Target.Addressable, not_or] at ha
  obtain ⟨happ, hhigh⟩ := ha
  by_cases hr : p.addr = 0 ∨ f.flashLocked = true
  · exact congrFun (avr_commit_refused hr h).2.1 a
  · rw [not_or, Bool.not_eq_true] at hr
    have hwide : p.addr.toNat < 2 ^ 16 := p.addr.isLt
    have hne : p.addr.toNat ≠ 0 := fun hz => hr.1 (BitVec.eq_of_toNat_eq hz)
    have hend : (p.addr.toNat + 128) % 2 ^ 16 < 0x7000 := hsel.resolve_left hr.1
    have hlen : p.writes.toList.length = 128 := Vector.length_toList
    have hbase : AvrFlash.pageBase p.addr = p.addr.toNat % 0x8000 / 128 * 128 := rfl
    cases (avr_commit hr.2 hr.1 halign).symm.trans h
    refine overlay_outside _ _ ?_
    rw [hlen, hbase]
    omega

/-- A commit changes the selected page, if that is one that could be selected. -/
theorem commit_changes {p : Page t.backend} {f f' : t.backend.flash.Flash} {outs : List Event}
    (halign : p.addr.toNat % t.pageSize = 0)
    (hsel : p.addr = 0 ∨ t.backend.flash.cnFlashPageWriteable p.addr = true)
    (h : commitWrites devId p f = some (f', outs)) {a : Nat} (ha : ¬ Target.Addressable t a) :
    t.backend.flash.contents f' a = t.backend.flash.contents f a := by
  rw [writeable_iff] at hsel
  cases t with
  | stm32 => exact stm32_commit_changes halign hsel h ha
  | avr => exact avr_commit_changes halign hsel h ha

/-- The selected page is none, or one that was accepted. -/
theorem selected_writeable {flash : ResetFlash t.backend} {tr : List (Trans t.backend)}
    {d : Dev t.backend} (h : Run (step t.backend devId) (boot flash) tr d) :
    d.selPage.addr = 0 ∨ t.backend.flash.cnFlashPageWriteable d.selPage.addr = true := by
  refine (selected_run h).accepted.imp_right ?_
  rintro ⟨x, _, hx⟩
  exact hx.2.2.1

theorem run_unchanged {flash : ResetFlash t.backend} {tr : List (Trans t.backend)}
    {d : Dev t.backend} (h : Run (step t.backend devId) (boot flash) tr d) {a : Nat}
    (ha : ¬ Target.Addressable t a) :
    t.backend.flash.contents d.flash a = t.backend.flash.contents flash.1 a := by
  refine run_invariant (I := fun _ d =>
    t.backend.flash.contents d.flash a = t.backend.flash.contents flash.1 a) h rfl ?_
  intro tr d i d' outs hrun ih hmoved
  have hl := t.backend.lockRespected
  rw [← ih]
  cases moved_flash hmoved with
  | same hsame => rw [hsame]
  | unlock hunlock => rw [hunlock, hl.unlock_contents]
  | commit _ _ hc =>
    exact commit_changes (selected_run hrun).aligned (selected_writeable hrun) hc ha
  | lock _ hlock => rw [hlock, hl.lock_contents]

/-- A device whose flash holds the same byte everywhere. -/
def filled (b : U8) : (t : Target) → ResetFlash t.backend
  | .stm32 => ⟨⟨.locked, false, false, 0, false, fun _ => b, [], 0⟩, ⟨.inl rfl, rfl, rfl, rfl, rfl⟩⟩
  | .avr => ⟨⟨fun _ => b, fun _ => 0xFFFF#16, [], true, 0⟩, ⟨rfl, rfl, rfl⟩⟩

/-- The same after an UNLOCK. -/
def opened (b : U8) : (t : Target) → t.backend.flash.Flash
  | .stm32 => ⟨.unlocked, false, false, 0, false, fun _ => b, [], 0⟩
  | .avr => ⟨fun _ => b, fun _ => 0xFFFF#16, [], false, 0⟩

theorem unlock_filled (b : U8) (t : Target) :
    t.backend.flash.cnFlashUnlock (filled b t).1 = (true, opened b t) := by
  cases t with
  | stm32 => exact Stm32Flash.unlock_locked rfl
  | avr => rfl

def unlocking (devId : U8) : List Msg :=
  [command cnCanMsgProgReq devId, command cnCanMsgUnlock devId]

/-- Messages that a device serves from the start and that leave a byte changed. -/
structure Changes (devId : U8) (flash : ResetFlash t.backend) (ms : List Msg) (a : Nat) : Prop where
  goes : ∀ m ∈ ms, m.id &&& cnCanMsgidMask ≠ cnCanMsgProgDone
  served : ∃ q, serveAll devId (start flash) ms = some q ∧
    t.backend.flash.contents q.1.flash a ≠ t.backend.flash.contents flash.1 a

theorem Changes.run {flash : ResetFlash t.backend} {ms : List Msg} {a : Nat}
    (h : Changes devId flash ms a) : ∃ tr d, Run (step t.backend devId) (boot flash) tr d ∧
      t.backend.flash.contents d.flash a ≠ t.backend.flash.contents flash.1 a := by
  obtain ⟨q, hserve, hne⟩ := h.served
  have halive : AliveFor devId (start flash) ms := by
    intro l m r hlr q' hq'
    refine serveAll_alive l (fun m hm => h.goes m ?_) hq' (by simp [start])
    rw [hlr]
    exact List.mem_append_left _ hm
  obtain ⟨tr, c, hq, _⟩ := run_started hserve halive
  exact ⟨tr, _, hq.run, hne⟩

variable {b : U8} {a : Nat}

theorem serve_unlocking (devId b : U8) (t : Target) : ∃ o,
    serveAll devId (start (filled b t)) (unlocking devId) =
      some (⟨.loopTest, .unlocked, Page.zero, opened b t⟩, o) :=
  ⟨_, serveAll_step serve_progReq
    (serveAll_step (serve_unlock (unlock_filled b t)) (serveAll_nil _))⟩

/-- A commit of the page that an address selects. -/
theorem Changes.page {f : t.backend.flash.Flash} {x : U32} {p : Page t.backend}
    {outs outs' : List Event} (hs : selectPage devId (cnWriteU32LE x) Page.zero = (p, outs))
    (hc : commitWrites devId p (opened b t) = some (f, outs'))
    (hne : t.backend.flash.contents f a ≠ t.backend.flash.contents (filled b t).1 a) :
    Changes devId (filled b t) (unlocking devId ++ [commandAt cnCanMsgSelectPage devId x,
      command cnCanMsgCommitWrites devId]) a where
  goes := by
    intro m hm
    simp only [unlocking, List.cons_append, List.nil_append, List.mem_cons, List.not_mem_nil,
      or_false] at hm
    rcases hm with rfl | rfl | rfl | rfl <;> exact master_kind (by decide)
  served := by
    obtain ⟨o, hopen⟩ := serve_unlocking devId b t
    exact ⟨_, serveAll_trans hopen (serveAll_step (serve_selectPage hs)
      (serveAll_step (serve_commitWrites hc) (serveAll_nil _))), hne⟩

theorem Changes.first (ha : a < 0x400) : Changes devId (filled 0x00#8 .stm32)
    (unlocking devId ++ [command cnCanMsgCommitWrites devId]) a where
  goes := by
    intro m hm
    simp only [unlocking, List.cons_append, List.nil_append, List.mem_cons, List.not_mem_nil,
      or_false] at hm
    rcases hm with rfl | rfl | rfl <;> exact master_kind (by decide)
  served := by
    obtain ⟨o, hopen⟩ := serve_unlocking devId 0x00#8 .stm32
    refine ⟨_, serveAll_trans hopen (serveAll_step
      (serve_commitWrites (stm32_commit_unselected rfl rfl)) (serveAll_nil _)), ?_⟩
    have hinside := overlay_inside (fun _ => 0x00#8) 0 (erased 1024) (i := a)
      (by rw [erased_length]; omega)
    rw [erased_getElem, Nat.zero_add] at hinside
    show overlay (fun _ => 0x00#8) 0 (erased 1024) a ≠ 0x00#8
    rw [hinside]
    decide

/-- A page of zeros laid over erased flash. -/
theorem overlay_zeros {B : Backend} {base : Nat}
    (h : base ≤ a ∧ a < base + B.cnFlashPageSize.toNat) :
    overlay (fun _ => 0xFF#8) base (Page.zero (B := B)).writes.toList a = 0x00#8 := by
  have hlen : (Page.zero (B := B)).writes.toList.length = B.cnFlashPageSize.toNat :=
    Vector.length_toList
  have hinside := overlay_inside (fun _ => 0xFF#8) base (Page.zero (B := B)).writes.toList
    (i := a - base) (by rw [hlen]; omega)
  rw [Nat.add_sub_cancel' h.1] at hinside
  rw [hinside]
  simp [Page.zero]

theorem Changes.stm32 (ha : (0x08001000 ≤ a ∧ a < 0x0800FC00) ∨ (0xFFFFFC00 ≤ a ∧ a < 2 ^ 32)) :
    Changes devId (filled 0xFF#8 .stm32) (unlocking devId ++
      [commandAt cnCanMsgSelectPage devId (BitVec.ofNat 32 a), command cnCanMsgCommitWrites devId])
      a := by
  have hx : (BitVec.ofNat 32 a).toNat = a := by
    rw [BitVec.toNat_ofNat]
    omega
  have hsel := selectPage_eq .stm32 devId (BitVec.ofNat 32 a) Page.zero
  rw [hx] at hsel
  have hacc : Target.accepts .stm32 (Target.maskedAddr .stm32 a) := by
    simp only [Target.accepts, Target.maskedAddr]
    omega
  rw [if_pos hacc] at hsel
  have haddr : (BitVec.ofNat 32 (Target.maskedAddr .stm32 a)).toNat = a / 1024 * 1024 := by
    rw [BitVec.toNat_ofNat, Target.maskedAddr]
    omega
  have hne : BitVec.ofNat 32 (Target.maskedAddr .stm32 a) ≠ 0 := by
    intro hz
    rw [hz] at haddr
    have hzero : 0 = a / 1024 * 1024 := haddr
    omega
  refine Changes.page hsel (stm32_commit rfl hne ?_) ?_
  · show (BitVec.ofNat 32 (Target.maskedAddr .stm32 a)).toNat % 1024 = 0
    omega
  · have hzeros : overlay (fun _ => 0xFF#8) (a / 1024 * 1024)
        (Page.zero (B := CANnuccia.stm32)).writes.toList a = 0x00#8 :=
      overlay_zeros ⟨by omega, show a < a / 1024 * 1024 + 1024 by omega⟩
    show overlay (fun _ => 0xFF#8) (BitVec.ofNat 32 (Target.maskedAddr .stm32 a)).toNat _ a ≠ 0xFF#8
    rw [haddr]
    exact fun he => absurd (hzeros.symm.trans he) (by decide)

/-- The address that an AVR master can give for a byte of the flash. -/
def avrAlias (a : Nat) : Nat := if a < 0x6F80 then a else a + 0x8000

theorem Changes.avr (ha : (0x80 ≤ a ∧ a < 0x6F80) ∨ (0x7F80 ≤ a ∧ a < 0x8000)) :
    Changes devId (filled 0xFF#8 .avr) (unlocking devId ++
      [commandAt cnCanMsgSelectPage devId (BitVec.ofNat 32 (avrAlias a)),
        command cnCanMsgCommitWrites devId]) a := by
  have hlt : avrAlias a < 0x10000 ∧ avrAlias a % 0x8000 = a ∧
      (avrAlias a < 0x6F80 ∧ 0x80 ≤ avrAlias a ∨ 0xFF80 ≤ avrAlias a) := by
    unfold avrAlias
    split <;> omega
  obtain ⟨hwide, halias, hpage⟩ := hlt
  generalize avrAlias a = x at *
  have hx : (BitVec.ofNat 32 x).toNat = x := by
    rw [BitVec.toNat_ofNat]
    omega
  have hsel := selectPage_eq .avr devId (BitVec.ofNat 32 x) Page.zero
  rw [hx] at hsel
  have hacc : Target.accepts .avr (Target.maskedAddr .avr x) := by
    simp only [Target.accepts, Target.maskedAddr]
    omega
  rw [if_pos hacc] at hsel
  have haddr : (BitVec.ofNat 16 (Target.maskedAddr .avr x)).toNat = x / 128 * 128 := by
    rw [BitVec.toNat_ofNat, Target.maskedAddr]
    omega
  have hne : BitVec.ofNat 16 (Target.maskedAddr .avr x) ≠ 0 := by
    intro hz
    rw [hz] at haddr
    have hzero : 0 = x / 128 * 128 := haddr
    omega
  refine Changes.page hsel (avr_commit rfl hne ?_) ?_
  · show (BitVec.ofNat 16 (Target.maskedAddr .avr x)).toNat % 128 = 0
    omega
  · have hzeros : overlay (fun _ => 0xFF#8) (a / 128 * 128)
        (Page.zero (B := CANnuccia.avr)).writes.toList a = 0x00#8 :=
      overlay_zeros ⟨by omega, show a < a / 128 * 128 + 128 by omega⟩
    have hbase : AvrFlash.pageBase (BitVec.ofNat 16 (Target.maskedAddr .avr x)) =
        a / 128 * 128 := by
      rw [AvrFlash.pageBase, haddr]
      omega
    show overlay (fun _ => 0xFF#8)
      (AvrFlash.pageBase (BitVec.ofNat 16 (Target.maskedAddr .avr x))) _ a ≠ 0xFF#8
    rw [hbase]
    exact fun he => absurd (hzeros.symm.trans he) (by decide)

/-- The addresses at which a run can change the flash, with any messages, any contents at
reset and the timeout at any time. -/
theorem addressable_iff (t : Target) (devId : U8) (a : Nat) :
    (∃ (flash : ResetFlash t.backend) (tr : List (Trans t.backend)) (d : Dev t.backend),
      Run (step t.backend devId) (boot flash) tr d ∧
        t.backend.flash.contents d.flash a ≠ t.backend.flash.contents flash.1 a) ↔
    Target.Addressable t a := by
  constructor
  · rintro ⟨flash, tr, d, hrun, hne⟩
    by_contra ha
    exact hne (run_unchanged hrun ha)
  · intro ha
    cases t with
    | stm32 =>
      rcases ha with ha | ha | ha
      · exact ⟨_, (Changes.stm32 (.inl ha)).run⟩
      · exact ⟨_, (Changes.first ha).run⟩
      · exact ⟨_, (Changes.stm32 (.inr ha)).run⟩
    | avr => exact ⟨_, (Changes.avr ha).run⟩

/-- Where the addresses lead to. -/
theorem changeable_place (t : Target) (p : Nat) :
    (∃ a, Target.place t a = some p ∧ Target.Addressable t a) ↔ Target.Changeable t p := by
  cases t with
  | stm32 =>
    constructor
    · rintro ⟨a, hplace, ha⟩
      simp only [Target.place] at hplace
      simp only [Target.Addressable] at ha
      simp only [Target.Changeable]
      split at hplace
      · cases hplace
        omega
      · split at hplace
        · cases hplace
          omega
        · cases hplace
    · rintro (hp | hp)
      · refine ⟨p, ?_, .inl hp⟩
        rw [Target.place, if_neg (by omega), if_pos (by omega)]
      · refine ⟨p - 0x08000000, ?_, .inr (.inl (by omega))⟩
        rw [Target.place, if_pos (by omega), Nat.add_sub_cancel' hp.1]
  | avr =>
    constructor
    · rintro ⟨a, hplace, ha⟩
      simp only [Target.place] at hplace
      split at hplace
      · cases hplace
        exact ha
      · cases hplace
    · intro hp
      refine ⟨p, ?_, hp⟩
      simp only [Target.Changeable] at hp
      rw [Target.place, if_pos (by omega)]

/-- The bytes of the flash that a run can change, at some address that leads to them. -/
theorem changeable_iff (t : Target) (devId : U8) (p : Nat) :
    (∃ (a : Nat) (flash : ResetFlash t.backend) (tr : List (Trans t.backend)) (d : Dev t.backend),
      Target.place t a = some p ∧ Run (step t.backend devId) (boot flash) tr d ∧
        t.backend.flash.contents d.flash a ≠ t.backend.flash.contents flash.1 a) ↔
    Target.Changeable t p := by
  rw [← changeable_place]
  constructor
  · rintro ⟨a, flash, tr, d, hplace, hrun, hne⟩
    exact ⟨a, hplace, (addressable_iff t devId a).mp ⟨flash, tr, d, hrun, hne⟩⟩
  · rintro ⟨a, hplace, ha⟩
    obtain ⟨flash, tr, d, hrun, hne⟩ := (addressable_iff t devId a).mpr ha
    exact ⟨a, flash, tr, d, hplace, hrun, hne⟩

/-- The rest of the bootloader on STM32. -/
example (p : Nat) (h : 0x08000400 ≤ p ∧ p < 0x08001000) : ¬ Target.Changeable .stm32 p := by
  simp only [Target.Changeable]
  omega

end CANnuccia.Pump

import CANnuccia.Select

/-!
# One interface, two flash drivers

`cnFlashBeginWrite`, any number of `cnFlashFill` calls and `cnFlashEndWrite`. The STM32
driver erases the page first and stores through, the AVR driver collects the words in the
temporary buffer and erases and writes at the end; what is in the page afterwards is the same.
-/
namespace CANnuccia

open Util Overlay

variable {w : Nat}

/-- A call of `cnFlashFill`; `data` is the memory its pointer leads to. -/
structure Fill (w : Nat) where
  offset : BitVec w
  size : BitVec w
  data : Nat → U8

/-- The bytes and where in the page they go. -/
def Fill.piece (c : Fill w) : Nat × List U8 :=
  (c.offset.toNat, (List.range' 0 c.size.toNat).map c.data)

def Fill.Covers (c : Fill w) (i : Nat) : Prop :=
  c.offset.toNat ≤ i ∧ i < c.offset.toNat + c.size.toNat

/-- Calls one after the other, with what they return. -/
def FlashDriver.fills (D : FlashDriver w) : List (Fill w) → D.Flash → Option (List (BitVec w) × D.Flash)
  | [], f => some ([], f)
  | c :: cs, f => do
    let (n, f) ← D.cnFlashFill c.offset c.size c.data f
    let (ns, f) ← D.fills cs f
    some (n :: ns, f)

theorem FlashDriver.fills_cons {D : FlashDriver w} {c : Fill w} {cs : List (Fill w)} {n : BitVec w}
    {ns : List (BitVec w)} {f f₁ f' : D.Flash}
    (hfirst : D.cnFlashFill c.offset c.size c.data f = some (n, f₁))
    (hrest : D.fills cs f₁ = some (ns, f')) : D.fills (c :: cs) f = some (n :: ns, f') := by
  simp [FlashDriver.fills, hfirst, hrest]

/-- What a whole write cycle returns and leaves. -/
structure CycleRun (D : FlashDriver w) where
  begun : Bool
  filled : List (BitVec w)
  ended : Bool
  flash : D.Flash

def FlashDriver.cycle (D : FlashDriver w) (p : BitVec w) (cs : List (Fill w)) (f : D.Flash) :
    Option (CycleRun D) := do
  let (begun, f) := D.cnFlashBeginWrite p f
  let (filled, f) ← D.fills cs f
  let (ended, f) := D.cnFlashEndWrite f
  some ⟨begun, filled, ended, f⟩

theorem FlashDriver.cycle_eq {D : FlashDriver w} {p : BitVec w} {cs : List (Fill w)} {b e : Bool}
    {ns : List (BitVec w)} {f f₁ f₂ f' : D.Flash} (hbegin : D.cnFlashBeginWrite p f = (b, f₁))
    (hfills : D.fills cs f₁ = some (ns, f₂)) (hend : D.cnFlashEndWrite f₂ = (e, f')) :
    D.cycle p cs f = some ⟨b, ns, e, f'⟩ := by
  simp [FlashDriver.cycle, hbegin, hfills, hend]

/-- Whole half words, inside the page and over no byte twice. -/
structure Fits (pageSize : Nat) (cs : List (Fill w)) : Prop where
  even : ∀ c ∈ cs, c.offset.toNat % 2 = 0 ∧ c.size.toNat % 2 = 0
  inside : ∀ c ∈ cs, c.offset.toNat + c.size.toNat ≤ pageSize
  disjoint : cs.Pairwise fun c c' => ∀ i, ¬ (c.Covers i ∧ c'.Covers i)

/-- The page holds the data, the rest of it is erased, and all other flash is as it was. -/
structure Written (p pageSize : Nat) (cs : List (Fill w)) (mem mem' : Nat → U8) : Prop where
  data : ∀ c ∈ cs, ∀ i < c.size.toNat, mem' (p + (c.offset.toNat + i)) = c.data i
  rest : ∀ i < pageSize, (∀ c ∈ cs, ¬ c.Covers i) → mem' (p + i) = 0xFF#8
  others : ∀ a, ¬ (p ≤ a ∧ a < p + pageSize) → mem' a = mem a

/-- No write cycle is open. -/
def Target.Closed : (t : Target) → t.backend.flash.Flash → Prop
  | .stm32 => fun (f : Stm32Flash.Flash) => f.curPageAddr = 0 ∧ f.pg = false
  | .avr => fun (f : AvrFlash.Flash) => f.curPageAddr = 0 ∧ ∀ i < 64, f.temp i = 0xFFFF#16

/-- The page as the drivers put it together: the data laid over an erased page. -/
def image (cs : List (Fill w)) : Nat → U8 := overlays (fun _ => 0xFF#8) (cs.map Fill.piece)

theorem Fits.tail {pageSize : Nat} {c : Fill w} {cs : List (Fill w)} (h : Fits pageSize (c :: cs)) :
    Fits pageSize cs where
  even c' hc' := h.even c' (List.mem_cons_of_mem c hc')
  inside c' hc' := h.inside c' (List.mem_cons_of_mem c hc')
  disjoint := h.disjoint.tail

theorem Fill.covers_iff (c : Fill w) (i : Nat) :
    c.Covers i ↔ c.piece.1 ≤ i ∧ i < c.piece.1 + c.piece.2.length := by
  simp [Fill.piece, Fill.Covers]

/-- Over no byte twice, so that the order of the calls does not matter. -/
theorem image_data {pageSize : Nat} {cs : List (Fill w)} (h : Fits pageSize cs) {c : Fill w}
    (hc : c ∈ cs) {i : Nat} (hi : i < c.size.toNat) : image cs (c.offset.toNat + i) = c.data i := by
  obtain ⟨l, r, rfl⟩ := List.append_of_mem hc
  have hafter : ∀ v ∈ r.map Fill.piece, ¬ (v.1 ≤ c.offset.toNat + i ∧
      c.offset.toNat + i < v.1 + v.2.length) := by
    intro v hv hcovers
    obtain ⟨c', hc', rfl⟩ := List.mem_map.mp hv
    have hdisjoint := (List.pairwise_append.mp h.disjoint).2.1
    exact (List.pairwise_cons.mp hdisjoint).1 c' hc' (c.offset.toNat + i)
      ⟨⟨Nat.le_add_right _ _, by omega⟩, (c'.covers_iff _).mpr hcovers⟩
  have hlen : i < c.piece.2.length := by simpa [Fill.piece] using hi
  have hlast := overlays_last (fun _ => 0xFF#8) (l.map Fill.piece) (r.map Fill.piece) hlen hafter
  rw [image, List.map_append, List.map_cons]
  refine hlast.trans ?_
  simp only [Fill.piece, List.getElem_map, List.getElem_range', Nat.zero_add, Nat.one_mul]

theorem image_erased {cs : List (Fill w)} {i : Nat} (h : ∀ c ∈ cs, ¬ c.Covers i) :
    image cs i = 0xFF#8 := by
  refine overlays_outside (fun _ => 0xFF#8) fun v hv hcovers => ?_
  obtain ⟨c, hc, rfl⟩ := List.mem_map.mp hv
  exact h c hc ((c.covers_iff i).mpr hcovers)

/-- Data that goes into the page leaves the rest of the flash alone. -/
theorem Fits.outside {p pageSize a : Nat} {cs : List (Fill w)} (h : Fits pageSize cs)
    (ha : ¬ (p ≤ a ∧ a < p + pageSize)) (mem : Nat → U8) :
    overlays mem ((cs.map Fill.piece).map fun v => (p + v.1, v.2)) a = mem a := by
  refine overlays_outside mem fun v hv hcovers => ?_
  obtain ⟨u, hu, rfl⟩ := List.mem_map.mp hv
  obtain ⟨c, hc, rfl⟩ := List.mem_map.mp hu
  obtain ⟨hlow, hhigh⟩ : p + c.piece.1 ≤ a ∧ a < p + c.piece.1 + c.piece.2.length := hcovers
  obtain ⟨-, hlast⟩ := (c.covers_iff (a - p)).mpr ⟨by omega, by omega⟩
  have hin := h.inside c hc
  exact ha ⟨by omega, by omega⟩

theorem Written.of_image {p pageSize : Nat} {cs : List (Fill w)} {mem mem' : Nat → U8}
    (hfits : Fits pageSize cs) (hpage : ∀ i < pageSize, mem' (p + i) = image cs i)
    (hothers : ∀ a, ¬ (p ≤ a ∧ a < p + pageSize) → mem' a = mem a) :
    Written p pageSize cs mem mem' where
  data c hc i hi := by
    have hin := hfits.inside c hc
    rw [hpage _ (by omega), image_data hfits hc hi]
  rest i hi h := by rw [hpage i hi, image_erased h]
  others := hothers

/-- Where a call starts, as the loops count on from it. -/
theorem add_eq_ofNat (p offset : BitVec w) :
    p + offset = BitVec.ofNat w (p.toNat + offset.toNat + 0) := by
  apply BitVec.eq_of_toNat_eq
  rw [BitVec.toNat_add, BitVec.toNat_ofNat, Nat.add_zero]

namespace Stm32Flash

/-- A cycle is open on page `p`. -/
structure Programming (p : U32) (f : Flash) : Prop where
  lock : f.lock = .unlocked
  pg : f.pg = true
  curPageAddr : f.curPageAddr = p

theorem fill_done {p : U32} {c : Fill 32} {f : Flash} (h : Programming p f) (hp : p ≠ 0)
    (hpage : p.toNat + 1024 ≤ 2 ^ 32) (heven : c.size.toNat % 2 = 0)
    (hinside : c.offset.toNat + c.size.toNat ≤ 1024)
    (herased : ∀ i, c.Covers i → f.mem (p.toNat + i) = 0xFF#8) :
    ∃ f', cnFlashFill c.offset c.size c.data f = some (c.size, f') ∧ Programming p f' ∧
      f'.mem = overlay f.mem (p.toNat + c.piece.1) c.piece.2 := by
  obtain ⟨m, hm⟩ : ∃ m, c.size.toNat = 2 * m := ⟨c.size.toNat / 2, by omega⟩
  have hdest : f.curPageAddr + c.offset = BitVec.ofNat 32 (p.toNat + c.offset.toNat + 0) := by
    rw [h.curPageAddr, add_eq_ofNat]
  have hrange : ∀ a, p.toNat + c.offset.toNat + 0 ≤ a →
      a < p.toNat + c.offset.toNat + c.size.toNat → f.mem a = 0xFF#8 := by
    intro a hlow hhigh
    have ha := herased (a - p.toNat) ⟨by omega, by omega⟩
    rwa [show p.toNat + (a - p.toNat) = a by omega] at ha
  have hfill := fillLoop_spec c.size c.data (p.toNat + c.offset.toNat) m (c.size.toNat + 1) 0 0
    (f.curPageAddr + c.offset) f (by omega) rfl (by omega) hdest (by omega) h.lock h.pg hrange
  have hopen : f.curPageAddr ≠ 0 := by rwa [h.curPageAddr]
  rw [← hm] at hfill
  exact ⟨_, (if_neg hopen).trans hfill, ⟨h.lock, h.pg, h.curPageAddr⟩, rfl⟩

/-- Each call finds its range erased, as the calls before it stored elsewhere. -/
theorem fills_done {p : U32} (hp : p ≠ 0) (hpage : p.toNat + 1024 ≤ 2 ^ 32) :
    ∀ (cs : List (Fill 32)) (f : Flash), Fits 1024 cs → Programming p f →
      (∀ c ∈ cs, ∀ i, c.Covers i → f.mem (p.toNat + i) = 0xFF#8) →
      ∃ f' : Flash, driver.fills cs f = some (cs.map Fill.size, f') ∧ Programming p f' ∧
        f'.mem = overlays f.mem ((cs.map Fill.piece).map fun v => (p.toNat + v.1, v.2)) := by
  intro cs
  induction cs with
  | nil =>
    intro f hfits h herased
    exact ⟨f, rfl, h, rfl⟩
  | cons c cs ih =>
    intro f hfits h herased
    have hc : c ∈ c :: cs := List.mem_cons_self ..
    obtain ⟨f₁, hfill, h₁, hmem₁⟩ := fill_done h hp hpage (hfits.even c hc).2 (hfits.inside c hc)
      (herased c hc)
    have herased₁ : ∀ c' ∈ cs, ∀ i, c'.Covers i → f₁.mem (p.toNat + i) = 0xFF#8 := by
      intro c' hc' i hi
      have hdisjoint := (List.pairwise_cons.mp hfits.disjoint).1 c' hc' i
      have hcovers : ¬ (c.piece.1 ≤ i ∧ i < c.piece.1 + c.piece.2.length) := fun h =>
        hdisjoint ⟨(c.covers_iff i).mpr h, hi⟩
      rw [hmem₁, overlay_shift, overlay_outside _ _ hcovers]
      exact herased c' (List.mem_cons_of_mem c hc') i hi
    obtain ⟨f', hfills, h', hmem⟩ := ih f₁ hfits.tail h₁ herased₁
    exact ⟨f', FlashDriver.fills_cons hfill hfills, h', by rw [hmem, hmem₁]; rfl⟩

/-- While no cycle is open the calls do nothing. -/
theorem fills_closed (cs : List (Fill 32)) {f : Flash} (h : f.curPageAddr = 0) :
    driver.fills cs f = some (cs.map fun _ => 0, f) := by
  induction cs with
  | nil => rfl
  | cons c cs ih =>
    have hfirst : driver.cnFlashFill c.offset c.size c.data f = some (0, f) := if_pos h
    exact FlashDriver.fills_cons hfirst ih

theorem begin_done {p : U32} {f : Flash} (hl : f.lock = .unlocked) (halign : p.toNat % 1024 = 0) :
    ∃ f', cnFlashBeginWrite p f = (true, f') ∧ Programming p f' ∧
      f'.mem = overlay f.mem p.toNat (erased 1024) := by
  have hbase : p.toNat / 1024 * 1024 = p.toNat := by omega
  have hbegin := beginWrite_unlocked hl p
  rw [hbase] at hbegin
  exact ⟨_, hbegin, ⟨rfl, rfl, rfl⟩, rfl⟩

/-- An open driver erases the page and stores every range. -/
theorem cycle_written {p : U32} {cs : List (Fill 32)} {f : Flash} (hl : f.lock = .unlocked)
    (hp : p ≠ 0) (halign : p.toNat % 1024 = 0) (hfits : Fits 1024 cs) :
    ∃ f' : Flash, driver.cycle p cs f = some ⟨true, cs.map Fill.size, true, f'⟩ ∧
      Written p.toNat 1024 cs f.mem f'.mem := by
  have hlt := p.isLt
  obtain ⟨f₁, hbegin, hopen₁, hmem₁⟩ := begin_done hl halign
  have herased : ∀ i < 1024, f₁.mem (p.toNat + i) = 0xFF#8 := by
    intro i hi
    have hlen : i < (erased 1024).length := by rwa [erased_length]
    rw [hmem₁, overlay_inside _ _ _ hlen, erased_getElem hlen]
  obtain ⟨f₂, hfills, hopen₂, hmem₂⟩ := fills_done hp (by omega) cs f₁ hfits hopen₁
    fun c hc i hi => herased i (Nat.lt_of_lt_of_le hi.2 (hfits.inside c hc))
  have hend := endWrite_unlocked hopen₂.lock (by rwa [hopen₂.curPageAddr])
  refine ⟨_, FlashDriver.cycle_eq hbegin hfills hend, Written.of_image hfits ?_ ?_⟩
  · intro i hi
    rw [hmem₂, overlays_shift]
    exact overlays_congr (herased i hi) _
  · intro a ha
    rw [hmem₂, hfits.outside ha, hmem₁, overlay_outside _ _ (by rwa [erased_length])]

/-- Refused at the start. -/
theorem cycle_refused {p : U32} (cs : List (Fill 32)) {f : Flash} (hl : f.lock ≠ .unlocked)
    (hclosed : f.curPageAddr = 0) :
    driver.cycle p cs f = some ⟨false, cs.map fun _ => 0, false, f⟩ :=
  FlashDriver.cycle_eq (beginWrite_locked hl p) (fills_closed cs hclosed) (if_pos hclosed)

end Stm32Flash

namespace AvrFlash

theorem fill_done {c : Fill 16} {f : Flash} (hp : f.curPageAddr ≠ 0)
    (halign : f.curPageAddr.toNat % 128 = 0) (hoffset : c.offset.toNat % 2 = 0)
    (hsize : c.size.toNat % 2 = 0) (hinside : c.offset.toNat + c.size.toNat ≤ 128) :
    ∃ temp, cnFlashFill c.offset c.size c.data f = some (c.size, { f with temp := temp }) ∧
      tempByte temp = overlay (tempByte f.temp) c.piece.1 c.piece.2 := by
  obtain ⟨m, hm⟩ : ∃ m, c.size.toNat = 2 * m := ⟨c.size.toNat / 2, by omega⟩
  have hfill := fillLoop_spec c.offset c.size c.data f.curPageAddr.toNat halign hoffset hinside m
    65 0 0 (f.curPageAddr + c.offset) f (by omega) rfl rfl (by omega) (add_eq_ofNat ..)
  refine ⟨_, (if_neg hp).trans hfill, ?_⟩
  rw [Nat.add_zero, tempByte_overlay f.temp c.data hoffset, ← hm]
  rfl

theorem fills_done : ∀ (cs : List (Fill 16)) (f : Flash), f.curPageAddr ≠ 0 →
    f.curPageAddr.toNat % 128 = 0 → Fits 128 cs →
    ∃ temp, driver.fills cs f = some (cs.map Fill.size, ({ f with temp := temp } : Flash)) ∧
      tempByte temp = overlays (tempByte f.temp) (cs.map Fill.piece) := by
  intro cs
  induction cs with
  | nil =>
    intro f hp halign hfits
    exact ⟨f.temp, rfl, rfl⟩
  | cons c cs ih =>
    intro f hp halign hfits
    have hc : c ∈ c :: cs := List.mem_cons_self ..
    obtain ⟨temp₁, hfill, htemp₁⟩ := fill_done hp halign (hfits.even c hc).1 (hfits.even c hc).2
      (hfits.inside c hc)
    obtain ⟨temp, hfills, htemp⟩ := ih { f with temp := temp₁ } hp halign hfits.tail
    exact ⟨temp, FlashDriver.fills_cons hfill hfills, by rw [htemp, htemp₁]; rfl⟩

/-- The buffer covers the whole page. -/
theorem end_done {f : Flash} (hl : f.flashLocked = false) (hp : f.curPageAddr ≠ 0) :
    ∃ f', cnFlashEndWrite f = (true, f') ∧
      f'.mem = overlay f.mem (pageBase f.curPageAddr) ((List.range 128).map (tempByte f.temp)) := by
  have hopen : ¬ (f.curPageAddr = 0 ∨ f.flashLocked = true) := by
    rw [hl]
    exact fun h => h.elim hp Bool.false_ne_true
  have hlen : (erased 128).length ≤ ((List.range 128).map (tempByte f.temp)).length := by simp
  refine ⟨_, if_neg hopen, ?_⟩
  rw [bootPageWriteSafe, bootPageEraseSafe, tempBytes_eq, overlay_overlay _ _ hlen]

/-- An empty buffer is an erased page. -/
theorem tempByte_empty {temp : Nat → U16} (h : ∀ i < 64, temp i = 0xFFFF#16) {i : Nat}
    (hi : i < 128) : tempByte temp i = 0xFF#8 := by
  rw [tempByte, h (i / 2) (by omega)]
  split <;> rfl

/-- An open driver collects the ranges and writes them over the erased page. -/
theorem cycle_written {p : U16} {cs : List (Fill 16)} {f : Flash} (hl : f.flashLocked = false)
    (hp : p ≠ 0) (halign : p.toNat % 128 = 0) (hsmall : p.toNat < 0x8000) (hfits : Fits 128 cs)
    (hempty : ∀ i < 64, f.temp i = 0xFFFF#16) :
    ∃ f' : Flash, driver.cycle p cs f = some ⟨true, cs.map Fill.size, true, f'⟩ ∧
      Written p.toNat 128 cs f.mem f'.mem := by
  obtain ⟨temp, hfills, htemp⟩ := fills_done cs (cnFlashBeginWrite p f).2 hp halign hfits
  obtain ⟨f', hend, hmem⟩ := end_done (f := { f with curPageAddr := p, temp := temp }) hl hp
  rw [pageBase_eq halign hsmall] at hmem
  refine ⟨f', FlashDriver.cycle_eq rfl hfills hend, Written.of_image hfits ?_ ?_⟩
  · intro i hi
    have hlen : i < ((List.range 128).map (tempByte temp)).length := by simpa using hi
    have hunfilled : tempByte f.temp i = 0xFF#8 := tempByte_empty hempty hi
    rw [hmem, overlay_inside _ _ _ hlen, List.getElem_map, List.getElem_range, htemp]
    exact overlays_congr hunfilled _
  · intro a ha
    rw [hmem, overlay_outside _ _ (by simpa using ha)]

/-- Refused at the end, with the buffer filled. -/
theorem cycle_unfinished {p : U16} {cs : List (Fill 16)} {f : Flash} (hl : f.flashLocked = true)
    (hp : p ≠ 0) (halign : p.toNat % 128 = 0) (hfits : Fits 128 cs) :
    ∃ temp, driver.cycle p cs f = some ⟨true, cs.map Fill.size, false,
      ({ f with curPageAddr := p, temp := temp } : Flash)⟩ := by
  obtain ⟨temp, hfills, htemp⟩ := fills_done cs (cnFlashBeginWrite p f).2 hp halign hfits
  exact ⟨temp, FlashDriver.cycle_eq rfl hfills (if_pos (.inr hl))⟩

end AvrFlash

/-- Unlocked, the calls return their sizes and the page is written; locked, the cycle ends with
a failure and nothing has changed. The lock is seen at opposite ends. -/
structure CycleDone {D : FlashDriver w} (p : BitVec w) (pageSize : Nat) (cs : List (Fill w))
    (f : D.Flash) (r : CycleRun D) : Prop where
  unlocked : D.locked f = false → r.begun = true ∧ r.filled = cs.map Fill.size ∧ r.ended = true ∧
    Written p.toNat pageSize cs (D.contents f) (D.contents r.flash)
  locked : D.locked f = true → r.ended = false ∧ D.contents r.flash = D.contents f

section

variable {D : FlashDriver w} {p : BitVec w} {pageSize : Nat} {cs : List (Fill w)} {f f' : D.Flash}

theorem CycleDone.written (hl : D.locked f = false)
    (h : Written p.toNat pageSize cs (D.contents f) (D.contents f')) :
    CycleDone p pageSize cs f ⟨true, cs.map Fill.size, true, f'⟩ where
  unlocked _ := ⟨rfl, rfl, rfl, h⟩
  locked hl' := by cases hl.symm.trans hl'

theorem CycleDone.refused {begun : Bool} {ns : List (BitVec w)} (hl : D.locked f = true)
    (h : D.contents f' = D.contents f) : CycleDone p pageSize cs f ⟨begun, ns, false, f'⟩ where
  unlocked hl' := by cases hl.symm.trans hl'
  locked _ := ⟨rfl, h⟩

end

theorem stm32_cycle {p : U32} {cs : List (Fill 32)} {f : Stm32Flash.Flash}
    (hclosed : f.curPageAddr = 0) (hp : p ≠ 0) (halign : p.toNat % 1024 = 0) (hfits : Fits 1024 cs) :
    ∃ r, Stm32Flash.driver.cycle p cs f = some r ∧ CycleDone p 1024 cs f r := by
  by_cases hl : f.lock = .unlocked
  · obtain ⟨f', hcycle, hwritten⟩ := Stm32Flash.cycle_written hl hp halign hfits
    exact ⟨_, hcycle, .written (decide_eq_false (not_not_intro hl)) hwritten⟩
  · exact ⟨_, Stm32Flash.cycle_refused cs hl hclosed, .refused (decide_eq_true hl) rfl⟩

theorem avr_cycle {p : U16} {cs : List (Fill 16)} {f : AvrFlash.Flash}
    (hempty : ∀ i < 64, f.temp i = 0xFFFF#16) (hp : p ≠ 0) (halign : p.toNat % 128 = 0)
    (hsmall : p.toNat < 0x8000) (hfits : Fits 128 cs) :
    ∃ r, AvrFlash.driver.cycle p cs f = some r ∧ CycleDone p 128 cs f r := by
  cases hl : f.flashLocked with
  | false =>
    obtain ⟨f', hcycle, hwritten⟩ := AvrFlash.cycle_written hl hp halign hsmall hfits hempty
    exact ⟨_, hcycle, .written hl hwritten⟩
  | true =>
    obtain ⟨temp, hcycle⟩ := AvrFlash.cycle_unfinished hl hp halign hfits
    exact ⟨_, hcycle, .refused hl rfl⟩

/-- Any list of calls in any order, on either driver. -/
theorem flash_cycle (t : Target) (p : BitVec t.backend.w) (cs : List (Fill t.backend.w))
    (f : t.backend.flash.Flash) (hclosed : t.Closed f) (hpage : PageOf t p.toNat p.toNat)
    (hp : p ≠ 0) (hfits : Fits t.pageSize cs) :
    ∃ r, t.backend.flash.cycle p cs f = some r ∧ CycleDone p t.pageSize cs f r := by
  cases t with
  | stm32 => exact stm32_cycle hclosed.1 hp hpage.aligned hfits
  | avr =>
    obtain ⟨halign, -, -, -, hend⟩ := pageOf_avr.mp hpage
    have hsmall : p.toNat < 0x8000 := by omega
    exact avr_cycle hclosed.2 hp halign hsmall hfits

/-- The upper half of a page first, then a part of the lower one. -/
def halves : List (Fill 32) :=
  [⟨0x200#32, 0x200#32, fun i => BitVec.ofNat 8 i⟩, ⟨0x10#32, 0x80#32, fun _ => 0x42#8⟩]

theorem halves_fits : Fits Target.stm32.pageSize halves := by
  refine ⟨by decide, by decide, ?_⟩
  simp only [halves, Fill.Covers, List.pairwise_cons, List.mem_singleton, forall_eq]
  refine ⟨fun i => ?_, by simp⟩
  rintro ⟨⟨hlow, -⟩, -, hhigh⟩
  exact absurd (Nat.lt_of_le_of_lt hlow hhigh) (by decide)

/-- An unlocked controller over a flash of zeros. -/
def stm32Open : Stm32Flash.Flash := ⟨.unlocked, false, false, 0, false, fun _ => 0, [], 0⟩

theorem flash_cycle_halves : Stm32Flash.driver.locked stm32Open = false ∧
    ∃ r, Stm32Flash.driver.cycle 0x08001000#32 halves stm32Open = some r ∧
      CycleDone 0x08001000#32 1024 halves stm32Open r :=
  ⟨by decide, flash_cycle .stm32 (0x08001000#32 : U32) halves stm32Open ⟨rfl, rfl⟩
    (pageOf_stm32.mpr (by decide)) (show (0x08001000#32 : U32) ≠ 0 by decide) halves_fits⟩

end CANnuccia

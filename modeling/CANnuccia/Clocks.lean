import CANnuccia.Mealy
import CANnuccia.Masks
import CANnuccia.Mmio
import CANnuccia.Util

/-!
# The clocks of the STM32 (stm32/startup.c)

`enableHSE` has the system clock driven by the PLL, which the external crystal drives. The
crystal and the PLL become ready, and the switch between the clocks happens, some time after
they are asked to. Frequencies are in MHz.
-/
namespace CANnuccia.Clocks

open Util
open Mealy (Machine Transition Run outputs)
open Masks (flag)
open Mmio (Device Stable modify store waitFor)

inductive Reg where
  | cr | cfgr | acr
  deriving DecidableEq, Repr

def rccCrPllrdy : U32 := 0x02000000#32
def rccCrPllon : U32 := 0x01000000#32
def rccCrHserdy : U32 := 0x00020000#32
def rccCrHseon : U32 := 0x00010000#32
def flashAcrPrftbe : U32 := 0x00000010#32

def enableHSE : Mmio Reg Unit := do
  modify .cr fun v => v ||| rccCrHseon
  waitFor .cr fun v => decide (v &&& rccCrHserdy ≠ 0)
  store .acr (flashAcrPrftbe ||| 0x2#32)
  modify .cfgr fun v => v ||| 0x5d0400#32
  modify .cr fun v => v ||| rccCrPllon
  waitFor .cr fun v => decide (v &&& rccCrPllrdy ≠ 0)
  modify .cfgr fun v => v ||| 0x2#32
  waitFor .cfgr fun v => decide (v &&& 0x8#32 ≠ 0)

/-- What drives the system clock. -/
inductive Source where
  | hsi | hse | pll
  deriving DecidableEq, Repr

/-- SW in CFGR, and SWS four times that. -/
def Source.code : Source → U32
  | .hsi => 0
  | .hse => 1
  | .pll => 2

structure Tree where
  /-- Without the flags that the hardware sets. -/
  cr : U32
  cfgr : U32
  acr : U32
  hserdy : Bool
  pllrdy : Bool
  sysclk : Source

def Tree.hseon (k : Tree) : Bool := k.cr &&& rccCrHseon ≠ 0
def Tree.pllon (k : Tree) : Bool := k.cr &&& rccCrPllon ≠ 0

/-- The crystal drives the PLL, not the internal oscillator. -/
def Tree.pllsrc (k : Tree) : Bool := k.cfgr.getLsbD 16

/-- SW: what is asked to drive the system clock. -/
def Tree.asked (k : Tree) : Option Source :=
  [Source.hsi, .hse, .pll].find? fun c => k.cfgr &&& 0x3#32 = c.code

def Tree.ready (k : Tree) : Source → Bool
  | .hsi => true
  | .hse => k.hserdy
  | .pll => k.pllrdy

def Tree.read : Reg → Tree → U32
  | .cr, k => k.cr ||| flag k.hserdy rccCrHserdy ||| flag k.pllrdy rccCrPllrdy
  | .cfgr, k => k.cfgr ||| k.sysclk.code <<< 2
  | .acr, k => k.acr

/-- PLLSRC, PLLXTPRE and PLLMUL. -/
def pllBits : U32 := 0x003F0000#32

/-- A clock that is in use is not switched off, and the bits of the PLL can only be written
while it is off. -/
def Tree.write : Reg → U32 → Tree → Tree
  | .cr, v, k =>
    let held := (if k.sysclk = .hse then rccCrHseon else 0) |||
      (if k.sysclk = .pll then rccCrPllon else 0)
    let cr := v &&& ~~~(rccCrHserdy ||| rccCrPllrdy) ||| k.cr &&& held
    { k with
      cr := cr
      hserdy := k.hserdy && decide (cr &&& rccCrHseon ≠ 0)
      pllrdy := k.pllrdy && decide (cr &&& rccCrPllon ≠ 0) }
  | .cfgr, v, k =>
    let v := v &&& ~~~0xC#32
    { k with cfgr := if k.pllon then v &&& ~~~pllBits ||| k.cfgr &&& pllBits else v }
  | .acr, v, k => { k with acr := v }

def device : Device Reg Tree := ⟨Tree.read, Tree.write⟩

/-- What the hardware does on its own. -/
inductive Move where
  | hseReady | pllReady | switch

def Tree.move (k : Tree) : Move → Option Tree
  | .hseReady => if k.hseon then some { k with hserdy := true } else none
  | .pllReady =>
    if k.pllon && k.ready (if k.pllsrc then .hse else .hsi) then some { k with pllrdy := true }
    else none
  | .switch =>
    match k.asked with
    | some c => if k.ready c then some { k with sysclk := c } else none
    | none => none

def Tree.pllMul (k : Tree) : Nat := min ((k.cfgr >>> 18 &&& 0xF#32).toNat + 2) 16

/-- The internal oscillator and the crystal run at 8 MHz. -/
def Tree.freq (k : Tree) : Source → Nat
  | .hsi => 8
  | .hse => 8
  | .pll => (if k.pllsrc then (if k.cfgr.getLsbD 17 then 4 else 8) else 4) * k.pllMul

def Tree.hpre (k : Tree) : Nat :=
  let n := (k.cfgr >>> 4 &&& 0xF#32).toNat
  if n < 8 then 1 else if n < 12 then 2 ^ (n - 7) else 2 ^ (n - 6)

/-- The divider of a peripheral bus from its three bits. -/
def ppre (n : Nat) : Nat := if n < 4 then 1 else 2 ^ (n - 3)

def Tree.ppre1 (k : Tree) : Nat := ppre (k.cfgr >>> 8 &&& 0x7#32).toNat

def Tree.hclk (k : Tree) (c : Source) : Nat := k.freq c / k.hpre
def Tree.pclk1 (k : Tree) (c : Source) : Nat := k.hclk c / k.ppre1

/-- The timers of the bus run twice as fast as the bus if that is divided. -/
def Tree.timclk1 (k : Tree) (c : Source) : Nat :=
  if k.ppre1 = 1 then k.pclk1 c else 2 * k.pclk1 c

def Tree.latency (k : Tree) : Nat := (k.acr &&& 0x7#32).toNat

/-- The flash is given enough time, no clock is too fast, and nothing is driven by a clock
that is not ready. -/
structure Safe (k : Tree) : Prop where
  flash : k.freq k.sysclk ≤ 24 * (k.latency + 1)
  sysclk : k.freq k.sysclk ≤ 72
  pclk1 : k.pclk1 k.sysclk ≤ 36
  pll : k.pllon = true → k.pllsrc = true → k.hserdy = true
  ready : k.ready k.sysclk = true

/-- After a reset. -/
def resetTree : Tree := ⟨0x00000083#32, 0, 0x00000030#32, false, false, .hsi⟩

def Moves (k k' : Tree) : Prop := ∃ x, k.move x = some k'

/-- Both sides of an access are safe. -/
def Keeps (k k' : Tree) : Prop := Safe k ∧ Safe k'

/-- The registers, and if `hse` or `pll`, that these are ready. The clock is still the
first one or the one that is asked for. -/
structure At (cr cfgr acr : U32) (hse pll : Bool) (k : Tree) : Prop where
  cr : k.cr = cr
  cfgr : k.cfgr = cfgr
  acr : k.acr = acr
  hserdy : hse = true → k.hserdy = true
  pllrdy : pll = true → k.pllrdy = true
  sysclk : k.sysclk = .hsi ∨ k.asked = some k.sysclk
  ready : k.ready k.sysclk = true

variable {cr cfgr acr v : U32} {hse pll : Bool} {k k' : Tree}

/-- A clock that is ready stays so when another one becomes ready. -/
theorem ready_mono (c : Source) (hh : k.hserdy = true → k'.hserdy = true)
    (hp : k.pllrdy = true → k'.pllrdy = true) (h : k.ready c = true) : k'.ready c = true := by
  cases c with
  | hsi => rfl
  | hse => exact hh h
  | pll => exact hp h

theorem moves_at (h : At cr cfgr acr hse pll k) (hm : Moves k k') : At cr cfgr acr hse pll k' := by
  obtain ⟨x, hx⟩ := hm
  cases x with
  | hseReady =>
    simp only [Tree.move, Option.ite_none_right_eq_some, Option.some.injEq] at hx
    obtain ⟨_, rfl⟩ := hx
    exact ⟨h.cr, h.cfgr, h.acr, fun _ => rfl, h.pllrdy, h.sysclk,
      ready_mono (k := k) _ (fun _ => rfl) id h.ready⟩
  | pllReady =>
    simp only [Tree.move, Option.ite_none_right_eq_some, Option.some.injEq] at hx
    obtain ⟨_, rfl⟩ := hx
    exact ⟨h.cr, h.cfgr, h.acr, h.hserdy, fun _ => rfl, h.sysclk,
      ready_mono (k := k) _ id (fun _ => rfl) h.ready⟩
  | switch =>
    simp only [Tree.move] at hx
    split at hx
    · rename_i c hasked
      simp only [Option.ite_none_right_eq_some, Option.some.injEq] at hx
      obtain ⟨hready, rfl⟩ := hx
      exact ⟨h.cr, h.cfgr, h.acr, h.hserdy, h.pllrdy, .inr hasked, hready⟩
    · cases hx

theorem at_stable : Stable Moves (At cr cfgr acr hse pll) := fun _ _ h hm => moves_at h hm

/-- On its own oscillator the chip is safe. -/
theorem hsi_safe (h : At cr cfgr acr hse pll k) (hk : k.sysclk = .hsi)
    (hpll : cr &&& rccCrPllon ≠ 0 → cfgr.getLsbD 16 = true → hse = true) : Safe k := by
  have hfreq : k.freq k.sysclk = 8 := by rw [hk, Tree.freq]
  refine ⟨by omega, by omega, ?_, fun hon hsrc => ?_, h.ready⟩
  · have hdiv : k.pclk1 k.sysclk ≤ k.freq k.sysclk :=
      (Nat.div_le_self _ _).trans (Nat.div_le_self _ _)
    omega
  · rw [Tree.pllon, h.cr, decide_eq_true_eq] at hon
    rw [Tree.pllsrc, h.cfgr] at hsrc
    exact h.hserdy (hpll hon hsrc)

theorem asked_hsi (h : At cr cfgr acr hse pll k) (hasked : cfgr &&& 0x3#32 = 0) :
    k.sysclk = .hsi := by
  rcases h.sysclk with hk | hk
  · exact hk
  · have hfirst : k.asked = some .hsi := by
      simp [Tree.asked, h.cfgr, hasked, Source.code]
    rw [hfirst] at hk
    exact (Option.some.inj hk).symm

/-- The frequencies that `enableHSE` asks for. -/
theorem pll_freqs (h : At 0x01010083#32 0x005D0402#32 0x00000012#32 true true k) :
    k.freq .pll = 72 ∧ k.hclk .pll = 72 ∧ k.pclk1 .pll = 36 ∧ k.timclk1 .pll = 72 ∧
      k.latency = 2 ∧ k.asked = some .pll := by
  have hfreq : k.freq .pll = 72 := by simp [Tree.freq, Tree.pllsrc, Tree.pllMul, h.cfgr]
  have hhclk : k.hclk .pll = 72 := by simp [Tree.hclk, hfreq, Tree.hpre, h.cfgr]
  have hppre : k.ppre1 = 2 := by simp [Tree.ppre1, ppre, h.cfgr]
  have hpclk : k.pclk1 .pll = 36 := by simp [Tree.pclk1, hhclk, hppre]
  have htim : k.timclk1 .pll = 72 := by simp [Tree.timclk1, hppre, hpclk]
  have hlat : k.latency = 2 := by simp [Tree.latency, h.acr]
  have hasked : k.asked = some .pll := by simp [Tree.asked, h.cfgr, Source.code]
  exact ⟨hfreq, hhclk, hpclk, htim, hlat, hasked⟩

theorem pll_safe (h : At 0x01010083#32 0x005D0402#32 0x00000012#32 true true k) : Safe k := by
  obtain ⟨hfreq, _, hpclk, _, hlat, hasked⟩ := pll_freqs h
  rcases h.sysclk with hk | hk
  · exact hsi_safe h hk fun _ _ => rfl
  · rw [hasked] at hk
    have hpll := Option.some.inj hk
    refine ⟨?_, ?_, ?_, fun _ _ => h.hserdy rfl, h.ready⟩
    · rw [← hpll, hfreq, hlat]
    · rw [← hpll, hfreq]
    · rw [← hpll, hpclk]

variable {cr' cfgr' acr' : U32} {hse' pll' : Bool}

/-- A register is read, changed and written, and the chip is safe before and after it. -/
theorem modify_meets {reg : Reg} {g : U32 → U32}
    (hwrite : ∀ k k', At cr cfgr acr hse pll k → At cr cfgr acr hse pll k' →
      At cr' cfgr' acr' hse' pll' (k'.write reg (g (k.read reg))))
    (hsafe : ∀ k, At cr cfgr acr hse pll k → Safe k)
    (hsafe' : ∀ k, At cr' cfgr' acr' hse' pll' k → Safe k) (h : At cr cfgr acr hse pll k) :
    Mmio.Meets device Moves Keeps (fun _ k => At cr' cfgr' acr' hse' pll' k) (modify reg g) k := by
  refine Mmio.meets_read at_stable h fun k h => ⟨⟨hsafe k h, hsafe k h⟩, ?_⟩
  refine Mmio.meets_write at_stable h fun k' h' => ?_
  have hdone := hwrite k k' h h'
  exact ⟨⟨hsafe k' h', hsafe' _ hdone⟩, hdone⟩

theorem waitFor_meets {reg : Reg} {cond : U32 → Bool} {post : Tree → Prop}
    (hcond : ∀ k, At cr cfgr acr hse pll k → cond (k.read reg) = true → post k)
    (hsafe : ∀ k, At cr cfgr acr hse pll k → Safe k) (h : At cr cfgr acr hse pll k) :
    Mmio.Meets device Moves Keeps (fun _ k => post k) (waitFor reg cond) k :=
  Mmio.meets_await at_stable h fun k h => ⟨⟨hsafe k h, hsafe k h⟩, hcond k h⟩

/-- While the chip runs on its own oscillator, a clock is switched on. -/
theorem set_cr {bit : U32} (hcfgr : cfgr &&& 0x3#32 = 0)
    (hbit : ∀ b b', (cr ||| flag b rccCrHserdy ||| flag b' rccCrPllrdy ||| bit) &&&
      ~~~(rccCrHserdy ||| rccCrPllrdy) = cr') (hhse : hse = true → cr' &&& rccCrHseon ≠ 0)
    (h : At cr cfgr acr hse false k) (h' : At cr cfgr acr hse false k') :
    At cr' cfgr acr hse false (k'.write .cr (k.read .cr ||| bit)) := by
  have hk := asked_hsi h' hcfgr
  have hcr : (k'.write .cr (k.read .cr ||| bit)).cr = cr' := by
    simp [Tree.write, Tree.read, hk, h.cr, hbit]
  refine ⟨hcr, h'.cfgr, h'.acr, fun he => ?_, by simp, .inl hk, by rw [Tree.write, hk]; rfl⟩
  have hon : (k'.write .cr (k.read .cr ||| bit)).hserdy =
    (k'.hserdy && decide ((k'.write .cr (k.read .cr ||| bit)).cr &&& rccCrHseon ≠ 0)) := rfl
  rw [hon, hcr, h'.hserdy he, Bool.true_and, decide_eq_true_eq]
  exact hhse he

/-- The same of CFGR. -/
theorem set_cfgr {bits : U32} (hcfgr : cfgr &&& 0x3#32 = 0)
    (hbits : (if cr &&& rccCrPllon ≠ 0 then
      ((cfgr ||| bits) &&& ~~~0xC#32) &&& ~~~pllBits ||| cfgr &&& pllBits
      else (cfgr ||| bits) &&& ~~~0xC#32) = cfgr')
    (h : At cr cfgr acr hse pll k) (h' : At cr cfgr acr hse pll k') :
    At cr cfgr' acr hse pll (k'.write .cfgr (k.read .cfgr ||| bits)) := by
  have hk := asked_hsi h hcfgr
  have hk' := asked_hsi h' hcfgr
  refine ⟨h'.cr, ?_, h'.acr, h'.hserdy, h'.pllrdy, .inl hk', by rw [Tree.write, hk']; rfl⟩
  simp [Tree.write, Tree.read, hk, h.cfgr, h'.cfgr, Tree.pllon, h'.cr, Source.code, ← hbits]

/-- `enableHSE` has returned: the system clock runs at 72 MHz and stays so. -/
structure Fast (k : Tree) : Prop where
  regs : At 0x01010083#32 0x005D0402#32 0x00000012#32 true true k
  sysclk : k.sysclk = .pll

theorem reset_at : At 0x00000083#32 0 0x00000030#32 false false resetTree :=
  ⟨rfl, rfl, rfl, by simp, by simp, .inl rfl, rfl⟩

/-- Without the PLL, or with the crystal ready for it. -/
theorem slow_safe (hcfgr : cfgr &&& 0x3#32 = 0) (hpll : cr &&& rccCrPllon ≠ 0 → hse = true)
    (h : At cr cfgr acr hse pll k) : Safe k :=
  hsi_safe h (asked_hsi h hcfgr) fun hon _ => hpll hon

theorem hse_awaited (h : At cr cfgr acr false pll k)
    (hcond : decide (k.read .cr &&& rccCrHserdy ≠ 0) = true)
    (hcr : ∀ b, (cr ||| flag false rccCrHserdy ||| flag b rccCrPllrdy) &&& rccCrHserdy = 0) :
    At cr cfgr acr true pll k := by
  refine ⟨h.cr, h.cfgr, h.acr, fun _ => ?_, h.pllrdy, h.sysclk, h.ready⟩
  cases hk : k.hserdy with
  | true => rfl
  | false => simp [Tree.read, hk, h.cr, hcr] at hcond

theorem pll_awaited (h : At cr cfgr acr hse false k)
    (hcond : decide (k.read .cr &&& rccCrPllrdy ≠ 0) = true)
    (hcr : ∀ b, (cr ||| flag b rccCrHserdy ||| flag false rccCrPllrdy) &&& rccCrPllrdy = 0) :
    At cr cfgr acr hse true k := by
  refine ⟨h.cr, h.cfgr, h.acr, h.hserdy, fun _ => ?_, h.sysclk, h.ready⟩
  cases hk : k.pllrdy with
  | true => rfl
  | false => simp [Tree.read, hk, h.cr, hcr] at hcond

theorem enableHSE_meets (h : At 0x00000083#32 0 0x00000030#32 false false k) :
    Mmio.Meets device Moves Keeps (fun _ k => Fast k) enableHSE k := by
  have hhseon : ∀ k k', At 0x00000083#32 0 0x00000030#32 false false k →
      At 0x00000083#32 0 0x00000030#32 false false k' →
      At 0x00010083#32 0 0x00000030#32 false false (k'.write .cr (k.read .cr ||| rccCrHseon)) :=
    fun k k' h h' => set_cr rfl (by decide) (by simp) h h'
  have hpllon : ∀ k k', At 0x00010083#32 0x005D0400#32 0x00000012#32 true false k →
      At 0x00010083#32 0x005D0400#32 0x00000012#32 true false k' →
      At 0x01010083#32 0x005D0400#32 0x00000012#32 true false
        (k'.write .cr (k.read .cr ||| rccCrPllon)) :=
    fun k k' h h' => set_cr rfl (by decide) (by decide) h h'
  have hbuses : ∀ k k', At 0x00010083#32 0 0x00000012#32 true false k →
      At 0x00010083#32 0 0x00000012#32 true false k' →
      At 0x00010083#32 0x005D0400#32 0x00000012#32 true false
        (k'.write .cfgr (k.read .cfgr ||| 0x5d0400#32)) :=
    fun k k' h h' => set_cfgr rfl (by decide) h h'
  have hswitch : ∀ k k', At 0x01010083#32 0x005D0400#32 0x00000012#32 true true k →
      At 0x01010083#32 0x005D0400#32 0x00000012#32 true true k' →
      At 0x01010083#32 0x005D0402#32 0x00000012#32 true true
        (k'.write .cfgr (k.read .cfgr ||| 0x2#32)) :=
    fun k k' h h' => set_cfgr rfl (by decide) h h'
  refine (modify_meets hhseon (fun _ => slow_safe rfl (by decide))
    (fun _ => slow_safe rfl (by decide)) h).seq fun _ k h => ?_
  refine (waitFor_meets (fun k h hc => hse_awaited h hc (by decide))
    (fun _ => slow_safe rfl (by decide)) h).seq fun _ k h => ?_
  refine (Mmio.meets_write at_stable h fun k h => ?_)
  have hwaits : At 0x00010083#32 0 0x00000012#32 true false
      (k.write .acr (flashAcrPrftbe ||| 0x2#32)) :=
    ⟨h.cr, h.cfgr, rfl, h.hserdy, h.pllrdy, h.sysclk, h.ready⟩
  refine ⟨⟨slow_safe rfl (by decide) h, slow_safe rfl (by decide) hwaits⟩, ?_⟩
  refine (modify_meets hbuses (fun _ => slow_safe rfl (by decide))
    (fun _ => slow_safe rfl (by decide)) hwaits).seq fun _ k h => ?_
  refine (modify_meets hpllon (fun _ => slow_safe rfl (by decide))
    (fun _ => slow_safe rfl (by decide)) h).seq fun _ k h => ?_
  refine (waitFor_meets (fun k h hc => pll_awaited h hc (by decide))
    (fun _ => slow_safe rfl (by decide)) h).seq fun _ k h => ?_
  refine (modify_meets hswitch (fun _ => slow_safe rfl (by decide)) (fun _ => pll_safe) h).seq
    fun _ k h => ?_
  refine waitFor_meets (fun k h hc => ⟨h, ?_⟩) (fun _ => pll_safe) h
  rcases h.sysclk with hk | hk
  · simp [Tree.read, h.cfgr, hk, Source.code] at hc
  · rw [(pll_freqs h).2.2.2.2.2] at hk
    exact (Option.some.inj hk).symm

/-- What is left of the driver, and the clocks. -/
structure Session where
  driver : Mmio Reg Unit
  tree : Tree

inductive Step where
  | access
  | move (x : Move)

def step : Machine Session Step Empty
  | s, .access =>
    match s.driver.returned with
    | none =>
      let (driver, tree) := s.driver.step device s.tree
      some (⟨driver, tree⟩, [])
    | some _ => none
  | s, .move x => (s.tree.move x).map fun tree => ({ s with tree := tree }, [])

inductive Stepped (s : Session) : Step → Session → Prop where
  | access : s.driver.returned = none →
      Stepped s .access ⟨(s.driver.step device s.tree).1, (s.driver.step device s.tree).2⟩
  | move {x : Move} {tree : Tree} : s.tree.move x = some tree →
      Stepped s (.move x) { s with tree := tree }

theorem step_stepped {s s' : Session} {x : Step} {outs : List Empty}
    (h : step s x = some (s', outs)) : Stepped s x s' := by
  cases x with
  | access =>
    simp only [step] at h
    split at h
    · cases h
      exact .access ‹_›
    · cases h
  | move x =>
    simp only [step, Option.map_eq_some_iff, Prod.mk.injEq] at h
    obtain ⟨tree, hmove, rfl, _⟩ := h
    exact .move hmove

/-- The driver runs, or it has returned. -/
def Enabling (s : Session) : Prop :=
  (s.driver.returned = none ∧ Mmio.Meets device Moves Keeps (fun _ k => Fast k) s.driver s.tree) ∨
    (s.driver.returned = some () ∧ Fast s.tree)

theorem moves_fast (h : Fast k) (hm : Moves k k') : Fast k' := by
  have hregs := moves_at h.regs hm
  refine ⟨hregs, ?_⟩
  obtain ⟨x, hx⟩ := hm
  cases x with
  | hseReady | pllReady =>
    simp only [Tree.move, Option.ite_none_right_eq_some, Option.some.injEq] at hx
    obtain ⟨_, rfl⟩ := hx
    exact h.sysclk
  | switch =>
    simp only [Tree.move, (pll_freqs h.regs).2.2.2.2.2, Option.ite_none_right_eq_some,
      Option.some.injEq] at hx
    obtain ⟨_, rfl⟩ := hx
    rfl

theorem enabling_step {s s' : Session} {x : Step} (h : Enabling s) (hstep : Stepped s x s') :
    Enabling s' := by
  cases hstep with
  | access hnot =>
    obtain ⟨_, hmeets⟩ | ⟨hret, _⟩ := h
    · have hnext := (hmeets.step hnot).2
      cases hr : (s.driver.step device s.tree).1.returned with
      | none => exact .inl ⟨hr, hnext⟩
      | some u => exact .inr ⟨hr, hnext.ended hr⟩
    · rw [hret] at hnot
      cases hnot
  | move hmove =>
    obtain ⟨hnot, hmeets⟩ | ⟨hret, hfast⟩ := h
    · exact .inl ⟨hnot, hmeets.moved hnot ⟨_, hmove⟩⟩
    · exact .inr ⟨hret, moves_fast hfast ⟨_, hmove⟩⟩

theorem enabling_safe {s : Session} (h : Enabling s) : Safe s.tree := by
  obtain ⟨hnot, hmeets⟩ | ⟨_, hfast⟩ := h
  · exact (hmeets.step hnot).1.1
  · exact pll_safe hfast.regs

variable {tr : List (Transition Session Step Empty)}

theorem enabling_run {s : Session} (h : Run step ⟨enableHSE, resetTree⟩ tr s) : Enabling s := by
  refine h.invariant (I := fun _ s => Enabling s) (.inl ⟨rfl, enableHSE_meets reset_at⟩) ?_
  intro _ _ _ _ _ _ hI hstep
  exact enabling_step hI (step_stepped hstep)

/-- From a reset on, whenever the crystal and the PLL become ready and whenever the clock is
switched: no clock is ever too fast, for the flash or at all, and none that is not ready
drives anything. When `enableHSE` has returned the system clock runs at 72 MHz, the first
peripheral bus at 36 MHz and its timers at 72 MHz. -/
theorem clock_runs {s : Session} (h : Run step ⟨enableHSE, resetTree⟩ tr s) :
    Safe s.tree ∧ (s.driver.returned = some () →
      s.tree.freq s.tree.sysclk = 72 ∧ s.tree.pclk1 s.tree.sysclk = 36 ∧
      s.tree.timclk1 s.tree.sysclk = 72) := by
  have henabling := enabling_run h
  refine ⟨enabling_safe henabling, fun hret => ?_⟩
  obtain ⟨hnot, _⟩ | ⟨_, hfast⟩ := henabling
  · rw [hret] at hnot
    cases hnot
  · obtain ⟨hfreq, _, hpclk, htim, _⟩ := pll_freqs hfast.regs
    rw [hfast.sysclk]
    exact ⟨hfreq, hpclk, htim⟩

section Enabled

/-- Every loop of the driver reads once in vain. -/
def enableInputs : List Step :=
  List.replicate 3 .access ++ [.move .hseReady] ++ List.replicate 7 .access ++
    [.move .pllReady] ++ List.replicate 4 .access ++ [.move .switch, .access]

theorem clock_runs_enabled : ∃ tr s, Run step ⟨enableHSE, resetTree⟩ tr s ∧
    s.driver.returned = some () ∧ s.tree.freq s.tree.sysclk = 72 := by
  obtain ⟨tr, s, hrun, hp⟩ := Mealy.run_of_exec_any (M := step) (s := ⟨enableHSE, resetTree⟩)
    (p := fun r => decide (r.2.driver.returned = some ())) enableInputs (by decide +kernel)
  have hret := of_decide_eq_true hp
  exact ⟨tr, s, hrun, hret, ((clock_runs hrun).2 hret).1⟩

end Enabled

end CANnuccia.Clocks

import CANnuccia.Drivers
import CANnuccia.Masks

/-!
# The STM32 timer driver (stm32/timer.c)

TIM2 with its clock gate and the first words of the interrupt controller. ISER0
and ICER0 read as the enable mask and ICPR0 as the pending mask; writing ones
sets or clears those bits. TIM2 requests its interrupt while UIF and UIE are set.
-/
namespace CANnuccia.Stm32Timer

open Util Masks

variable {F : Type}

def timSrUif : U32 := 0x00000001#32
def timCr1Dir : U32 := 0x00000010#32
def timCr1Opm : U32 := 0x00000008#32
def timCr1Urs : U32 := 0x00000004#32
def timCr1Cen : U32 := 0x00000001#32
def timDierUie : U32 := 0x00000001#32
def rccApb1enrTim2enr : U32 := 0x00000001#32

/-- `1 << TIM2_IRQN` -/
def tim2Irq : U32 := 0x10000000#32

def clockFreqMhz : Int := 72

structure Tim (F : Type) where
  apb1enr : U32
  cr1 : U32
  dier : U32
  sr : U32
  psc : U32
  arr : U32
  nvicEnabled : U32
  nvicPending : U32
  timeoutFunc : Option F

def reset : Tim F := ⟨0, 0, 0, 0, 0, 0xFFFF#32, 0, 0, none⟩

/-- `TIM2->EGR |= TIM_EGR_UG`: an update by software, silent while URS is set. -/
def Tim.updateGeneration (t : Tim F) : Tim F :=
  if t.cr1 &&& timCr1Urs ≠ 0 then t else { t with sr := t.sr ||| timSrUif }

def Tim.writeISER0 (t : Tim F) (v : U32) : Tim F := { t with nvicEnabled := t.nvicEnabled ||| v }
def Tim.writeICER0 (t : Tim F) (v : U32) : Tim F := { t with nvicEnabled := t.nvicEnabled &&& ~~~v }
def Tim.writeICPR0 (t : Tim F) (v : U32) : Tim F := { t with nvicPending := t.nvicPending &&& ~~~v }

/-- The counter reaches its end: an update event, which stops a one-pulse timer. -/
def expire (t : Tim F) : Option (Tim F) :=
  if t.apb1enr &&& rccApb1enrTim2enr ≠ 0 ∧ t.cr1 &&& timCr1Cen ≠ 0 then
    some { t with
      sr := t.sr ||| timSrUif
      cr1 := if t.cr1 &&& timCr1Opm ≠ 0 then t.cr1 &&& ~~~timCr1Cen else t.cr1
      nvicPending := if t.dier &&& timDierUie ≠ 0 then t.nvicPending ||| tim2Irq else t.nvicPending }
  else none

def Tim.requested (t : Tim F) : Prop :=
  t.nvicPending &&& tim2Irq ≠ 0 ∨ (t.sr &&& timSrUif ≠ 0 ∧ t.dier &&& timDierUie ≠ 0)

instance (t : Tim F) : Decidable t.requested := inferInstanceAs (Decidable (_ ∨ _))

def tim2Handler (t : Tim F) : Tim F × Option F :=
  ({ t with sr := t.sr &&& ~~~timSrUif }, t.timeoutFunc)

/-- Dispatching the interrupt clears its pending bit. -/
def irq (t : Tim F) : Option (Tim F × Option F) :=
  if t.nvicEnabled &&& tim2Irq ≠ 0 ∧ t.requested then
    some (tim2Handler { t with nvicPending := t.nvicPending &&& ~~~tim2Irq })
  else none

/-- The result of a signed 32-bit operation, undefined on overflow. -/
def int32 (n : Int) : Option Int := if -2 ^ 31 ≤ n ∧ n < 2 ^ 31 then some n else none

/-- The prescaler search from `psc` on, with `n` prescalers left to try. -/
def searchPsc (delayUsI : Int) : Nat → Int → Int → Option (Int × Int)
  | 0, psc, arr => some (psc, arr)
  | n + 1, psc, arr => do
    let ticks ← int32 (clockFreqMhz * delayUsI)
    let limit ← int32 (0x10000 * (psc + 1))
    if ticks ≤ limit then
      let arr := ticks.tdiv (psc + 1) - 1
      if arr > 0 ∧ arr ≤ 0xFFFF then some (psc, arr)
      else searchPsc delayUsI n (psc + 1) arr
    else searchPsc delayUsI n (psc + 1) arr

def cnTimerStart (delayUs : U32) (oneshot : Bool) (onTimeout : Option F) (t : Tim F) :
    Option (Bool × Tim F) :=
  if delayUs = 0 ∨ onTimeout.isNone then some (false, t)
  else do
    let t := { t with apb1enr := t.apb1enr ||| rccApb1enrTim2enr }
    let t := { t with cr1 := t.cr1 &&& ~~~timCr1Cen }
    let t := { t with cr1 := t.cr1 ||| timCr1Dir }
    let t := { t with cr1 := t.cr1 ||| timCr1Urs }
    let (psc, arr) ← searchPsc delayUs.toInt 0x10000 0 0xFFFF
    let t := { t with psc := BitVec.ofInt 32 psc &&& 0xFFFF#32 }
    let t := { t with arr := BitVec.ofInt 32 arr &&& 0xFFFF#32 }
    let t := t.updateGeneration
    let t := { t with timeoutFunc := onTimeout }
    let t := { t with cr1 := t.cr1 ||| if oneshot then timCr1Opm else 0 }
    let t := { t with dier := t.dier ||| timDierUie }
    let t := t.writeICPR0 (t.nvicPending ||| tim2Irq)
    let t := t.writeISER0 (t.nvicEnabled ||| tim2Irq)
    let t := { t with cr1 := t.cr1 ||| timCr1Cen }
    some (true, t)

def cnTimerStop (t : Tim F) : Tim F :=
  let t := { t with cr1 := t.cr1 &&& ~~~timCr1Cen }
  let t := { t with dier := t.dier &&& ~~~timDierUie }
  let t := t.writeICER0 (t.nvicEnabled ||| tim2Irq)
  { t with apb1enr := t.apb1enr &&& ~~~rccApb1enrTim2enr }

def driver (F : Type) : TimerDriver F where
  Timer := Tim F
  reset := reset
  cnTimerStart := cnTimerStart
  cnTimerStop := cnTimerStop
  expire := expire
  irq := irq

/-- The prescaler search for the bootloader's three seconds. -/
theorem searchPsc_bootloader : searchPsc 3000000 0x10000 0 0xFFFF = some (3295, 65532) := by
  decide +kernel

/-- No interrupt can come: it is masked, or nothing is running or pending. -/
def Quiet (t : Tim F) : Prop :=
  t.nvicEnabled &&& tim2Irq = 0 ∨
    (t.cr1 &&& timCr1Cen = 0 ∧ t.sr &&& timSrUif = 0 ∧ t.nvicPending &&& tim2Irq = 0)

/-- Started in one-pulse mode: an update is pending only once the counter stopped. -/
structure Armed (onTimeout : F) (t : Tim F) : Prop where
  func : t.timeoutFunc = some onTimeout
  opm : t.cr1 &&& timCr1Opm ≠ 0
  once : t.cr1 &&& timCr1Cen ≠ 0 → t.sr &&& timSrUif = 0 ∧ t.nvicPending &&& tim2Irq = 0

theorem stop_quiet (t : Tim F) : Quiet (cnTimerStop t) :=
  .inl (and_not_or_mask t.nvicEnabled tim2Irq)

theorem start_armed (onTimeout : F) :
    ∃ t, cnTimerStart 3000000#32 true (some onTimeout) reset = some (true, t) ∧
      Armed onTimeout t := by
  have hdelay : (3000000#32).toInt = 3000000 := by decide
  refine ⟨⟨1, 0x1D#32, 1, 0, 3295#32, 65532#32, tim2Irq, 0, some onTimeout⟩, ?_, rfl, ?_, ?_⟩
  · simp [cnTimerStart, hdelay, searchPsc_bootloader, reset, Tim.updateGeneration, Tim.writeICPR0,
      Tim.writeISER0, timCr1Cen, timCr1Dir, timCr1Urs, timCr1Opm, timDierUie, rccApb1enrTim2enr]
  · simp [timCr1Opm]
  · simp [timSrUif, tim2Irq]

theorem quiet_expire {t t' : Tim F} (h : Quiet t) (he : expire t = some t') : Quiet t' := by
  unfold expire at he
  split at he
  · obtain rfl := Option.some.inj he
    cases h with
    | inl h => exact .inl h
    | inr h =>
      rename_i hrun
      exact absurd h.1 hrun.2
  · cases he

theorem quiet_irq {t : Tim F} (h : Quiet t) : irq t = none := by
  unfold irq
  rw [if_neg]
  rintro ⟨hen, hreq⟩
  rcases h with h | ⟨_, hsr, hpend⟩
  · exact hen h
  · rcases hreq with hr | hr
    · exact hr hpend
    · exact hr.1 hsr

theorem armed_expire {onTimeout : F} {t t' : Tim F} (h : Armed onTimeout t)
    (he : expire t = some t') : Armed onTimeout t' := by
  unfold expire at he
  split at he
  · obtain rfl := Option.some.inj he
    have hstopped : t.cr1 &&& ~~~timCr1Cen &&& timCr1Cen = 0 := and_not_mask _ _
    refine ⟨h.func, ?_, ?_⟩
    · simp only [h.opm, ne_eq, not_false_eq_true, ↓reduceIte]
      rw [and_not_disjoint _ _ _ (by decide)]
      exact h.opm
    · simp only [h.opm, ne_eq, not_false_eq_true, ↓reduceIte]
      intro hc
      exact absurd hstopped hc
  · cases he

/-- The handler runs after the counter stopped, and leaves nothing pending. -/
theorem armed_irq {onTimeout : F} {t t' : Tim F} {f : Option F} (h : Armed onTimeout t)
    (he : irq t = some (t', f)) : Quiet t' ∧ f = some onTimeout := by
  unfold irq tim2Handler at he
  split at he
  · rename_i hr
    simp only [Option.some.injEq, Prod.mk.injEq] at he
    obtain ⟨rfl, rfl⟩ := he
    refine ⟨.inr ⟨?_, and_not_mask _ _, and_not_mask _ _⟩, h.func⟩
    by_contra hc
    obtain ⟨hsr, hpend⟩ := h.once hc
    rcases hr.2 with hq | hq
    · exact hq hpend
    · exact hq.1 hsr
  · cases he

def oneShot (onTimeout : F) : OneShot (driver F) 3000000#32 onTimeout where
  Quiet := Quiet
  Armed := Armed onTimeout
  reset_quiet := .inl (by simp [driver, reset])
  reset_expire := by simp [driver, reset, expire]
  start_armed := start_armed onTimeout
  stop_quiet := stop_quiet
  quiet_expire := quiet_expire
  quiet_irq := quiet_irq
  armed_expire := armed_expire
  armed_irq := armed_irq

end CANnuccia.Stm32Timer

import CANnuccia.Drivers
import CANnuccia.Masks

/-!
# The AVR timer driver (avr/timer.c)

Timer1 counts while a clock source is selected and sets TOV1 when it overflows.
The overflow interrupt is requested while TOV1 and TOIE1 are set and is taken
while the global interrupt flag is set; taking it clears TOV1.
-/
namespace CANnuccia.AvrTimer

open Util

variable {F : Type}

structure Timer1 (F : Type) where
  tccr1a : U8
  tccr1b : U8
  timsk1 : U8
  tcnt1 : U16
  tov1 : Bool
  sregI : Bool
  timeoutFunc : Option F
  timerOneshot : Bool

/-- `1 << TOIE1` -/
def toie1 : U8 := 0x01#8

/-- CS12, CS11 and CS10 of TCCR1B. -/
def clockSelect : U8 := 0x07#8

def fCpu : U32 := 16000000#32

def reset : Timer1 F := ⟨0, 0, 0, 0, false, false, none, false⟩

/-- The counter overflows and goes on from zero. -/
def expire (t : Timer1 F) : Option (Timer1 F) :=
  if t.tccr1b &&& clockSelect ≠ 0 then some { t with tov1 := true, tcnt1 := 0 } else none

/-- `PSCS` and `PSC_REGS`: a prescaler and the TCCR1B value that selects it. -/
def pscs : List (U32 × U8) :=
  [(1, 0x01#8), (8, 0x02#8), (64, 0x03#8), (256, 0x04#8), (1024, 0x05#8)]

/-- The first prescaler whose count fits 16 bits, else the largest with the largest count. -/
def choosePsc (delayUs : U32) : List (U32 × U8) → U32 × U8
  | [] => (0xFFFF#32, 0x05#8)
  | (psc, reg) :: rest =>
    let cnt := fCpu / 1000000#32 * delayUs / psc
    if cnt ≤ 0xFFFF#32 then (cnt, reg) else choosePsc delayUs rest

def cnTimerStart (delayUs : U32) (oneshot : Bool) (onTimeout : Option F) (t : Timer1 F) :
    Option (Bool × Timer1 F) :=
  if delayUs = 0 ∨ onTimeout.isNone then some (false, t)
  else
    let (cnt, reg) := choosePsc delayUs pscs
    some (true,
      { t with
        timeoutFunc := onTimeout
        timerOneshot := oneshot
        timsk1 := t.timsk1 ||| toie1
        tcnt1 := (cnt &&& 0xFFFF#32).setWidth 16
        tccr1b := reg
        sregI := true })

def cnTimerStop (t : Timer1 F) : Timer1 F :=
  { t with
    tccr1a := 0x00#8
    tccr1b := 0x00#8
    timsk1 := t.timsk1 &&& ~~~toie1
    tcnt1 := 0x0000#16
    timeoutFunc := none }

/-- `ISR(TIMER1_OVF_vect)` -/
def timer1OvfVect (t : Timer1 F) : Timer1 F × Option F :=
  (if t.timerOneshot then cnTimerStop t else t, t.timeoutFunc)

def irq (t : Timer1 F) : Option (Timer1 F × Option F) :=
  if t.sregI ∧ t.timsk1 &&& toie1 ≠ 0 ∧ t.tov1 then some (timer1OvfVect { t with tov1 := false })
  else none

def driver (F : Type) : TimerDriver F where
  Timer := Timer1 F
  reset := reset
  cnTimerStart := cnTimerStart
  cnTimerStop := cnTimerStop
  expire := expire
  irq := irq

/-- The overflow interrupt is masked. -/
def Quiet (t : Timer1 F) : Prop := t.timsk1 &&& toie1 = 0

structure Armed (onTimeout : F) (t : Timer1 F) : Prop where
  func : t.timeoutFunc = some onTimeout
  oneshot : t.timerOneshot = true

theorem stop_quiet (t : Timer1 F) : Quiet (cnTimerStop t) := Masks.and_not_mask t.timsk1 toie1

theorem start_armed (onTimeout : F) :
    ∃ t, cnTimerStart 3000000#32 true (some onTimeout) reset = some (true, t) ∧
      Armed onTimeout t := by
  have hpsc : choosePsc 3000000#32 pscs = (46875#32, 0x05#8) := by decide
  refine ⟨⟨0, 0x05#8, toie1, 46875#16, false, true, some onTimeout, true⟩, ?_, rfl, rfl⟩
  simp [cnTimerStart, hpsc, reset]

theorem expire_eq {t t' : Timer1 F} (he : expire t = some t') :
    t' = { t with tov1 := true, tcnt1 := 0 } := by
  unfold expire at he
  split at he
  · exact (Option.some.inj he).symm
  · cases he

theorem quiet_irq {t : Timer1 F} (h : Quiet t) : irq t = none := by
  unfold irq
  rw [if_neg]
  rintro ⟨_, hm, _⟩
  exact hm h

/-- The one-shot handler stops the timer after it called the function. -/
theorem armed_irq {onTimeout : F} {t t' : Timer1 F} {f : Option F} (h : Armed onTimeout t)
    (he : irq t = some (t', f)) : Quiet t' ∧ f = some onTimeout := by
  unfold irq timer1OvfVect at he
  split at he
  · simp only [h.oneshot, ↓reduceIte, Option.some.injEq, Prod.mk.injEq] at he
    obtain ⟨rfl, rfl⟩ := he
    exact ⟨stop_quiet _, h.func⟩
  · cases he

def oneShot (onTimeout : F) : OneShot (driver F) 3000000#32 onTimeout where
  Quiet := Quiet
  Armed := Armed onTimeout
  reset_quiet := by simp [Quiet, driver, reset]
  reset_expire := by simp [driver, reset, expire]
  start_armed := start_armed onTimeout
  stop_quiet := stop_quiet
  quiet_expire := by
    intro t t' h he
    rw [expire_eq he]
    exact h
  quiet_irq := quiet_irq
  armed_expire := by
    intro t t' h he
    rw [expire_eq he]
    exact ⟨h.func, h.oneshot⟩
  armed_irq := armed_irq

end CANnuccia.AvrTimer

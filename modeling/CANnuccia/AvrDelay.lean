import CANnuccia.AvrTimer
import Mathlib.Logic.Function.Iterate

/-!
# The delay of the AVR timer

Timer1 counts up, and `cnTimerStart` writes the count that it should make to TCNT1. The
timer counts what is left up to the overflow instead.
-/
namespace CANnuccia.AvrTimer

open Util

variable {F : Type}

/-- CPU cycles for a tick of the counter, by the clock select bits of TCCR1B. -/
def prescaler (tccr1b : U8) : Option Nat :=
  match (tccr1b &&& clockSelect).toNat with
  | 1 => some 1
  | 2 => some 8
  | 3 => some 64
  | 4 => some 256
  | 5 => some 1024
  | _ => none

/-- A tick of the counter; the one after 0xFFFF overflows. -/
def Timer1.tick (t : Timer1 F) : Timer1 F :=
  { t with tcnt1 := t.tcnt1 + 1, tov1 := t.tov1 || t.tcnt1 == 0xFFFF#16 }

/-- The counter does not overflow before the tick `n` from here, and then it does. -/
def Overflows (t : Timer1 F) (n : Nat) : Prop :=
  0 < n ∧ (Timer1.tick^[n - 1] t).tcnt1 = 0xFFFF#16 ∧
    ∀ k < n - 1, (Timer1.tick^[k] t).tcnt1 ≠ 0xFFFF#16

/-- A tick that overflows is the expiry of the timer. -/
theorem tick_expire {t t' : Timer1 F} (hfull : t.tcnt1 = 0xFFFF#16) (he : expire t = some t') :
    t.tick = t' := by
  have hzero : (0xFFFF#16 : U16) + 1 = 0 := by decide
  rw [expire_eq he, Timer1.tick, hfull, hzero, beq_self_eq_true, Bool.or_true]

@[simp] theorem ticks_tcnt1 (n : Nat) : ∀ t : Timer1 F,
    (Timer1.tick^[n] t).tcnt1 = t.tcnt1 + BitVec.ofNat 16 n := by
  induction n with
  | zero =>
    intro t
    simp
  | succ n ih =>
    intro t
    rw [Function.iterate_succ_apply, ih, Timer1.tick]
    bv_omega

/-- Ticks leave the configuration alone. -/
theorem ticks_frame (n : Nat) (t : Timer1 F) : Timer1.tick^[n] t =
    { t with tcnt1 := (Timer1.tick^[n] t).tcnt1, tov1 := (Timer1.tick^[n] t).tov1 } := by
  induction n with
  | zero => rfl
  | succ n ih => rw [Function.iterate_succ_apply', Timer1.tick, ih]

theorem overflows_iff (t : Timer1 F) (n : Nat) :
    Overflows t n ↔ n = 0x10000 - t.tcnt1.toNat := by
  have hlt := t.tcnt1.isLt
  have hfull : ∀ k, (Timer1.tick^[k] t).tcnt1 = 0xFFFF#16 ↔
      (t.tcnt1.toNat + k) % 0x10000 = 0xFFFF := by
    intro k
    have hmax : (0xFFFF#16).toNat = 0xFFFF := rfl
    rw [ticks_tcnt1, ← BitVec.toNat_inj, BitVec.toNat_add, BitVec.toNat_ofNat, hmax]
    omega
  constructor
  · rintro ⟨hpos, hn, hbefore⟩
    rw [hfull] at hn
    by_contra hne
    refine hbefore (0xFFFF - t.tcnt1.toNat) (by omega) ?_
    rw [hfull]
    omega
  · rintro rfl
    refine ⟨by omega, ?_, ?_⟩
    · rw [hfull]
      omega
    · intro k hk h
      rw [hfull] at h
      omega

/-- After an overflow the counter starts again from zero. -/
theorem overflow_again (t : Timer1 F) (n : Nat) :
    (∀ k, Overflows (Timer1.tick^[k * n] t) n) ↔ n = 0x10000 ∧ t.tcnt1 = 0 := by
  have hlt := t.tcnt1.isLt
  have hzero : (0 : U16).toNat = 0 := rfl
  constructor
  · intro h
    have hfirst := (overflows_iff _ _).mp (h 0)
    have hsecond := (overflows_iff _ _).mp (h 1)
    rw [ticks_tcnt1, BitVec.toNat_add, BitVec.toNat_ofNat] at hfirst hsecond
    rw [← BitVec.toNat_inj, hzero]
    omega
  · rintro ⟨rfl, hstart⟩ k
    rw [overflows_iff, ticks_tcnt1, hstart, BitVec.toNat_add, BitVec.toNat_ofNat, hzero]
    omega

/-- The values chosen for a delay whose cycles are `cycles` in 32 bits: a prescaler and a
count for it. -/
inductive Chosen (cycles : Nat) : Nat → Nat → Prop where
  | one : cycles ≤ 0xFFFF → Chosen cycles 1 cycles
  | eight : 0xFFFF < cycles → cycles / 8 ≤ 0xFFFF → Chosen cycles 8 (cycles / 8)
  | sixtyFour : 0xFFFF < cycles / 8 → cycles / 64 ≤ 0xFFFF → Chosen cycles 64 (cycles / 64)
  | twoFiftySix : 0xFFFF < cycles / 64 → cycles / 256 ≤ 0xFFFF → Chosen cycles 256 (cycles / 256)
  | largest : 0xFFFF < cycles / 256 → cycles / 1024 ≤ 0xFFFF → Chosen cycles 1024 (cycles / 1024)
  | tooBig : 0xFFFF < cycles / 1024 → Chosen cycles 1024 0xFFFF

theorem choosePsc_chosen (delayUs : U32) : ∃ psc, prescaler (choosePsc delayUs pscs).2 = some psc ∧
    Chosen (16 * delayUs.toNat % 2 ^ 32) psc (choosePsc delayUs pscs).1.toNat := by
  have hcycles : (fCpu / 1000000#32 * delayUs).toNat = 16 * delayUs.toNat % 2 ^ 32 := by
    have hmhz : fCpu / 1000000#32 = 16#32 := by decide
    rw [hmhz, BitVec.toNat_mul]
    rfl
  have hcount : ∀ psc : U32, fCpu / 1000000#32 * delayUs / psc ≤ 0xFFFF#32 ↔
      16 * delayUs.toNat % 2 ^ 32 / psc.toNat ≤ 0xFFFF := by
    intro psc
    rw [BitVec.le_def, BitVec.toNat_udiv, hcycles]
    rfl
  have hvalue : ∀ psc : U32, (fCpu / 1000000#32 * delayUs / psc).toNat =
      16 * delayUs.toNat % 2 ^ 32 / psc.toNat := by
    intro psc
    rw [BitVec.toNat_udiv, hcycles]
  have h₁ : (1 : U32).toNat = 1 := rfl
  have h₈ : (8 : U32).toNat = 8 := rfl
  have h₆₄ : (64 : U32).toNat = 64 := rfl
  have h₂₅₆ : (256 : U32).toNat = 256 := rfl
  have h₁₀₂₄ : (1024 : U32).toNat = 1024 := rfl
  simp only [choosePsc, pscs, hcount, h₁, h₈, h₆₄, h₂₅₆, h₁₀₂₄, Nat.div_one]
  split_ifs with c₁ c₈ c₆₄ c₂₅₆ c₁₀₂₄
  · refine ⟨1, (rfl : prescaler 0x01#8 = some 1), ?_⟩
    rw [hvalue, h₁, Nat.div_one]
    exact .one c₁
  · refine ⟨8, (rfl : prescaler 0x02#8 = some 8), ?_⟩
    rw [hvalue]
    exact .eight (by omega) c₈
  · refine ⟨64, (rfl : prescaler 0x03#8 = some 64), ?_⟩
    rw [hvalue]
    exact .sixtyFour (by omega) c₆₄
  · refine ⟨256, (rfl : prescaler 0x04#8 = some 256), ?_⟩
    rw [hvalue]
    exact .twoFiftySix (by omega) c₂₅₆
  · refine ⟨1024, (rfl : prescaler 0x05#8 = some 1024), ?_⟩
    rw [hvalue]
    exact .largest (by omega) c₁₀₂₄
  · exact ⟨1024, rfl, .tooBig (by omega)⟩

theorem chosen_le {cycles psc cnt : Nat} (h : Chosen cycles psc cnt) : cnt ≤ 0xFFFF := by
  cases h <;> omega

/-- A start leads to an interrupt after `16 * delayUs` cycles, as far as a tick of the
prescaler allows, or as late as the timer can, and then again after as many. -/
def Honours (delayUs : U32) (oneshot : Bool) (onTimeout : F) (t : Timer1 F) : Prop :=
  ∃ t' psc n, cnTimerStart delayUs oneshot (some onTimeout) t = some (true, t') ∧
    prescaler t'.tccr1b = some psc ∧ Overflows t' n ∧ (irq (Timer1.tick^[n] t')).isSome ∧
    (if 16 * delayUs.toNat ≤ 0xFFFF * 1024 then
      (psc * n : Int) - 16 * delayUs.toNat < psc ∧ (16 * delayUs.toNat : Int) - psc * n < psc
    else 0x10000 * 1024 ≤ psc * n + 1024) ∧
    (oneshot = false → ∀ k, Overflows (Timer1.tick^[k * n] t') n)

/-- The delays for which the counter is started half way. -/
def Centred (delayUs : Nat) : Prop :=
  delayUs = 2048 ∨ delayUs = 16384 ∨ (131072 ≤ delayUs ∧ delayUs ≤ 131075) ∨
    (524288 ≤ delayUs ∧ delayUs ≤ 524303) ∨ (2097152 ≤ delayUs ∧ delayUs ≤ 2097215)

instance (delayUs : Nat) : Decidable (Centred delayUs) := inferInstanceAs (Decidable (_ ∨ _))

/-- The count is as far from zero as from the overflow. -/
theorem chosen_half {d psc cnt : Nat} (h : Chosen (16 * d % 2 ^ 32) psc cnt) :
    (if 16 * d ≤ 0xFFFF * 1024 then
      ((psc * (0x10000 - cnt) : Nat) : Int) - 16 * d < psc ∧
        (16 * d : Int) - (psc * (0x10000 - cnt) : Nat) < psc
    else 0x10000 * 1024 ≤ psc * (0x10000 - cnt) + 1024) ↔
      16 * d ≤ 0xFFFF * 1024 ∧ cnt = 0x8000 := by
  split_ifs with hd
  · cases h <;> omega
  · cases h <;> omega

theorem half_centred {d psc cnt : Nat} (h : Chosen (16 * d % 2 ^ 32) psc cnt) :
    16 * d ≤ 0xFFFF * 1024 ∧ cnt = 0x8000 ↔ Centred d := by
  unfold Centred
  cases h <;> omega

variable {delayUs : U32} {onTimeout : F} {t : Timer1 F}

theorem start_eq (oneshot : Bool) (hd : delayUs ≠ 0) :
    cnTimerStart delayUs oneshot (some onTimeout) t = some (true,
      { t with
        timeoutFunc := some onTimeout
        timerOneshot := oneshot
        timsk1 := t.timsk1 ||| toie1
        tcnt1 := ((choosePsc delayUs pscs).1 &&& 0xFFFF#32).setWidth 16
        tccr1b := (choosePsc delayUs pscs).2
        sregI := true }) := by
  have hargs : ¬ (delayUs = 0 ∨ (some onTimeout).isNone = true) := by
    rintro (h | h)
    · exact hd h
    · cases h
  rw [cnTimerStart, if_neg hargs]

/-- The interrupt comes with the overflow. -/
theorem overflow_irq {n : Nat} (h : Overflows t n) (hmask : t.timsk1 &&& toie1 ≠ 0)
    (hi : t.sregI = true) : (irq (Timer1.tick^[n] t)).isSome := by
  obtain ⟨n, rfl⟩ : ∃ k, n = k + 1 := ⟨n - 1, by have := h.1; omega⟩
  have hfull : (Timer1.tick^[n] t).tcnt1 = 0xFFFF#16 := h.2.1
  have htov : (Timer1.tick^[n + 1] t).tov1 = true := by
    rw [Function.iterate_succ_apply', Timer1.tick, hfull, beq_self_eq_true, Bool.or_true]
  have hframe := ticks_frame (n + 1) t
  have hmask' : (Timer1.tick^[n + 1] t).timsk1 = t.timsk1 := by rw [hframe]
  have hi' : (Timer1.tick^[n + 1] t).sregI = t.sregI := by rw [hframe]
  rw [irq, if_pos ⟨hi'.trans hi, by rwa [hmask'], htov⟩]
  rfl

/-- A delay is honoured exactly if the timer is to stop after it and its count happens to be
half of what the counter has. -/
theorem delay_honoured (delayUs : U32) (oneshot : Bool) (onTimeout : F) (t : Timer1 F)
    (hd : delayUs ≠ 0) :
    Honours delayUs oneshot onTimeout t ↔ oneshot = true ∧ Centred delayUs.toNat := by
  obtain ⟨psc, hpsc, hchosen⟩ := choosePsc_chosen delayUs
  have hle := chosen_le hchosen
  have hcount : (((choosePsc delayUs pscs).1 &&& 0xFFFF#32).setWidth 16).toNat =
      (choosePsc delayUs pscs).1.toNat := by
    have hmask : (0xFFFF#32).toNat = 2 ^ 16 - 1 := rfl
    rw [BitVec.toNat_setWidth, BitVec.toNat_and, hmask, Nat.and_two_pow_sub_one_eq_mod]
    omega
  rw [← half_centred hchosen, ← chosen_half hchosen]
  constructor
  · rintro ⟨t', psc', n, hstart, hpsc', hn, _, hdelay, hagain⟩
    rw [start_eq oneshot hd] at hstart
    cases hstart
    rw [overflows_iff, hcount] at hn
    cases hpsc.symm.trans hpsc'
    subst hn
    have hcycles := (chosen_half hchosen).mp (by exact_mod_cast hdelay)
    refine ⟨?_, (chosen_half hchosen).mpr hcycles⟩
    by_contra hrepeat
    have hstart := ((overflow_again _ _).mp (hagain (Bool.eq_false_iff.mpr hrepeat))).1
    rw [hcycles.2] at hstart
    omega
  · rintro ⟨rfl, hdelay⟩
    refine ⟨_, psc, _, start_eq true hd, hpsc, (overflows_iff _ _).mpr rfl, ?_, ?_, ?_⟩
    · refine overflow_irq ((overflows_iff _ _).mpr rfl) ?_ rfl
      intro hmask
      have hbit := congrArg (fun v => v.getLsbD 0) hmask
      simp [toie1] at hbit
    · rw [hcount]
      exact_mod_cast hdelay
    · intro h
      cases h

/-- With 2048 us the counter is half way. -/
theorem delay_honoured_half : Honours 2048#32 true () reset :=
  (delay_honoured 2048#32 true () reset (by decide)).mpr ⟨rfl, by decide⟩

/-- The three seconds of the bootloader are over after less than half of them. -/
theorem delay_short : ¬ Honours 3000000#32 true () reset := by
  rintro ⟨t', psc, n, hstart, hpsc, hn, _, hdelay, _⟩
  have hchoice : choosePsc 3000000#32 pscs = (46875#32, 0x05#8) := by decide
  rw [start_eq true (by decide), hchoice] at hstart
  cases hstart
  cases hpsc
  rw [overflows_iff] at hn
  have hticks : n = 18661 := hn
  rw [hticks, if_pos (by decide)] at hdelay
  exact absurd hdelay.2 (by decide)

end CANnuccia.AvrTimer

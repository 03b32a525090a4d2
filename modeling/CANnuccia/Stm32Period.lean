import CANnuccia.Stm32Timer

/-!
# The period of the STM32 timer

The prescaler search computes in `int`. Both sides of its comparison pass `INT_MAX` well
inside the range of `delayUs`.
-/
namespace CANnuccia.Stm32Timer

open Util Masks

variable {F : Type}

/-- The registers after a start whose search found a prescaler. -/
def started (oneshot : Bool) (onTimeout : F) (psc arr : Int) (t : Tim F) : Tim F :=
  { apb1enr := t.apb1enr ||| rccApb1enrTim2enr
    cr1 := (t.cr1 &&& ~~~timCr1Cen) ||| timCr1Dir ||| timCr1Urs |||
      (if oneshot then timCr1Opm else 0) ||| timCr1Cen
    dier := t.dier ||| timDierUie
    sr := t.sr
    psc := BitVec.ofInt 32 psc &&& 0xFFFF#32
    arr := BitVec.ofInt 32 arr &&& 0xFFFF#32
    nvicEnabled := t.nvicEnabled ||| (t.nvicEnabled ||| tim2Irq)
    nvicPending := t.nvicPending &&& ~~~(t.nvicPending ||| tim2Irq)
    timeoutFunc := some onTimeout }

variable {delayUs : U32} {oneshot : Bool} {onTimeout : F} {t : Tim F}

theorem updateGeneration_silent {t : Tim F} (h : t.cr1 &&& timCr1Urs ≠ 0) :
    t.updateGeneration = t := if_pos h

theorem urs_set (v : U32) : (v ||| timCr1Urs) &&& timCr1Urs ≠ 0 := by
  rw [or_mask]
  decide

/-- URS is set before the update is generated, which therefore does not set UIF. -/
theorem start_started (hd : delayUs ≠ 0) : cnTimerStart delayUs oneshot (some onTimeout) t =
    (searchPsc delayUs.toInt 0x10000 0 0xFFFF).map fun r =>
      (true, started oneshot onTimeout r.1 r.2 t) := by
  have hargs : ¬ (delayUs = 0 ∨ (some onTimeout).isNone = true) := by
    rintro (h | h)
    · exact hd h
    · cases h
  rw [cnTimerStart, if_neg hargs]
  cases searchPsc delayUs.toInt 0x10000 0 0xFFFF with
  | none => rfl
  | some r =>
    simp only [Option.bind_eq_bind, Option.bind_some, Option.map_some]
    rw [updateGeneration_silent (urs_set _)]
    rfl

/-- A prescaler that the search takes. -/
def Takes (ticks k : Int) : Prop := ticks ≤ 0x10000 * k ∧ 0 < ticks.tdiv k - 1 ∧ ticks.tdiv k - 1 ≤ 0xFFFF

instance (ticks k : Int) : Decidable (Takes ticks k) := inferInstanceAs (Decidable (_ ∧ _))

theorem int32_some {n : Int} (h : -2 ^ 31 ≤ n ∧ n < 2 ^ 31) : int32 n = some n := if_pos h

theorem int32_none {n : Int} (h : ¬ (-2 ^ 31 ≤ n ∧ n < 2 ^ 31)) : int32 n = none := if_neg h

variable {delayUsI psc : Int}

theorem search_takes (arr : Int) (n : Nat) (hticks : int32 (72 * delayUsI) = some (72 * delayUsI))
    (hlimit : int32 (0x10000 * (psc + 1)) = some (0x10000 * (psc + 1)))
    (htakes : Takes (72 * delayUsI) (psc + 1)) :
    searchPsc delayUsI (n + 1) psc arr = some (psc, (72 * delayUsI).tdiv (psc + 1) - 1) := by
  rw [searchPsc, clockFreqMhz, hticks, hlimit, Option.bind_eq_bind, Option.bind_some,
    Option.bind_some, if_pos htakes.1]
  exact if_pos htakes.2

theorem search_next (arr : Int) (n : Nat) (hticks : int32 (72 * delayUsI) = some (72 * delayUsI))
    (hlimit : int32 (0x10000 * (psc + 1)) = some (0x10000 * (psc + 1)))
    (htakes : ¬ Takes (72 * delayUsI) (psc + 1)) :
    ∃ arr', searchPsc delayUsI (n + 1) psc arr = searchPsc delayUsI n (psc + 1) arr' := by
  rw [searchPsc, clockFreqMhz, hticks, hlimit, Option.bind_eq_bind, Option.bind_some,
    Option.bind_some]
  by_cases hle : 72 * delayUsI ≤ 0x10000 * (psc + 1)
  · rw [if_pos hle]
    exact ⟨_, if_neg fun h => htakes ⟨hle, h⟩⟩
  · rw [if_neg hle]
    exact ⟨_, rfl⟩

/-- The search goes on to the first prescaler that it takes. -/
theorem search_first (k : Int) (hk : k ≤ 32767) (hticks : 72 * delayUsI < 2 ^ 31)
    (hpos : 0 ≤ delayUsI) (htakes : Takes (72 * delayUsI) k)
    (hbefore : ∀ j, 0 < j → j < k → ¬ Takes (72 * delayUsI) j) (n : Nat) :
    ∀ psc arr, 0 ≤ psc → psc < k → k ≤ psc + n →
      searchPsc delayUsI n psc arr = some (k - 1, (72 * delayUsI).tdiv k - 1) := by
  have hticks' : int32 (72 * delayUsI) = some (72 * delayUsI) := int32_some (by omega)
  induction n with
  | zero =>
    intro psc arr _ hlt hn
    omega
  | succ n ih =>
    intro psc arr hpsc hlt hn
    have hlimit : int32 (0x10000 * (psc + 1)) = some (0x10000 * (psc + 1)) := int32_some (by omega)
    by_cases hlast : psc + 1 = k
    · subst hlast
      rw [search_takes arr n hticks' hlimit htakes, Int.add_sub_cancel]
    · obtain ⟨arr', hnext⟩ := search_next arr n hticks' hlimit
        (hbefore (psc + 1) (by omega) (by omega))
      rw [hnext]
      exact ih (psc + 1) arr' (by omega) (by omega) (by omega)

/-- If it takes none of the first, it comes to a limit that overflows. -/
theorem search_stuck (hticks : -2 ^ 31 ≤ 72 * delayUsI ∧ 72 * delayUsI < 2 ^ 31)
    (hnone : ∀ j, 0 < j → j ≤ 32767 → ¬ Takes (72 * delayUsI) j) (n : Nat) :
    ∀ psc arr, 0 ≤ psc → psc ≤ 32767 → 32768 ≤ psc + n → searchPsc delayUsI n psc arr = none := by
  have hticks' : int32 (72 * delayUsI) = some (72 * delayUsI) := int32_some hticks
  induction n with
  | zero =>
    intro psc arr _ hle hn
    omega
  | succ n ih =>
    intro psc arr hpsc hle hn
    by_cases hlast : psc = 32767
    · subst hlast
      rw [searchPsc, clockFreqMhz, hticks', int32_none (by omega)]
      rfl
    · have hlimit : int32 (0x10000 * (psc + 1)) = some (0x10000 * (psc + 1)) :=
        int32_some (by omega)
      obtain ⟨arr', hnext⟩ := search_next arr n hticks' hlimit
        (hnone (psc + 1) (by omega) (by omega))
      rw [hnext]
      exact ih (psc + 1) arr' (by omega) (by omega) (by omega)

/-- A start computes without overflow and programs the longest period that is not above the
delay with the least prescaler, or the longest of all. -/
def Period (delayUs : U32) (oneshot : Bool) (onTimeout : F) (t : Tim F) : Prop :=
  ∃ t', cnTimerStart delayUs oneshot (some onTimeout) t = some (true, t') ∧
    if 72 * delayUs.toNat ≤ 2 ^ 32 then
      72 * delayUs.toNat ≤ 65536 * (t'.psc.toNat + 1) ∧ t'.psc.toNat + 1 ≤ 65536 ∧
      (∀ k, 0 < k → 72 * delayUs.toNat ≤ 65536 * k → t'.psc.toNat + 1 ≤ k) ∧
      t'.arr.toNat + 1 = 72 * delayUs.toNat / (t'.psc.toNat + 1) ∧
      (t'.psc.toNat + 1) * (t'.arr.toNat + 1) ≤ 72 * delayUs.toNat ∧
      72 * delayUs.toNat < (t'.psc.toNat + 1) * (t'.arr.toNat + 2)
    else t'.psc = 65535#32 ∧ t'.arr = 65535#32

/-- A delay up to here has a prescaler below the one at which the limit overflows. -/
def maxDelayUs : Nat := 29825251

theorem toInt_small (hd : delayUs.toNat ≤ maxDelayUs) : delayUs.toInt = delayUs.toNat := by
  refine BitVec.toInt_eq_toNat_of_lt ?_
  unfold maxDelayUs at hd
  omega

/-- The prescaler found for a small delay. -/
theorem search_small (hd : delayUs ≠ 0) (hmax : delayUs.toNat ≤ maxDelayUs) :
    ∃ k : Nat, 0 < k ∧ k ≤ 32767 ∧ 72 * delayUs.toNat ≤ 65536 * k ∧
      65536 * (k - 1) < 72 * delayUs.toNat ∧
      searchPsc delayUs.toInt 0x10000 0 0xFFFF =
        some ((k : Int) - 1, ((72 * delayUs.toNat / k : Nat) : Int) - 1) := by
  have hpos : 0 < delayUs.toNat := by
    have hne : delayUs.toNat ≠ 0 := fun h => hd (BitVec.eq_of_toNat_eq h)
    omega
  unfold maxDelayUs at hmax
  obtain ⟨k, hk⟩ : ∃ k, k = (72 * delayUs.toNat + 65535) / 65536 := ⟨_, rfl⟩
  have hquot : ((72 * (delayUs.toNat : Int)).tdiv k) = ((72 * delayUs.toNat / k : Nat) : Int) := by
    rw [Int.tdiv_eq_ediv_of_nonneg (by omega)]
    push_cast
    rfl
  have hlow : 2 ≤ 72 * delayUs.toNat / k := by
    rw [Nat.le_div_iff_mul_le (by omega)]
    omega
  have hhigh : 72 * delayUs.toNat / k ≤ 65536 := by
    have hle : 72 * delayUs.toNat / k < 65537 := by
      rw [Nat.div_lt_iff_lt_mul (by omega)]
      omega
    omega
  refine ⟨k, by omega, by omega, by omega, by omega, ?_⟩
  rw [toInt_small hmax, ← hquot]
  refine search_first k (by omega) (by omega) (by omega) ?_ ?_ 0x10000 0 0xFFFF (by omega)
    (by omega) (by omega)
  · rw [Takes, hquot]
    omega
  · rintro j hj hjk ⟨hle, _⟩
    omega

/-- Any other delay overflows on one side of the comparison or on the other. -/
theorem search_large (hmax : maxDelayUs < delayUs.toNat) :
    searchPsc delayUs.toInt 0x10000 0 0xFFFF = none := by
  unfold maxDelayUs at hmax
  by_cases hticks : -2 ^ 31 ≤ 72 * delayUs.toInt ∧ 72 * delayUs.toInt < 2 ^ 31
  · refine search_stuck hticks ?_ 0x10000 0 0xFFFF (by omega) (by omega) (by omega)
    rintro j hj hjk ⟨hle, hpos, _⟩
    have hcases : delayUs.toInt = delayUs.toNat ∨ delayUs.toInt < 0 := by
      have hint := BitVec.toInt_eq_toNat_cond delayUs
      split_ifs at hint <;> omega
    rcases hcases with hint | hneg
    · omega
    · have hquot : 0 ≤ (-(72 * delayUs.toInt)).tdiv j := Int.tdiv_nonneg (by omega) (by omega)
      rw [Int.neg_tdiv] at hquot
      omega
  · rw [searchPsc, clockFreqMhz, int32_none hticks]
    rfl

theorem masked_toNat {k : Nat} (hk : k ≤ 65535) :
    (BitVec.ofInt 32 k &&& 0xFFFF#32).toNat = k := by
  have hmask : (0xFFFF#32).toNat = 2 ^ 16 - 1 := rfl
  rw [BitVec.toNat_and, hmask, Nat.and_two_pow_sub_one_eq_mod, BitVec.ofInt_natCast,
    BitVec.toNat_ofNat]
  omega

theorem period_small (hd : delayUs ≠ 0) (hmax : delayUs.toNat ≤ maxDelayUs) :
    Period delayUs oneshot onTimeout t := by
  obtain ⟨k, hpos, hk, hle, hleast, hsearch⟩ := search_small hd hmax
  have hquot : 72 * delayUs.toNat / k ≤ 65536 ∧ 1 ≤ 72 * delayUs.toNat / k := by
    rw [Nat.le_div_iff_mul_le hpos, ← Nat.lt_succ_iff, Nat.div_lt_iff_lt_mul hpos]
    omega
  have hpsc : (BitVec.ofInt 32 ((k : Int) - 1) &&& 0xFFFF#32).toNat + 1 = k := by
    have hcast : ((k : Int) - 1) = ((k - 1 : Nat) : Int) := by omega
    rw [hcast, masked_toNat (by omega)]
    omega
  have harr : (BitVec.ofInt 32 (((72 * delayUs.toNat / k : Nat) : Int) - 1) &&&
      0xFFFF#32).toNat + 1 = 72 * delayUs.toNat / k := by
    have hcast : (((72 * delayUs.toNat / k : Nat) : Int) - 1) =
        ((72 * delayUs.toNat / k - 1 : Nat) : Int) := by omega
    rw [hcast, masked_toNat (by omega)]
    omega
  refine ⟨started oneshot onTimeout _ _ t, by rw [start_started hd, hsearch]; rfl, ?_⟩
  have hcycles : 72 * delayUs.toNat ≤ 2 ^ 32 := by omega
  rw [if_pos hcycles]
  simp only [started]
  rw [hpsc, harr]
  refine ⟨hle, by omega, ?_, rfl, Nat.mul_div_le _ _, ?_⟩
  · intro j hj hjle
    by_contra hlt
    omega
  · have hnext := Nat.lt_mul_div_succ (72 * delayUs.toNat) hpos
    have hsum : (BitVec.ofInt 32 (((72 * delayUs.toNat / k : Nat) : Int) - 1) &&&
        0xFFFF#32).toNat + 2 = 72 * delayUs.toNat / k + 1 := by omega
    rw [hsum]
    exact hnext

/-- The period is right exactly for the delays up to `maxDelayUs`; any other start overflows
an `int`. -/
theorem period_right (delayUs : U32) (oneshot : Bool) (onTimeout : F) (t : Tim F)
    (hd : delayUs ≠ 0) :
    Period delayUs oneshot onTimeout t ↔ delayUs.toNat ≤ maxDelayUs := by
  constructor
  · rintro ⟨t', hstart, _⟩
    by_contra hmax
    rw [start_started hd, search_large (by omega)] at hstart
    cases hstart
  · exact period_small hd

/-- The bootloader's three seconds. -/
theorem period_right_bootloader : Period 3000000#32 true () reset :=
  (period_right 3000000#32 true () reset (by decide)).mpr (by decide)

/-- Thirty seconds. -/
theorem period_overflow : ¬ Period 30000000#32 true () reset := by
  rintro ⟨t', hstart, _⟩
  rw [start_started (by decide), search_large (by decide)] at hstart
  cases hstart

end CANnuccia.Stm32Timer

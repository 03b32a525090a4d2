import CANnuccia.Stm32Period

/-!
# Calls of the STM32 timer driver

The driver or-s bits into registers that keep their value from call to call: what a call
leaves set, the next one finds. The same is done to registers of the interrupt controller
where every bit that is written as one counts.
-/
namespace CANnuccia.Stm32Timer

open Util Masks

variable {F : Type}

/-- The other interrupts in a word of the controller. -/
def others (v : U32) : U32 := v &&& ~~~tim2Irq

theorem others_set (v : U32) : others (v ||| tim2Irq) = others v := by
  rw [others, others, or_disjoint _ _ _ (by decide)]

theorem others_or (v : U32) : others (v ||| (v ||| tim2Irq)) = others v := by
  rw [or_or_self, others_set]

theorem others_clear (v : U32) : others (v &&& ~~~tim2Irq) = others v := by
  rw [others, others, BitVec.and_assoc, BitVec.and_self]

/-- Calls, and what the hardware does between them. -/
inductive Action (F : Type) where
  | start (delayUs : U32) (oneshot : Bool) (onTimeout : Option F)
  | stop
  | expire
  | irq

def Action.perform (t : Tim F) : Action F → Option (Tim F)
  | .start delayUs oneshot onTimeout => (cnTimerStart delayUs oneshot onTimeout t).map Prod.snd
  | .stop => some (cnTimerStop t)
  | .expire => Stm32Timer.expire t
  | .irq => (Stm32Timer.irq t).map Prod.fst

def performAll (t : Tim F) (as : List (Action F)) : Option (Tim F) :=
  as.foldlM Action.perform t

/-- A start that is not refused. -/
def Action.starts : Action F → Bool
  | .start delayUs _ (some _) => decide (delayUs ≠ 0)
  | _ => false

def Action.startsOneShot : Action F → Bool
  | .start delayUs oneshot (some _) => decide (delayUs ≠ 0) && oneshot
  | _ => false

def Action.stops : Action F → Bool
  | .stop => true
  | _ => false

/-- A start is refused and does nothing, or configures the timer. -/
theorem start_cases {delayUs : U32} {oneshot : Bool} {onTimeout : Option F} {t t' : Tim F}
    {ok : Bool} (h : cnTimerStart delayUs oneshot onTimeout t = some (ok, t')) :
    ((delayUs = 0 ∨ onTimeout = none) ∧ ok = false ∧ t' = t) ∨
    (delayUs ≠ 0 ∧ ∃ f psc arr, onTimeout = some f ∧ ok = true ∧
      searchPsc delayUs.toInt 0x10000 0 0xFFFF = some (psc, arr) ∧
      t' = started oneshot f psc arr t) := by
  by_cases hd : delayUs = 0
  · rw [cnTimerStart, if_pos (.inl hd)] at h
    cases h
    exact .inl ⟨.inl hd, rfl, rfl⟩
  · cases onTimeout with
    | none =>
      rw [cnTimerStart, if_pos (.inr rfl)] at h
      cases h
      exact .inl ⟨.inr rfl, rfl, rfl⟩
    | some f =>
      rw [start_started hd, Option.map_eq_some_iff] at h
      obtain ⟨⟨psc, arr⟩, hsearch, hstarted⟩ := h
      cases hstarted
      exact .inr ⟨hd, f, psc, arr, rfl, rfl, hsearch, rfl⟩

/-- What an action can do to the registers. -/
inductive Performed (t : Tim F) : Action F → Tim F → Prop where
  | refused {delayUs : U32} {oneshot : Bool} {onTimeout : Option F} :
      delayUs = 0 ∨ onTimeout = none → Performed t (.start delayUs oneshot onTimeout) t
  | started {delayUs : U32} (oneshot : Bool) (f : F) (psc arr : Int) : delayUs ≠ 0 →
      Performed t (.start delayUs oneshot (some f)) (started oneshot f psc arr t)
  | stop : Performed t .stop (cnTimerStop t)
  | expire {t' : Tim F} : expire t = some t' → Performed t .expire t'
  | irq {t' : Tim F} {f : Option F} : irq t = some (t', f) → Performed t .irq t'

theorem perform_performed {t t' : Tim F} {a : Action F} (h : a.perform t = some t') :
    Performed t a t' := by
  cases a with
  | start delayUs oneshot onTimeout =>
    rw [Action.perform, Option.map_eq_some_iff] at h
    obtain ⟨⟨ok, t₁⟩, hstart, rfl⟩ := h
    rcases start_cases hstart with ⟨hargs, _, rfl⟩ | ⟨hd, f, psc, arr, rfl, _, _, rfl⟩
    · exact .refused hargs
    · exact .started oneshot f psc arr hd
  | stop =>
    cases h
    exact .stop
  | expire => exact .expire h
  | irq =>
    rw [Action.perform, Option.map_eq_some_iff] at h
    obtain ⟨⟨t₁, f⟩, hirq, rfl⟩ := h
    exact .irq hirq

theorem refused_starts {delayUs : U32} {oneshot : Bool} {onTimeout : Option F}
    (h : delayUs = 0 ∨ onTimeout = none) :
    (Action.start delayUs oneshot onTimeout).starts = false ∧
      (Action.start delayUs oneshot onTimeout).startsOneShot = false := by
  rcases h with rfl | rfl
  · cases onTimeout <;> exact ⟨rfl, rfl⟩
  · exact ⟨rfl, rfl⟩

theorem expire_fields {t t' : Tim F} (h : expire t = some t') :
    t'.cr1 &&& timCr1Opm = t.cr1 &&& timCr1Opm ∧ t'.nvicEnabled = t.nvicEnabled ∧
      others t'.nvicPending = others t.nvicPending := by
  unfold expire at h
  split at h
  · cases h
    refine ⟨?_, rfl, ?_⟩
    · dsimp only
      split_ifs
      · exact and_not_disjoint _ _ _ (by decide)
      · rfl
    · dsimp only
      split_ifs
      · exact others_set _
      · rfl
  · cases h

theorem irq_fields {t t' : Tim F} {f : Option F} (h : irq t = some (t', f)) :
    t'.cr1 = t.cr1 ∧ t'.nvicEnabled = t.nvicEnabled ∧
      others t'.nvicPending = others t.nvicPending := by
  unfold irq at h
  split at h
  · cases h
    exact ⟨rfl, rfl, others_clear _⟩
  · cases h

theorem performAll_cons (t : Tim F) (a : Action F) (as : List (Action F)) :
    performAll t (a :: as) = (a.perform t).bind fun t' => performAll t' as := by
  rw [performAll, List.foldlM_cons]
  rfl

/-- The bits and registers that a start configures. -/
structure Config (F : Type) where
  clock : U32
  cen : U32
  dir : U32
  urs : U32
  opm : U32
  psc : U32
  arr : U32
  uie : U32
  timeoutFunc : Option F

def Tim.config (t : Tim F) : Config F where
  clock := t.apb1enr &&& rccApb1enrTim2enr
  cen := t.cr1 &&& timCr1Cen
  dir := t.cr1 &&& timCr1Dir
  urs := t.cr1 &&& timCr1Urs
  opm := t.cr1 &&& timCr1Opm
  psc := t.psc
  arr := t.arr
  uie := t.dier &&& timDierUie
  timeoutFunc := t.timeoutFunc

def opmBit (oneshot : Bool) : U32 := if oneshot then timCr1Opm else 0

/-- Only OPM depends on what was there before. -/
theorem started_config (oneshot : Bool) (f : F) (psc arr : Int) (t : Tim F) :
    (started oneshot f psc arr t).config =
      ⟨rccApb1enrTim2enr, timCr1Cen, timCr1Dir, timCr1Urs, (t.cr1 &&& timCr1Opm) ||| opmBit oneshot,
        BitVec.ofInt 32 psc &&& 0xFFFF#32, BitVec.ofInt 32 arr &&& 0xFFFF#32, timDierUie,
        some f⟩ := by
  have hopm : ∀ m : U32, timCr1Opm &&& m = 0 → (if oneshot then timCr1Opm else 0) &&& m = 0 := by
    intro m hm
    split_ifs
    · exact hm
    · exact BitVec.zero_and
  have hdir : (started oneshot f psc arr t).cr1 &&& timCr1Dir = timCr1Dir := by
    rw [started, or_disjoint _ _ _ (by decide), or_disjoint _ _ _ (hopm _ (by decide)),
      or_disjoint _ _ _ (by decide), or_mask]
  have hurs : (started oneshot f psc arr t).cr1 &&& timCr1Urs = timCr1Urs := by
    rw [started, or_disjoint _ _ _ (by decide), or_disjoint _ _ _ (hopm _ (by decide)), or_mask]
  have hopmBit : (started oneshot f psc arr t).cr1 &&& timCr1Opm =
      (t.cr1 &&& timCr1Opm) ||| opmBit oneshot := by
    have hself : opmBit oneshot &&& timCr1Opm = opmBit oneshot := by
      cases oneshot <;> decide
    rw [started, or_disjoint _ _ _ (by decide), BitVec.and_or_distrib_right,
      or_disjoint _ _ _ (by decide), or_disjoint _ _ _ (by decide),
      and_not_disjoint _ _ _ (by decide)]
    exact congrArg _ hself
  rw [Tim.config, hdir, hurs, hopmBit]
  simp only [started, or_mask]

/-- Nothing but a one-shot start touches OPM. -/
theorem performed_opm {t t' : Tim F} {a : Action F} (h : Performed t a t') :
    t'.cr1 &&& timCr1Opm = (t.cr1 &&& timCr1Opm) ||| opmBit a.startsOneShot := by
  cases h with
  | refused hargs =>
    rw [(refused_starts hargs).2]
    exact BitVec.or_zero.symm
  | @started delayUs oneshot f psc arr hd =>
    have hshot : (Action.start delayUs oneshot (some f)).startsOneShot = oneshot := by
      rw [Action.startsOneShot, decide_eq_true hd, Bool.true_and]
    rw [hshot]
    exact congrArg Config.opm (started_config oneshot f psc arr t)
  | stop =>
    refine Eq.trans ?_ BitVec.or_zero.symm
    exact and_not_disjoint _ _ _ (by decide)
  | expire he =>
    rw [(expire_fields he).1]
    exact BitVec.or_zero.symm
  | irq he =>
    rw [(irq_fields he).1]
    exact BitVec.or_zero.symm

/-- OPM stays set from the first one-shot start on. -/
theorem performAll_opm (as : List (Action F)) : ∀ {t t' : Tim F}, performAll t as = some t' →
    (t'.cr1 &&& timCr1Opm = 0 ↔
      t.cr1 &&& timCr1Opm = 0 ∧ ∀ a ∈ as, a.startsOneShot = false) := by
  induction as with
  | nil =>
    intro t t' h
    cases h
    simp
  | cons a as ih =>
    intro t t' h
    rw [performAll_cons, Option.bind_eq_some_iff] at h
    obtain ⟨t₁, ha, has⟩ := h
    have hbit : opmBit a.startsOneShot = 0 ↔ a.startsOneShot = false := by
      cases a.startsOneShot <;> decide
    have hnone : t.cr1 &&& timCr1Opm ||| opmBit a.startsOneShot = 0 ↔
        t.cr1 &&& timCr1Opm = 0 ∧ opmBit a.startsOneShot = 0 := BitVec.or_eq_zero_iff
    rw [ih has, performed_opm (perform_performed ha), hnone, hbit, List.forall_mem_cons, and_assoc]

/-- A start configures the timer as on one just reset, and one-shot if asked for. -/
def SameAsFresh (delayUs : U32) (oneshot : Bool) (onTimeout : Option F) (t' : Tim F) : Prop :=
  ∃ t₀, cnTimerStart delayUs oneshot onTimeout reset = some (true, t₀) ∧ t'.config = t₀.config ∧
    (t'.cr1 &&& timCr1Opm ≠ 0 ↔ oneshot = true)

/-- After a history, a start leads where it leads on a timer just reset exactly if it is
one-shot or no start before it was. -/
theorem history_config (as : List (Action F)) (delayUs : U32) (oneshot : Bool)
    (onTimeout : Option F) (t t' : Tim F) (hhistory : performAll reset as = some t)
    (hstart : cnTimerStart delayUs oneshot onTimeout t = some (true, t')) :
    SameAsFresh delayUs oneshot onTimeout t' ↔
      oneshot = true ∨ ∀ a ∈ as, a.startsOneShot = false := by
  rcases start_cases hstart with ⟨_, hok, _⟩ | ⟨hd, f, psc, arr, rfl, _, hsearch, rfl⟩
  · cases hok
  · have hfresh : cnTimerStart delayUs oneshot (some f) reset =
        some (true, started oneshot f psc arr reset) := by
      rw [start_started hd, hsearch]
      rfl
    have hopm : ∀ t : Tim F, (started oneshot f psc arr t).cr1 &&& timCr1Opm =
        (t.cr1 &&& timCr1Opm) ||| opmBit oneshot :=
      fun t => congrArg Config.opm (started_config oneshot f psc arr t)
    have hleft := performAll_opm as hhistory
    have hzero : (reset : Tim F).cr1 &&& timCr1Opm = 0 := BitVec.zero_and
    rw [hzero, eq_self_iff_true, true_and] at hleft
    rw [← hleft]
    constructor
    · rintro ⟨_, _, _, hshot⟩
      cases oneshot with
      | true => exact .inl rfl
      | false =>
        have hnone : (started false f psc arr t).cr1 &&& timCr1Opm = 0 := by
          by_contra h
          cases hshot.mp h
        rw [hopm] at hnone
        exact .inr (BitVec.or_eq_zero_iff.mp hnone).1
    · intro h
      have hsame : (t.cr1 &&& timCr1Opm) ||| opmBit oneshot = opmBit oneshot := by
        rcases h with rfl | h
        · exact and_or_self t.cr1 timCr1Opm
        · rw [h]
          exact BitVec.zero_or
      refine ⟨_, hfresh, ?_, ?_⟩
      · rw [started_config, started_config, hsame, hzero]
        exact congrArg (fun v => (⟨_, _, _, _, v, _, _, _, _⟩ : Config F)) BitVec.zero_or.symm
      · rw [hopm, hsame]
        cases oneshot <;> decide

theorem start_bootloader (oneshot : Bool) (f : F) (t : Tim F) :
    cnTimerStart 3000000#32 oneshot (some f) t = some (true, started oneshot f 3295 65532 t) := by
  have hdelay : (3000000#32).toInt = 3000000 := by decide
  rw [start_started (by decide), hdelay, searchPsc_bootloader]
  rfl

/-- A one-shot start that was stopped. -/
def stoppedOneShot : List (Action Unit) := [.start 3000000#32 true (some ()), .stop]

theorem stopped_performed : performAll reset stoppedOneShot =
    some (cnTimerStop (started true () 3295 65532 reset)) := by
  rw [stoppedOneShot, performAll_cons, Action.perform, start_bootloader]
  rfl

/-- Another one-shot start after it. -/
theorem history_config_again : SameAsFresh 3000000#32 true (some ())
    (started true () 3295 65532 (cnTimerStop (started true () 3295 65532 reset))) :=
  (history_config stoppedOneShot 3000000#32 true (some ()) _ _ stopped_performed
    (start_bootloader true () _)).mpr (.inl rfl)

/-- A repeating start after it is one-shot, too. -/
theorem history_left : ∃ t t', performAll reset stoppedOneShot = some t ∧
    cnTimerStart 3000000#32 false (some ()) t = some (true, t') ∧
    ¬ SameAsFresh 3000000#32 false (some ()) t' := by
  refine ⟨_, _, stopped_performed, start_bootloader false () _, ?_⟩
  rintro ⟨_, _, _, hshot⟩
  have hset : (started false () 3295 65532 (cnTimerStop
      (started true () 3295 65532 reset))).cr1 &&& timCr1Opm ≠ 0 := by decide
  cases hshot.mp hset

theorem stop_others (t : Tim F) : others (cnTimerStop t).nvicEnabled = 0 ∧
    (cnTimerStop t).nvicPending = t.nvicPending := by
  have hnone : (cnTimerStop t).nvicEnabled = 0 := and_not_or_self _ _
  refine ⟨?_, rfl⟩
  rw [hnone]
  exact BitVec.zero_and

/-- A stop disables all interrupts. -/
theorem performed_enabled {t t' : Tim F} {a : Action F} (h : Performed t a t') :
    others t'.nvicEnabled = if a.stops then 0 else others t.nvicEnabled := by
  cases h with
  | refused hargs => rfl
  | started oneshot f psc arr hd => exact others_or t.nvicEnabled
  | stop => exact (stop_others t).1
  | expire he =>
    rw [(expire_fields he).2.1]
    rfl
  | irq he =>
    rw [(irq_fields he).2.1]
    rfl

/-- A start drops all that are pending. -/
theorem performed_pending {t t' : Tim F} {a : Action F} (h : Performed t a t') :
    others t'.nvicPending = if a.starts then 0 else others t.nvicPending := by
  cases h with
  | refused hargs =>
    rw [(refused_starts hargs).1]
    rfl
  | @started delayUs oneshot f psc arr hd =>
    have hstarts : (Action.start delayUs oneshot (some f)).starts = true := decide_eq_true hd
    have hnone : (started oneshot f psc arr t).nvicPending = 0 := and_not_or_self _ _
    rw [hstarts, hnone, others]
    exact BitVec.zero_and
  | stop => rfl
  | expire he => exact (expire_fields he).2.2
  | irq he => exact (irq_fields he).2.2

theorem performAll_others (as : List (Action F)) : ∀ {t t' : Tim F}, performAll t as = some t' →
    others t'.nvicEnabled = (if as.any Action.stops then 0 else others t.nvicEnabled) ∧
    others t'.nvicPending = (if as.any Action.starts then 0 else others t.nvicPending) := by
  induction as with
  | nil =>
    intro t t' h
    cases h
    exact ⟨rfl, rfl⟩
  | cons a as ih =>
    intro t t' h
    rw [performAll_cons, Option.bind_eq_some_iff] at h
    obtain ⟨t₁, ha, has⟩ := h
    have hperformed := perform_performed ha
    rw [(ih has).1, (ih has).2, performed_enabled hperformed, performed_pending hperformed,
      List.any_cons, List.any_cons]
    constructor
    · cases a.stops <;> simp
    · cases a.starts <;> simp

/-- The interrupts of the others are left alone by a sequence of calls exactly if it stops no
timer or none of them is enabled, and starts no timer or none of them is pending. -/
theorem calls_others (as : List (Action F)) (t t' : Tim F) (h : performAll t as = some t') :
    (others t'.nvicEnabled = others t.nvicEnabled ∧ others t'.nvicPending = others t.nvicPending) ↔
      (as.any Action.stops = false ∨ others t.nvicEnabled = 0) ∧
      (as.any Action.starts = false ∨ others t.nvicPending = 0) := by
  have hkept : ∀ (b : Bool) (v : U32), (if b then 0 else v) = v ↔ b = false ∨ v = 0 := by
    intro b v
    cases b with
    | false => simp
    | true =>
      rw [if_pos rfl]
      exact ⟨fun h => .inr h.symm, fun h => (h.resolve_left (by decide)).symm⟩
  obtain ⟨henabled, hpending⟩ := performAll_others as h
  rw [henabled, hpending, hkept, hkept]

/-- With another interrupt enabled, a start alone. -/
theorem calls_others_start : ∃ t' : Tim Unit,
    performAll { reset with nvicEnabled := 1 } [.start 3000000#32 true (some ())] = some t' ∧
      others t'.nvicEnabled = 1 ∧ others t'.nvicPending = 0 := by
  have hperform : performAll ({ reset with nvicEnabled := 1 } : Tim Unit)
      [.start 3000000#32 true (some ())] =
      some (started true () 3295 65532 { reset with nvicEnabled := 1 }) := by
    rw [performAll_cons, Action.perform, start_bootloader]
    rfl
  obtain ⟨henabled, hpending⟩ := (calls_others _ _ _ hperform).mpr
    ⟨.inl (by decide), .inr (by decide)⟩
  refine ⟨_, hperform, henabled.trans (by decide), hpending.trans (by decide)⟩

/-- A start drops another interrupt that is pending, and a stop disables one that is enabled. -/
theorem calls_others_lost : ∃ t' : Tim Unit,
    performAll { reset with nvicEnabled := 1, nvicPending := 1 }
      [.start 3000000#32 true (some ()), .stop] = some t' ∧
      others t'.nvicEnabled = 0 ∧ others t'.nvicPending = 0 := by
  have hperform : performAll ({ reset with nvicEnabled := 1, nvicPending := 1 } : Tim Unit)
      [.start 3000000#32 true (some ()), .stop] = some (cnTimerStop
        (started true () 3295 65532 { reset with nvicEnabled := 1, nvicPending := 1 })) := by
    rw [performAll_cons, Action.perform, start_bootloader]
    rfl
  exact ⟨_, hperform, by decide, by decide⟩

end CANnuccia.Stm32Timer

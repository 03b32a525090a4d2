import CANnuccia.TimerCalls
import CANnuccia.Preempt

/-!
# The STM32 timer driver, access by access

TIM2 counts while the driver is at work, and its interrupt may come between any two of the
driver's accesses. The functions that the handler calls do not call the driver.
-/
namespace CANnuccia.Stm32Timer

open Util Masks Preempt
open Mealy (Run)

variable {F : Type}

/-- The statements of `cnTimerStart`, `cnTimerStop` and `tim2Handler`. -/
inductive Access (F : Type) where
  | enableClock
  | stopCounter
  | countDown
  | setUrs
  | setPsc (v : U32)
  | setArr (v : U32)
  | updateGeneration
  | setTimeoutFunc (f : F)
  | setOpm (oneshot : Bool)
  | setUie
  | clearPending
  | enableIrq
  | startCounter
  | clearUie
  | disableIrq
  | disableClock
  | clearUif
  | callTimeoutFunc

def Access.perform : Access F → Tim F → Tim F × Option (Event F)
  | .enableClock, t => ({ t with apb1enr := t.apb1enr ||| rccApb1enrTim2enr }, none)
  | .stopCounter, t => ({ t with cr1 := t.cr1 &&& ~~~timCr1Cen }, none)
  | .countDown, t => ({ t with cr1 := t.cr1 ||| timCr1Dir }, none)
  | .setUrs, t => ({ t with cr1 := t.cr1 ||| timCr1Urs }, none)
  | .setPsc v, t => ({ t with psc := v }, none)
  | .setArr v, t => ({ t with arr := v }, none)
  | .updateGeneration, t => (t.updateGeneration, none)
  | .setTimeoutFunc f, t => ({ t with timeoutFunc := some f }, some (.install f))
  | .setOpm oneshot, t => ({ t with cr1 := t.cr1 ||| if oneshot then timCr1Opm else 0 }, none)
  | .setUie, t => ({ t with dier := t.dier ||| timDierUie }, none)
  | .clearPending, t => (t.writeICPR0 (t.nvicPending ||| tim2Irq), none)
  | .enableIrq, t => (t.writeISER0 (t.nvicEnabled ||| tim2Irq), none)
  | .startCounter, t => ({ t with cr1 := t.cr1 ||| timCr1Cen }, some .count)
  | .clearUie, t => ({ t with dier := t.dier &&& ~~~timDierUie }, none)
  | .disableIrq, t => (t.writeICER0 (t.nvicEnabled ||| tim2Irq), some .mask)
  | .disableClock, t => ({ t with apb1enr := t.apb1enr &&& ~~~rccApb1enrTim2enr }, none)
  | .clearUif, t => ({ t with sr := t.sr &&& ~~~timSrUif }, none)
  | .callTimeoutFunc, t => (t, t.timeoutFunc.map .run)

def startAccesses (oneshot : Bool) (f : F) (psc arr : Int) : List (Access F) :=
  [.enableClock, .stopCounter, .countDown, .setUrs, .setPsc (BitVec.ofInt 32 psc &&& 0xFFFF#32),
    .setArr (BitVec.ofInt 32 arr &&& 0xFFFF#32), .updateGeneration, .setTimeoutFunc f,
    .setOpm oneshot, .setUie, .clearPending, .enableIrq, .startCounter]

def stopAccesses : List (Access F) := [.stopCounter, .clearUie, .disableIrq, .disableClock]

def handlerAccesses : List (Access F) := [.clearUif, .callTimeoutFunc]

/-- The accesses of a call. A refused one makes none. -/
def accesses : TimerCall F → Option (List (Access F))
  | .start delayUs oneshot (some f) =>
    if delayUs = 0 then some []
    else (searchPsc delayUs.toInt 0x10000 0 0xFFFF).map fun r => startAccesses oneshot f r.1 r.2
  | .start _ _ none => some []
  | .stop => some stopAccesses

def takeIrq (t : Tim F) : Option (Tim F × List (Access F)) :=
  if t.nvicEnabled &&& tim2Irq ≠ 0 ∧ t.requested then
    some ({ t with nvicPending := t.nvicPending &&& ~~~tim2Irq }, handlerAccesses)
  else none

def device (F : Type) : Device (TimerCall F) F where
  Reg := Tim F
  Access := Access F
  access := Access.perform
  accesses := accesses
  expire := expire
  dispatch := takeIrq

/-- Accesses made with nothing between them. -/
def carryOut (l : List (Access F)) (t : Tim F) : Tim F × List (Event F) := (device F).carryOut l t

theorem start_carryOut (oneshot : Bool) (f : F) (psc arr : Int) (t : Tim F) :
    carryOut (startAccesses oneshot f psc arr) t =
      (started oneshot f psc arr t, [.install f, .count]) := by
  simp only [carryOut, startAccesses, Device.carryOut, device, Access.perform]
  rw [updateGeneration_silent (urs_set _)]
  rfl

theorem cnTimerStart_accesses (delayUs : U32) (oneshot : Bool) (onTimeout : Option F) (t : Tim F) :
    (cnTimerStart delayUs oneshot onTimeout t).map Prod.snd =
      (accesses (.start delayUs oneshot onTimeout)).map fun l => (carryOut l t).1 := by
  cases onTimeout with
  | none =>
    rw [cnTimerStart, if_pos (.inr rfl)]
    rfl
  | some f =>
    by_cases hd : delayUs = 0
    · rw [cnTimerStart, if_pos (.inl hd), accesses, if_pos hd]
      rfl
    · rw [start_started hd, accesses, if_neg hd]
      cases searchPsc delayUs.toInt 0x10000 0 0xFFFF with
      | none => rfl
      | some r =>
        have hstarted := start_carryOut oneshot f r.1 r.2 t
        exact congrArg (fun p => some p.1) hstarted.symm

theorem cnTimerStop_accesses (t : Tim F) :
    carryOut stopAccesses t = (cnTimerStop t, [.mask]) := rfl

theorem irq_accesses (t : Tim F) : (irq t).map (fun r => (r.1, r.2.toList.map Event.run)) =
    (takeIrq t).map fun r => carryOut r.2 r.1 := by
  unfold irq takeIrq
  split_ifs
  · simp only [Option.map_some, carryOut, handlerAccesses, Device.carryOut, device, Access.perform]
    cases t.timeoutFunc <;> rfl
  · rfl

/-- Each move of the driver makes its accesses without anything in between. -/
theorem step_atomic {t t' : (driver F).Timer} (h : (driver F).Step t t') :
    ∃ es, Atomic (device F) t t' es := by
  cases h with
  | @start _ delayUs oneshot onTimeout ok hstart =>
    have hl := cnTimerStart_accesses delayUs oneshot onTimeout t
    have hmap : (cnTimerStart delayUs oneshot onTimeout t).map Prod.snd = some t' :=
      congrArg (Option.map Prod.snd) hstart
    obtain ⟨l, hl, rfl⟩ := Option.map_eq_some_iff.mp (hl.symm.trans hmap)
    exact ⟨_, .call (D := device F) hl⟩
  | stop => exact ⟨_, .call (D := device F) (c := .stop) rfl⟩
  | expire he => exact ⟨_, .expire (D := device F) he⟩
  | @irq _ f hirq =>
    have htaken := irq_accesses t
    have hmap : (irq t).map (fun r => (r.1, r.2.toList.map Event.run)) =
        some (t', f.toList.map Event.run) := congrArg (Option.map _) hirq
    obtain ⟨⟨t₁, l⟩, ht, hcarried⟩ := Option.map_eq_some_iff.mp (htaken.symm.trans hmap)
    obtain rfl : (carryOut l t₁).1 = t' := congrArg Prod.fst hcarried
    exact ⟨_, .dispatch (D := device F) ht⟩

theorem steps_run {t t' : Tim F} (h : Relation.ReflTransGen (driver F).Step t t') :
    ∃ tr, Run (machine (device F)) (idle (D := device F) t) tr (idle (D := device F) t') :=
  atomics_run (Relation.ReflTransGen.mono (fun _ _ hs => step_atomic (F := F) hs) _ _ h)

/-- While the counter runs, it runs for the function that is installed. -/
def Running (t : Tim F) (m : Monitor F) : Prop :=
  t.cr1 &&& timCr1Cen ≠ 0 → m.Counts t.timeoutFunc

/-- An interrupt that can come is explained. -/
def Sound (t : Tim F) (m : Monitor F) : Prop :=
  t.nvicEnabled &&& tim2Irq = 0 ∨ (t.sr &&& timSrUif = 0 ∧ t.nvicPending &&& tim2Irq = 0) ∨
    m.Explains t.timeoutFunc

/-- With the rest of the handler still to come. -/
inductive Inv : List (Access F) → Tim F → Monitor F → Prop where
  | idle {t : Tim F} {m : Monitor F} : Running t m → Sound t m → Inv [] t m
  | entered {t : Tim F} {m : Monitor F} : Running t m → m.Owes t.timeoutFunc →
      t.nvicPending &&& tim2Irq = 0 ∨ m.Explains t.timeoutFunc → Inv handlerAccesses t m
  | cleared {t : Tim F} {m : Monitor F} : Running t m → m.Owes t.timeoutFunc → Sound t m →
      Inv [.callTimeoutFunc] t m

/-- No expiry is flagged or waits to be dispatched. -/
def NothingLeft (t : Tim F) : Prop :=
  t.sr &&& timSrUif = 0 ∧ (t.nvicPending &&& tim2Irq = 0 ∨ t.nvicEnabled &&& tim2Irq = 0)

instance nothingLeftDecidable (t : Tim F) : Decidable (NothingLeft t) :=
  inferInstanceAs (Decidable (_ ∧ _))

/-- A function is installed and its count not begun. -/
structure Primed (t : Tim F) (m : Monitor F) : Prop where
  stopped : t.cr1 &&& timCr1Cen = 0
  left : NothingLeft t
  awaits : m.Awaits t.timeoutFunc

/-- How far the driver is. -/
inductive Zone where
  | free
  | stopped
  | silent
  | primed
  | ready
  | never

def Zone.Holds : Zone → Tim F → Monitor F → Prop
  | .free, _, _ => True
  | .stopped, t, _ => t.cr1 &&& timCr1Cen = 0
  | .silent, t, _ => t.cr1 &&& timCr1Cen = 0 ∧ t.cr1 &&& timCr1Urs ≠ 0
  | .primed, t, m => Primed t m
  | .ready, t, m => Primed t m ∧ t.nvicPending &&& tim2Irq = 0
  | .never, _, _ => False

def Access.before : Access F → Zone
  | .enableClock | .stopCounter | .disableClock => .free
  | .countDown | .setUrs | .clearUie | .disableIrq => .stopped
  | .setPsc _ | .setArr _ | .updateGeneration | .setTimeoutFunc _ => .silent
  | .setOpm _ | .setUie | .clearPending => .primed
  | .enableIrq | .startCounter => .ready
  | .clearUif | .callTimeoutFunc => .never

def Access.after : Access F → Zone
  | .stopCounter | .countDown | .clearUie => .stopped
  | .setUrs | .setPsc _ | .setArr _ | .updateGeneration => .silent
  | .setTimeoutFunc _ | .setOpm _ | .setUie => .primed
  | .clearPending | .enableIrq => .ready
  | _ => .free

variable {t t' : Tim F} {m : Monitor F} {a : Access F} {e : Option (Event F)}

theorem running_stopped (h : t.cr1 &&& timCr1Cen = 0) : Running t m := fun hc => absurd h hc

/-- A program's access keeps the invariant and brings it to the next zone. -/
theorem main_access (hi : Inv [] t m) (hz : a.before.Holds t m) (ha : a.perform t = (t', e))
    (hC : ∀ f, e = some (.install f) → NothingLeft t) :
    Inv [] t' (m.observe e) ∧ a.after.Holds t' (m.observe e) := by
  cases hi with
  | idle hrunning hsound =>
  cases a with
  | enableClock | disableClock =>
    cases ha
    exact ⟨.idle hrunning hsound, trivial⟩
  | stopCounter =>
    cases ha
    have hstopped : t.cr1 &&& ~~~timCr1Cen &&& timCr1Cen = 0 := and_not_mask _ _
    exact ⟨.idle (running_stopped hstopped) hsound, hstopped⟩
  | countDown =>
    cases ha
    have hstopped : (t.cr1 ||| timCr1Dir) &&& timCr1Cen = 0 :=
      (or_disjoint _ _ _ (by decide)).trans hz
    exact ⟨.idle (running_stopped hstopped) hsound, hstopped⟩
  | setUrs =>
    cases ha
    have hstopped : (t.cr1 ||| timCr1Urs) &&& timCr1Cen = 0 :=
      (or_disjoint _ _ _ (by decide)).trans hz
    exact ⟨.idle (running_stopped hstopped) hsound, ⟨hstopped, urs_set _⟩⟩
  | setPsc v | setArr v =>
    cases ha
    exact ⟨.idle hrunning hsound, hz⟩
  | updateGeneration =>
    obtain ⟨rfl, rfl⟩ : t' = t ∧ e = none := by
      rw [Access.perform, updateGeneration_silent hz.2] at ha
      cases ha
      exact ⟨rfl, rfl⟩
    exact ⟨.idle hrunning hsound, hz⟩
  | setTimeoutFunc f =>
    cases ha
    have hleft : NothingLeft t := hC f rfl
    refine ⟨.idle (running_stopped hz.1) ?_, ⟨hz.1, hleft, m.awaits_install f⟩⟩
    rcases hleft with ⟨hflag, hpending | hmasked⟩
    · exact .inr (.inl ⟨hflag, hpending⟩)
    · exact .inl hmasked
  | setOpm oneshot =>
    cases ha
    have hstopped : (t.cr1 ||| if oneshot then timCr1Opm else 0) &&& timCr1Cen = 0 := by
      rw [or_disjoint _ _ _ (by cases oneshot <;> decide)]
      exact hz.stopped
    exact ⟨.idle (running_stopped hstopped) hsound, ⟨hstopped, hz.left, hz.awaits⟩⟩
  | setUie =>
    cases ha
    exact ⟨.idle hrunning hsound, ⟨hz.stopped, hz.left, hz.awaits⟩⟩
  | clearPending =>
    cases ha
    have hpending : t.nvicPending &&& ~~~(t.nvicPending ||| tim2Irq) &&& tim2Irq = 0 :=
      and_not_or_mask _ _
    exact ⟨.idle hrunning (.inr (.inl ⟨hz.left.1, hpending⟩)),
      ⟨⟨hz.stopped, ⟨hz.left.1, .inl hpending⟩, hz.awaits⟩, hpending⟩⟩
  | enableIrq =>
    cases ha
    exact ⟨.idle hrunning (.inr (.inl ⟨hz.1.left.1, hz.2⟩)),
      ⟨⟨hz.1.stopped, ⟨hz.1.left.1, .inl hz.2⟩, hz.1.awaits⟩, hz.2⟩⟩
  | startCounter =>
    cases ha
    have hcounts := Monitor.counts_count hz.1.awaits
    exact ⟨.idle (fun _ => hcounts) (.inr (.inl ⟨hz.1.left.1, hz.2⟩)), trivial⟩
  | clearUie =>
    cases ha
    exact ⟨.idle hrunning hsound, hz⟩
  | disableIrq =>
    cases ha
    exact ⟨.idle (running_stopped hz) (.inl (and_not_or_mask _ _)), trivial⟩
  | clearUif | callTimeoutFunc => exact hz.elim

/-- Only the handler runs a function. -/
theorem perform_run {f : F} (ha : a.perform t = (t', some (.run f))) :
    a = .callTimeoutFunc ∧ t' = t ∧ t.timeoutFunc = some f := by
  cases a with
  | callTimeoutFunc =>
    simp only [Access.perform, Prod.mk.injEq, Option.map_eq_some_iff] at ha
    obtain ⟨rfl, g, hg, hf⟩ := ha
    cases hf
    exact ⟨rfl, rfl, hg⟩
  | _ => cases ha

/-- Nothing takes the driver back, unless a count is about to begin. -/
theorem zone_kept {z : Zone} {m' : Monitor F} (hz : z.Holds t m) (hcr1 : t'.cr1 = t.cr1)
    (hprimed : ¬ Primed t m) : z.Holds t' m' := by
  cases z with
  | free => trivial
  | stopped => rwa [Zone.Holds, hcr1]
  | silent => rwa [Zone.Holds, hcr1]
  | primed => exact absurd hz hprimed
  | ready => exact absurd hz.1 hprimed
  | never => exact hz

theorem counts_primed {func : Option F} (h : m.Counts func) : ¬ Primed t m :=
  fun hp => Monitor.counts_awaits h hp.awaits

theorem handler_access {h : List (Access F)} (hi : Inv (a :: h) t m)
    (ha : a.perform t = (t', e)) :
    Inv h t' (m.observe e) ∧ (∀ z : Zone, z.Holds t m → z.Holds t' (m.observe e)) ∧
      ∀ f, e = some (.run f) → m.due = some f := by
  cases hi with
  | entered hrunning howes hpending =>
    cases ha
    refine ⟨.cleared hrunning howes ?_, ?_, fun f hf => (by cases hf)⟩
    · rcases hpending with hpending | hexplained
      · exact .inr (.inl ⟨and_not_mask _ _, hpending⟩)
      · exact .inr (.inr hexplained)
    · exact fun z hz => zone_kept hz rfl (counts_primed howes.1)
  | cleared hrunning howes hsound =>
    obtain ⟨f, hfunc, hlive⟩ := howes.1
    rw [Access.perform, hfunc] at ha
    cases ha
    refine ⟨.idle hrunning hsound, fun z hz => zone_kept hz rfl (counts_primed howes.1), ?_⟩
    intro g hg
    cases hg
    exact howes.2.trans hfunc

theorem expire_step {h : List (Access F)} (hi : Inv h t m) (he : expire t = some t') :
    Inv h t' (m.next .expiry) ∧ ∀ z : Zone, z.Holds t m → z.Holds t' (m.next .expiry) := by
  unfold expire at he
  split at he
  · rename_i hcounts
    cases he
    have hfunc : m.Counts t.timeoutFunc := by
      cases hi with
      | idle hrunning _ => exact hrunning hcounts.2
      | entered hrunning _ _ => exact hrunning hcounts.2
      | cleared hrunning _ _ => exact hrunning hcounts.2
    have hexplains := Monitor.explains_expiry hfunc
    constructor
    · cases hi with
      | idle _ _ => exact .idle (fun _ => hfunc) (.inr (.inr hexplains))
      | entered _ howes _ => exact .entered (fun _ => hfunc) howes (.inr hexplains)
      | cleared _ howes _ => exact .cleared (fun _ => hfunc) howes (.inr (.inr hexplains))
    · intro z hz
      cases z with
      | free => trivial
      | stopped => exact absurd hz hcounts.2
      | silent => exact absurd hz.1 hcounts.2
      | primed => exact absurd hz.stopped hcounts.2
      | ready => exact absurd hz.1.stopped hcounts.2
      | never => exact hz
  · cases he

theorem takeIrq_step {h : List (Access F)} (hi : Inv [] t m) (he : takeIrq t = some (t', h)) :
    Inv h t' (m.next .dispatch) ∧ ∀ z : Zone, z.Holds t m → z.Holds t' (m.next .dispatch) := by
  unfold takeIrq at he
  split at he
  · rename_i hreq
    cases he
    cases hi with
    | idle hrunning hsound =>
      have hexplains : m.Explains t.timeoutFunc := by
        rcases hsound with hmasked | ⟨hflag, hpending⟩ | hexplains
        · exact absurd hmasked hreq.1
        · rcases hreq.2 with hr | hr
          · exact absurd hpending hr
          · exact absurd hflag hr.1
        · exact hexplains
      refine ⟨.entered hrunning (Monitor.owes_dispatch hexplains) (.inl (and_not_mask _ _)), ?_⟩
      exact fun z hz => zone_kept hz rfl (counts_primed hexplains.1)
  · cases he

theorem accesses_cases {c : TimerCall F} {l : List (Access F)} (h : accesses c = some l) :
    l = [] ∨ (∃ oneshot f psc arr, l = startAccesses oneshot f psc arr) ∨ l = stopAccesses := by
  cases c with
  | stop =>
    cases h
    exact .inr (.inr rfl)
  | start delayUs oneshot onTimeout =>
    cases onTimeout with
    | none =>
      cases h
      exact .inl rfl
    | some f =>
      rw [accesses] at h
      split at h
      · cases h
        exact .inl rfl
      · obtain ⟨r, _, rfl⟩ := Option.map_eq_some_iff.mp h
        exact .inr (.inl ⟨oneshot, f, r.1, r.2, rfl⟩)

/-- Each access of a call leads to where the next one may be made. -/
theorem accesses_chain {c : TimerCall F} {l : List (Access F)} (h : accesses c = some l) :
    l.IsChain fun a b => a.after = b.before := by
  rcases accesses_cases h with rfl | ⟨oneshot, f, psc, arr, rfl⟩ | rfl
  · exact List.isChain_nil
  · simp [startAccesses, Access.after, Access.before]
  · simp [stopAccesses, Access.after, Access.before]

theorem accesses_first {c : TimerCall F} {l : List (Access F)} (h : accesses c = some l)
    (ha : a ∈ l.head?) : a.before = .free := by
  rcases accesses_cases h with rfl | ⟨oneshot, f, psc, arr, rfl⟩ | rfl
  · cases ha
  · cases ha
    rfl
  · cases ha
    rfl

def outline (F : Type) : Outline (device F) reset NothingLeft where
  Inv := Inv
  Needs a := a.before.Holds
  Gives a := a.after.Holds
  init := .idle (running_stopped BitVec.zero_and) (.inl BitVec.zero_and)
  chain h := by
    refine (accesses_chain h).imp ?_
    intro a b hab t m hz
    rw [← hab]
    exact hz
  first h ha := by
    rw [accesses_first h ha]
    trivial
  main hi hz ha hC := by
    obtain ⟨hi', hz'⟩ := main_access hi hz ha hC
    refine ⟨hi', hz', ?_⟩
    rintro f rfl
    obtain ⟨rfl, _⟩ := perform_run ha
    exact hz
  handler hi ha := by
    obtain ⟨hi', hz', hdue⟩ := handler_access hi ha
    exact ⟨hi', fun b => hz' b.before, hdue⟩
  expire hi he := by
    obtain ⟨hi', hz'⟩ := expire_step hi he
    exact ⟨hi', fun b => hz' b.before⟩
  dispatch hi he := by
    obtain ⟨hi', hz'⟩ := takeIrq_step hi he
    exact ⟨hi', fun b => hz' b.before⟩

end CANnuccia.Stm32Timer

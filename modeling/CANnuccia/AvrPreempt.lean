import CANnuccia.AvrDelay
import CANnuccia.Preempt

/-!
# The AVR timer driver, access by access

Timer1 counts while the driver is at work, and its interrupt may come between any two of the
driver's accesses. A one-shot handler makes those of `cnTimerStop` itself. The functions that
the handler calls do not call the driver.
-/
namespace CANnuccia.AvrTimer

open Util Preempt
open Mealy (Run)

variable {F : Type}

/-- The statements of `cnTimerStart`, `cnTimerStop` and the interrupt handler. -/
inductive Access (F : Type) where
  | setTimeoutFunc (f : F)
  | setTimerOneshot (oneshot : Bool)
  | setToie1
  | setTcnt1 (v : U16)
  | setTccr1b (v : U8)
  | sei
  | clearTccr1a
  | clearTccr1b
  | clearToie1
  | clearTcnt1
  | clearTimeoutFunc
  | callTimeoutFunc

def Access.perform : Access F → Timer1 F → Timer1 F × Option (Event F)
  | .setTimeoutFunc f, t => ({ t with timeoutFunc := some f }, some (.install f))
  | .setTimerOneshot oneshot, t => ({ t with timerOneshot := oneshot }, none)
  | .setToie1, t => ({ t with timsk1 := t.timsk1 ||| toie1 }, none)
  | .setTcnt1 v, t => ({ t with tcnt1 := v }, none)
  | .setTccr1b v, t => ({ t with tccr1b := v }, some .count)
  | .sei, t => ({ t with sregI := true }, none)
  | .clearTccr1a, t => ({ t with tccr1a := 0x00#8 }, none)
  | .clearTccr1b, t => ({ t with tccr1b := 0x00#8 }, none)
  | .clearToie1, t => ({ t with timsk1 := t.timsk1 &&& ~~~toie1 }, some .mask)
  | .clearTcnt1, t => ({ t with tcnt1 := 0x0000#16 }, none)
  | .clearTimeoutFunc, t => ({ t with timeoutFunc := none }, none)
  | .callTimeoutFunc, t => (t, t.timeoutFunc.map .run)

def startAccesses (oneshot : Bool) (f : F) (p : U32 × U8) : List (Access F) :=
  [.setTimeoutFunc f, .setTimerOneshot oneshot, .setToie1,
    .setTcnt1 ((p.1 &&& 0xFFFF#32).setWidth 16), .setTccr1b p.2, .sei]

def stopAccesses : List (Access F) :=
  [.clearTccr1a, .clearTccr1b, .clearToie1, .clearTcnt1, .clearTimeoutFunc]

/-- The accesses of a call. A refused one makes none. -/
def accesses : TimerCall F → List (Access F)
  | .start delayUs oneshot (some f) =>
    if delayUs = 0 then [] else startAccesses oneshot f (choosePsc delayUs pscs)
  | .start _ _ none => []
  | .stop => stopAccesses

/-- Nothing changes `timerOneshot` until the handler looks at it. -/
def handlerAccesses (t : Timer1 F) : List (Access F) :=
  .callTimeoutFunc :: if t.timerOneshot then stopAccesses else []

def takeIrq (t : Timer1 F) : Option (Timer1 F × List (Access F)) :=
  if t.sregI ∧ t.timsk1 &&& toie1 ≠ 0 ∧ t.tov1 then
    some ({ t with tov1 := false }, handlerAccesses t)
  else none

def device (F : Type) : Device (TimerCall F) F where
  Reg := Timer1 F
  Access := Access F
  access := Access.perform
  accesses c := some (accesses c)
  expire := expire
  dispatch := takeIrq

/-- Accesses made with nothing between them. -/
def carryOut (l : List (Access F)) (t : Timer1 F) : Timer1 F × List (Event F) := (device F).carryOut l t

theorem cnTimerStart_accesses (delayUs : U32) (oneshot : Bool) (onTimeout : Option F)
    (t : Timer1 F) : (cnTimerStart delayUs oneshot onTimeout t).map Prod.snd =
      some (carryOut (accesses (.start delayUs oneshot onTimeout)) t).1 := by
  cases onTimeout with
  | none =>
    rw [cnTimerStart, if_pos (.inr rfl)]
    rfl
  | some f =>
    by_cases hd : delayUs = 0
    · rw [cnTimerStart, if_pos (.inl hd), accesses, if_pos hd]
      rfl
    · rw [start_eq oneshot hd, accesses, if_neg hd]
      rfl

theorem cnTimerStop_accesses (t : Timer1 F) :
    carryOut stopAccesses t = (cnTimerStop t, [.mask]) := rfl

theorem irq_accesses (t : Timer1 F) :
    (irq t).map (fun r =>
      (r.1, r.2.toList.map Event.run ++ if t.timerOneshot then [.mask] else [])) =
      (takeIrq t).map fun r => carryOut r.2 r.1 := by
  obtain ⟨_, _, timsk1, _, tov1, sregI, timeoutFunc, oneshot⟩ := t
  by_cases h : sregI = true ∧ timsk1 &&& toie1 ≠ 0 ∧ tov1 = true
  · rw [irq, if_pos h, takeIrq, if_pos h]
    cases oneshot <;> cases timeoutFunc <;> rfl
  · rw [irq, if_neg h, takeIrq, if_neg h]
    rfl

/-- Each move of the driver makes its accesses without anything in between. -/
theorem step_atomic {t t' : (driver F).Timer} (h : (driver F).Step t t') :
    ∃ es, Atomic (device F) t t' es := by
  cases h with
  | @start _ delayUs oneshot onTimeout ok hstart =>
    have hl := cnTimerStart_accesses delayUs oneshot onTimeout t
    have hmap : (cnTimerStart delayUs oneshot onTimeout t).map Prod.snd = some t' :=
      congrArg (Option.map Prod.snd) hstart
    obtain rfl := Option.some.inj (hl.symm.trans hmap)
    exact ⟨_, .call (D := device F) (c := .start delayUs oneshot onTimeout) rfl⟩
  | stop => exact ⟨_, .call (D := device F) (c := .stop) rfl⟩
  | expire he => exact ⟨_, .expire (D := device F) he⟩
  | @irq _ f hirq =>
    have htaken := irq_accesses t
    have hmap : (irq t).map (fun r =>
        (r.1, r.2.toList.map Event.run ++ if t.timerOneshot then [.mask] else [])) =
        some (t', f.toList.map Event.run ++ if t.timerOneshot then [.mask] else []) :=
      congrArg (Option.map _) hirq
    obtain ⟨⟨t₁, l⟩, ht, hcarried⟩ := Option.map_eq_some_iff.mp (htaken.symm.trans hmap)
    obtain rfl : (carryOut l t₁).1 = t' := congrArg Prod.fst hcarried
    exact ⟨_, .dispatch (D := device F) ht⟩

theorem steps_run {t t' : Timer1 F} (h : Relation.ReflTransGen (driver F).Step t t') :
    ∃ tr, Run (machine (device F)) (idle (D := device F) t) tr (idle (D := device F) t') :=
  atomics_run (Relation.ReflTransGen.mono (fun _ _ hs => step_atomic (F := F) hs) _ _ h)

/-- While the counter runs, it runs for the function that is installed. -/
def Running (t : Timer1 F) (m : Monitor F) : Prop :=
  t.tccr1b &&& clockSelect ≠ 0 → m.Counts t.timeoutFunc

/-- An interrupt that can come is explained. -/
structure Sound (t : Timer1 F) (m : Monitor F) : Prop where
  running : Running t m
  irq : t.timsk1 &&& toie1 = 0 ∨ t.tov1 = false ∨ m.Explains t.timeoutFunc

/-- No overflow is flagged, and none can come. -/
def NothingLeft (t : Timer1 F) : Prop := t.tccr1b &&& clockSelect = 0 ∧ t.tov1 = false

instance nothingLeftDecidable (t : Timer1 F) : Decidable (NothingLeft t) :=
  inferInstanceAs (Decidable (_ ∧ _))

/-- A function is installed and its count not begun. -/
structure Primed (t : Timer1 F) (m : Monitor F) : Prop where
  left : NothingLeft t
  awaits : m.Awaits t.timeoutFunc

/-- No start is under way. -/
def Settled (m : Monitor F) : Prop := m.live ≠ none ∨ m.installed = none

/-- How far the driver is. -/
inductive Zone where
  | free
  | stopped
  | masked
  | primed
  | never

def Zone.Holds : Zone → Timer1 F → Monitor F → Prop
  | .free, _, _ => True
  | .stopped, t, _ => t.tccr1b &&& clockSelect = 0
  | .masked, t, _ => t.tccr1b &&& clockSelect = 0 ∧ t.timsk1 &&& toie1 = 0
  | .primed, t, m => Primed t m
  | .never, _, _ => False

def Access.before : Access F → Zone
  | .setTimeoutFunc _ | .sei | .clearTccr1a | .clearTccr1b => .free
  | .setTimerOneshot _ | .setToie1 | .setTcnt1 _ | .setTccr1b _ => .primed
  | .clearToie1 => .stopped
  | .clearTcnt1 | .clearTimeoutFunc => .masked
  | .callTimeoutFunc => .never

def Access.after : Access F → Zone
  | .setTimeoutFunc _ | .setTimerOneshot _ | .setToie1 | .setTcnt1 _ => .primed
  | .clearTccr1b => .stopped
  | .clearToie1 | .clearTcnt1 => .masked
  | _ => .free

/-- With the rest of the handler still to come. -/
inductive Inv : List (Access F) → Timer1 F → Monitor F → Prop where
  | idle {t : Timer1 F} {m : Monitor F} : Sound t m → Inv [] t m
  | entered {t : Timer1 F} {m : Monitor F} {h : List (Access F)} : Sound t m →
      m.Owes t.timeoutFunc →
      h = [] ∨ h = stopAccesses → Inv (.callTimeoutFunc :: h) t m
  | stopping {t : Timer1 F} {m : Monitor F} {a : Access F} {h : List (Access F)} : Sound t m →
      Settled m → a.before.Holds t m → a :: h <:+ stopAccesses → Inv (a :: h) t m

variable {t t' : Timer1 F} {m : Monitor F} {a : Access F} {e : Option (Event F)}

theorem Inv.sound {h : List (Access F)} (hi : Inv h t m) : Sound t m := by
  cases hi with
  | idle hs => exact hs
  | entered hs _ _ => exact hs
  | stopping hs _ _ _ => exact hs

theorem running_stopped (h : t.tccr1b &&& clockSelect = 0) : Running t m :=
  fun hc => absurd h hc

/-- An access keeps what is sound and brings the driver to the next zone. -/
theorem sound_access (hs : Sound t m) (hz : a.before.Holds t m) (ha : a.perform t = (t', e))
    (hC : ∀ f, e = some (.install f) → NothingLeft t) :
    Sound t' (m.observe e) ∧ a.after.Holds t' (m.observe e) := by
  cases a with
  | setTimeoutFunc f =>
    cases ha
    have hleft : NothingLeft t := hC f rfl
    exact ⟨⟨running_stopped hleft.1, .inr (.inl hleft.2)⟩, hleft, m.awaits_install f⟩
  | setTimerOneshot oneshot =>
    cases ha
    exact ⟨⟨hs.running, hs.irq⟩, hz.left, hz.awaits⟩
  | setToie1 =>
    cases ha
    exact ⟨⟨hs.running, .inr (.inl hz.left.2)⟩, hz.left, hz.awaits⟩
  | setTcnt1 v =>
    cases ha
    exact ⟨⟨hs.running, hs.irq⟩, hz.left, hz.awaits⟩
  | setTccr1b v =>
    cases ha
    exact ⟨⟨fun _ => Monitor.counts_count hz.awaits, .inr (.inl hz.left.2)⟩, trivial⟩
  | sei | clearTccr1a =>
    cases ha
    exact ⟨⟨hs.running, hs.irq⟩, trivial⟩
  | clearTccr1b =>
    cases ha
    have hstopped : (0x00#8 : U8) &&& clockSelect = 0 := BitVec.zero_and
    exact ⟨⟨running_stopped hstopped, hs.irq⟩, hstopped⟩
  | clearToie1 =>
    cases ha
    have hmasked : t.timsk1 &&& ~~~toie1 &&& toie1 = 0 := stop_quiet t
    exact ⟨⟨running_stopped hz, .inl hmasked⟩, hz, hmasked⟩
  | clearTcnt1 =>
    cases ha
    exact ⟨⟨running_stopped hz.1, .inl hz.2⟩, hz⟩
  | clearTimeoutFunc =>
    cases ha
    exact ⟨⟨running_stopped hz.1, .inl hz.2⟩, trivial⟩
  | callTimeoutFunc => exact hz.elim

/-- Only the handler runs a function. -/
theorem perform_run {f : F} (ha : a.perform t = (t', some (.run f))) :
    a = .callTimeoutFunc ∧ t' = t ∧ t.timeoutFunc = some f := by
  cases a with
  | callTimeoutFunc =>
    simp only [Access.perform, Prod.mk.injEq, Option.map_eq_some_iff] at ha
    obtain ⟨rfl, g, hg, hf⟩ := ha
    cases hf
    exact ⟨rfl, rfl, hg⟩
  | _ => cases ha

theorem settled_primed (h : Settled m) : ¬ Primed t m := by
  rintro ⟨_, hlive, f, _, hinstalled⟩
  rcases h with h | h
  · exact h hlive
  · cases h.symm.trans hinstalled

theorem settled_counts {func : Option F} (h : m.Counts func) : Settled m := by
  obtain ⟨f, _, hlive⟩ := h
  refine .inl ?_
  rw [hlive]
  exact Option.some_ne_none f

/-- Nothing takes the driver back, unless a count is about to begin. -/
theorem zone_kept {z : Zone} {m' : Monitor F} (hz : z.Holds t m) (hsettled : Settled m)
    (hclock : t.tccr1b &&& clockSelect = 0 → t'.tccr1b &&& clockSelect = 0)
    (hmask : t.timsk1 &&& toie1 = 0 → t'.timsk1 &&& toie1 = 0) : z.Holds t' m' := by
  cases z with
  | free => trivial
  | stopped => exact hclock hz
  | masked => exact ⟨hclock hz.1, hmask hz.2⟩
  | primed => exact absurd hz (settled_primed hsettled)
  | never => exact hz

/-- What a handler still has to do is the rest of `cnTimerStop`. -/
theorem inv_stopping {h : List (Access F)} (hs : Sound t m) (hsettled : Settled m)
    (hz : ∀ a ∈ h.head?, a.before.Holds t m) (hsuffix : h <:+ stopAccesses) : Inv h t m := by
  cases h with
  | nil => exact .idle hs
  | cons a h => exact .stopping hs hsettled (hz a rfl) hsuffix

theorem stop_chain : (stopAccesses : List (Access F)).IsChain fun a b => a.after = b.before := by
  simp [stopAccesses, Access.after, Access.before]

theorem stop_access (hmem : a ∈ stopAccesses) (ha : a.perform t = (t', e)) :
    (e = none ∨ e = some .mask) ∧
      (t.tccr1b &&& clockSelect = 0 → t'.tccr1b &&& clockSelect = 0) ∧
      (t.timsk1 &&& toie1 = 0 → t'.timsk1 &&& toie1 = 0) := by
  cases a with
  | clearTccr1a | clearTcnt1 | clearTimeoutFunc =>
    cases ha
    exact ⟨.inl rfl, id, id⟩
  | clearTccr1b =>
    cases ha
    exact ⟨.inl rfl, fun _ => BitVec.zero_and, id⟩
  | clearToie1 =>
    cases ha
    exact ⟨.inr rfl, id, fun _ => stop_quiet t⟩
  | _ => simp [stopAccesses] at hmem

theorem settled_stop (h : Settled m) (he : e = none ∨ e = some .mask) : Settled (m.observe e) := by
  rcases he with rfl | rfl
  · exact h
  · exact .inr rfl

theorem handler_access {h : List (Access F)} (hi : Inv (a :: h) t m)
    (ha : a.perform t = (t', e)) :
    Inv h t' (m.observe e) ∧ (∀ z : Zone, z.Holds t m → z.Holds t' (m.observe e)) ∧
      ∀ f, e = some (.run f) → m.due = some f := by
  cases hi with
  | entered hs howes hh =>
    obtain ⟨f, hfunc, hlive⟩ := howes.1
    have hsettled : Settled m := settled_counts howes.1
    rw [Access.perform, hfunc] at ha
    cases ha
    have hrun : Sound t (m.observe (some (.run f))) := ⟨hs.running, hs.irq⟩
    refine ⟨?_, fun z hz => zone_kept hz hsettled id id, ?_⟩
    · rcases hh with rfl | rfl
      · exact .idle hrun
      · exact .stopping hrun hsettled trivial (List.suffix_refl _)
    · intro g hg
      cases hg
      exact howes.2.trans hfunc
  | stopping hs hsettled hz hsuffix =>
    have hmem : a ∈ stopAccesses := hsuffix.subset (List.mem_cons_self ..)
    obtain ⟨he, hclock, hmask⟩ := stop_access hmem ha
    have hinstall : ∀ f, e ≠ some (.install f) := by
      rcases he with rfl | rfl <;> exact fun f hf => by cases hf
    have hrun : ∀ f, e ≠ some (.run f) := by
      rcases he with rfl | rfl <;> exact fun f hf => by cases hf
    obtain ⟨hs', hz'⟩ := sound_access hs hz ha fun f hf => absurd hf (hinstall f)
    refine ⟨?_, fun z hz => zone_kept hz hsettled hclock hmask, fun f hf => absurd hf (hrun f)⟩
    refine inv_stopping hs' (settled_stop hsettled he) ?_ ((List.suffix_cons a h).trans hsuffix)
    intro b hb
    have hnext : a.after = b.before := (List.isChain_cons.mp (stop_chain.suffix hsuffix)).1 b hb
    rw [← hnext]
    exact hz'

theorem expire_step {h : List (Access F)} (hi : Inv h t m) (he : expire t = some t') :
    Inv h t' (m.next .expiry) ∧ ∀ z : Zone, z.Holds t m → z.Holds t' (m.next .expiry) := by
  unfold expire at he
  split at he
  · rename_i hcounts
    cases he
    have hs : Sound t m := hi.sound
    have hfunc : m.Counts t.timeoutFunc := hs.running hcounts
    have hs' : Sound { t with tov1 := true, tcnt1 := 0 } (m.next .expiry) :=
      ⟨hs.running, .inr (.inr (Monitor.explains_expiry hfunc))⟩
    have hzone : ∀ z : Zone, z.Holds t m →
        z.Holds { t with tov1 := true, tcnt1 := 0 } (m.next .expiry) := by
      intro z hz
      exact zone_kept hz (settled_counts hfunc) id id
    refine ⟨?_, hzone⟩
    cases hi with
    | idle _ => exact .idle hs'
    | entered _ howes hh => exact .entered hs' howes hh
    | stopping _ hsettled hz hsuffix => exact .stopping hs' hsettled (hzone _ hz) hsuffix
  · cases he

theorem takeIrq_step {h : List (Access F)} (hi : Inv [] t m) (he : takeIrq t = some (t', h)) :
    Inv h t' (m.next .dispatch) ∧ ∀ z : Zone, z.Holds t m → z.Holds t' (m.next .dispatch) := by
  unfold takeIrq at he
  split at he
  · rename_i hreq
    cases he
    have hs : Sound t m := hi.sound
    have hexplains : m.Explains t.timeoutFunc := by
      rcases hs.irq with hmasked | hflag | hexplains
      · exact absurd hmasked hreq.2.1
      · exact absurd hreq.2.2 (by rw [hflag]; decide)
      · exact hexplains
    have howes := Monitor.owes_dispatch hexplains
    refine ⟨.entered ⟨hs.running, .inr (.inl rfl)⟩ howes ?_, ?_⟩
    · cases t.timerOneshot
      · exact .inl rfl
      · exact .inr rfl
    · exact fun z hz => zone_kept hz (settled_counts hexplains.1) id id
  · cases he

theorem accesses_cases (c : TimerCall F) :
    accesses c = [] ∨ (∃ oneshot f p, accesses c = startAccesses oneshot f p) ∨
      accesses c = stopAccesses := by
  cases c with
  | stop => exact .inr (.inr rfl)
  | start delayUs oneshot onTimeout =>
    cases onTimeout with
    | none => exact .inl rfl
    | some f =>
      rw [accesses]
      split
      · exact .inl rfl
      · exact .inr (.inl ⟨oneshot, f, _, rfl⟩)

/-- Each access of a call leads to where the next one may be made. -/
theorem accesses_chain (c : TimerCall F) :
    (accesses c).IsChain fun a b => a.after = b.before ∨ b.before = .free := by
  rcases accesses_cases c with h | ⟨oneshot, f, p, h⟩ | h
  · rw [h]
    exact List.isChain_nil
  · rw [h]
    simp [startAccesses, Access.after, Access.before]
  · rw [h]
    exact stop_chain.imp fun a b hab => .inl hab

theorem accesses_first {c : TimerCall F} (ha : a ∈ (accesses c).head?) : a.before = .free := by
  rcases accesses_cases c with h | ⟨oneshot, f, p, h⟩ | h
  · rw [h] at ha
    cases ha
  · rw [h] at ha
    cases ha
    rfl
  · rw [h] at ha
    cases ha
    rfl

def outline (F : Type) : Outline (device F) reset NothingLeft where
  Inv := Inv
  Needs a := a.before.Holds
  Gives a := a.after.Holds
  init := .idle ⟨running_stopped BitVec.zero_and, .inr (.inl rfl)⟩
  chain h := by
    cases h
    refine (accesses_chain _).imp ?_
    intro a b hab t m hz
    rcases hab with hab | hab
    · rw [← hab]
      exact hz
    · rw [hab]
      trivial
  first h ha := by
    cases h
    rw [accesses_first ha]
    trivial
  main hi hz ha hC := by
    obtain ⟨hs', hz'⟩ := sound_access hi.sound hz ha hC
    refine ⟨.idle hs', hz', ?_⟩
    rintro f rfl
    obtain ⟨rfl, _⟩ := perform_run ha
    exact hz
  handler hi ha := by
    obtain ⟨hi', hz', hdue⟩ := handler_access hi ha
    exact ⟨hi', fun b => hz' b.before, hdue⟩
  expire hi he := by
    obtain ⟨hi', hz'⟩ := expire_step hi he
    exact ⟨hi', fun b => hz' b.before⟩
  dispatch hi he := by
    obtain ⟨hi', hz'⟩ := takeIrq_step hi he
    exact ⟨hi', fun b => hz' b.before⟩

end CANnuccia.AvrTimer

import CANnuccia.Buffer

/-!
# Refused messages

A SELECT_PAGE or a SEEK that is refused leaves no trace. A COMMIT_WRITES can be
refused after the driver has begun its cycle, and then it does.
-/
namespace CANnuccia.Pump

open Util CanMsgs Overlay
open Mealy (Machine Transition Run outputs)

section Handling

variable {B : Backend} {devId : U8} {d s s' : Dev B} {m : Msg} {r : List (Trans B)} {i : Input}
variable {outs : List Event}

/-- What a SELECT_PAGE, a SEEK or a COMMIT_WRITES that arrived in `d` does in the end. -/
inductive Effect (devId : U8) (d : Dev B) (m : Msg) (d' : Dev B) : List Event → Prop where
  | selectPage (data : List U8) : dispatch m = .selectPage data →
      d'.selPage = (selectPage devId data d.selPage).1 → d'.flash = d.flash →
      Effect devId d m d' (selectPage devId data d.selPage).2
  | seek (data : List U8) : dispatch m = .seek data → d'.selPage = seek data d.selPage →
      d'.flash = d.flash → Effect devId d m d' []
  | commitRefuse : dispatch m = .commitTest → d.state ≠ .unlocked → d'.selPage = d.selPage →
      d'.flash = d.flash → Effect devId d m d' []
  | commit (outs : List Event) : dispatch m = .commitTest → d.state = .unlocked →
      d'.selPage = d.selPage → commitWrites devId d.selPage d.flash = some (d'.flash, outs) →
      Effect devId d m d' outs

/-- How far its handler has come after `r`. -/
inductive Stage (devId : U8) (d : Dev B) (m : Msg) (r : List (Trans B)) (d' : Dev B) : Prop where
  | entered : d'.pc = dispatch m → d'.selPage = d.selPage → d'.flash = d.flash →
      Stage devId d m r d'
  | passed : d'.pc = .commitWrites → dispatch m = .commitTest → d.state = .unlocked →
      d'.selPage = d.selPage → d'.flash = d.flash → Stage devId d m r d'
  | ended (outs : List Event) : d'.pc = .loopTest → Effect devId d m d' outs →
      (∀ e ∈ outs, e ∈ outputs r) → Stage devId d m r d'

structure Handling (devId : U8) (d : Dev B) (m : Msg) (r : List (Trans B)) (d' : Dev B) : Prop where
  stage : Stage devId d m r d'
  phase : d'.state = d.state ∨
    (d.state ≠ .unlocked ∧ d'.state = .done ∧ .onTimeout ∈ outputs r)

def Handled (m : Msg) : Prop :=
  m.id &&& cnCanMsgidMask = cnCanMsgSelectPage ∨ m.id &&& cnCanMsgidMask = cnCanMsgSeek ∨
    m.id &&& cnCanMsgidMask = cnCanMsgCommitWrites

/-- The three handlers. -/
theorem handled_dispatch (h : Handled m) : (∃ data, dispatch m = .selectPage data) ∨
    (∃ data, dispatch m = .seek data) ∨ dispatch m = .commitTest := by
  unfold dispatch
  rcases h with h | h | h <;> rw [h] <;>
    simp [cnCanMsgProgReq, cnCanMsgUnlock, cnCanMsgSelectPage, cnCanMsgSeek, cnCanMsgWrite,
      cnCanMsgCheckWrites, cnCanMsgCommitWrites]

theorem Effect.congr (h : Effect devId d m s outs) (hp : s'.selPage = s.selPage)
    (hf : s'.flash = s.flash) : Effect devId d m s' outs := by
  cases h with
  | selectPage data hd hpage hflash => exact .selectPage data hd (hp.trans hpage) (hf.trans hflash)
  | seek data hd hpage hflash => exact .seek data hd (hp.trans hpage) (hf.trans hflash)
  | commitRefuse hd hs hpage hflash => exact .commitRefuse hd hs (hp.trans hpage) (hf.trans hflash)
  | commit _ hd hs hpage hc => exact .commit _ hd hs (hp.trans hpage) (by rw [hf]; exact hc)

/-- What is emitted stays emitted. -/
theorem mem_outputs_snoc {x : Trans B} (h : ∀ e ∈ outs, e ∈ outputs r) :
    ∀ e ∈ outs, e ∈ outputs (r ++ [x]) := by
  intro e he
  rw [Mealy.outputs_append]
  exact List.mem_append_left _ (h e he)

/-- The timer and its interrupt leave the handler where it is. -/
theorem Stage.beside {x : Trans B} (h : Stage devId d m r s) (hpc : s'.pc = s.pc)
    (hp : s'.selPage = s.selPage) (hf : s'.flash = s.flash) : Stage devId d m (r ++ [x]) s' := by
  cases h with
  | entered hpc₀ hp₀ hf₀ => exact .entered (hpc.trans hpc₀) (hp.trans hp₀) (hf.trans hf₀)
  | passed hpc₀ hd hs hp₀ hf₀ =>
    exact .passed (hpc.trans hpc₀) hd hs (hp.trans hp₀) (hf.trans hf₀)
  | ended o hpc₀ he ho => exact .ended o (hpc.trans hpc₀) (he.congr hp hf) (mem_outputs_snoc ho)

/-- A step of `main` takes the handler on. -/
theorem Handling.main {c : Core B} {timer : B.timer.Timer} (hm : Handled m)
    (h : Handling devId d m r s) (hpc : s.pc ≠ .loopTest) (hmove : Move devId s.toCore c outs) :
    Stage devId d m (r ++ [⟨s, .main, outs, ⟨c, timer⟩⟩]) ⟨c, timer⟩ := by
  have hnew : ∀ e ∈ outs, e ∈ outputs (r ++ [(⟨s, .main, outs, ⟨c, timer⟩⟩ : Trans B)]) := by
    intro e he
    simp [he]
  cases h.stage with
  | entered hentry hp hf =>
    rcases handled_dispatch hm with ⟨data, hd⟩ | ⟨data, hd⟩ | hd
    · rw [hd] at hentry
      cases hmove with
      | selectPage data' hpc' =>
        cases hpc'.symm.trans hentry
        refine .ended _ rfl (.selectPage data hd (by rw [← hp]) hf) ?_
        rw [← hp]
        exact hnew
      | _ => simp_all
    · rw [hd] at hentry
      cases hmove with
      | seek data' hpc' =>
        cases hpc'.symm.trans hentry
        exact .ended _ rfl (.seek data hd (by rw [← hp]) hf) (by simp)
      | _ => simp_all
    · rw [hd] at hentry
      cases hmove with
      | commitPass _ hs =>
        refine .passed rfl hd ?_ hp hf
        rcases h.phase with hsame | ⟨_, hdone, _⟩
        · exact hsame.symm.trans hs
        · rw [hdone] at hs
          cases hs
      | commitRefuse _ hs =>
        refine .ended _ rfl (.commitRefuse hd ?_ hp hf) (by simp)
        rcases h.phase with hsame | ⟨hne, _⟩
        · rw [← hsame]
          exact hs
        · exact hne
      | _ => simp_all
  | passed hpc₀ hd hs hp hf =>
    cases hmove with
    | commitWrites _ _ _ hc =>
      rw [hp, hf] at hc
      exact .ended _ rfl (.commit _ hd hs hp hc) hnew
    | _ => simp_all
  | ended o hpc₀ _ _ => exact absurd hpc₀ hpc

/-- Before its end the handler waits for no message and leaves the phase alone. -/
theorem Handling.at_handler (hm : Handled m) (h : Handling devId d m r s) (hpc : s.pc ≠ .loopTest) :
    s.pc ≠ .recv ∧ ∀ {c outs}, Move devId s.toCore c outs → c.state = s.state := by
  have hentry : (∃ data, s.pc = .selectPage data) ∨ (∃ data, s.pc = .seek data) ∨
      s.pc = .commitTest ∨ s.pc = .commitWrites := by
    cases h.stage with
    | entered hpc₀ _ _ =>
      rw [hpc₀]
      rcases handled_dispatch hm with hd | hd | hd
      · exact .inl hd
      · exact .inr (.inl hd)
      · exact .inr (.inr (.inl hd))
    | passed hpc₀ _ _ _ _ => exact .inr (.inr (.inr hpc₀))
    | ended _ hpc₀ _ _ => exact absurd hpc₀ hpc
  rcases hentry with ⟨data, he⟩ | ⟨data, he⟩ | he | he
  all_goals
    refine ⟨by simp [he], fun hmove => ?_⟩
    cases hmove <;> simp_all

theorem handling_step (hm : Handled m) (h : Handling devId d m r s) (hpc : s.pc ≠ .loopTest)
    (hquiet : d.state = .unlocked → .onTimeout ∉ outs) (hmoved : Moved devId s i s' outs) :
    Handling devId d m (r ++ [⟨s, i, outs, s'⟩]) s' := by
  have hkeep : s'.state = s.state → s'.state = d.state ∨
      (d.state ≠ .unlocked ∧ s'.state = .done ∧ .onTimeout ∈ outputs (r ++ [⟨s, i, outs, s'⟩])) := by
    intro hsame
    rcases h.phase with hp | ⟨hne, hdone, ht⟩
    · exact .inl (hsame.trans hp)
    · exact .inr ⟨hne, hsame.trans hdone, by simp [ht]⟩
  obtain ⟨hrecv, hstate⟩ := h.at_handler hm hpc
  cases hmoved with
  | main hmove _ =>
    exact ⟨h.main hm hpc hmove, hkeep (hstate hmove)⟩
  | silence he | receive _ he => exact absurd he hrecv
  | expire _ | spurious _ => exact ⟨h.stage.beside rfl rfl rfl, hkeep rfl⟩
  | timeout _ =>
    refine ⟨h.stage.beside rfl rfl rfl, .inr ⟨?_, rfl, by simp⟩⟩
    intro hs
    exact hquiet hs (List.mem_singleton.mpr rfl)

/-- A trace that receives `m` and handles it to the end. -/
structure Handles (m : Msg) (r : List (Trans B)) (d' : Dev B) : Prop where
  first : ∃ x w, r = x :: w ∧ x.input = .recv (some m) ∧ ∀ y ∈ w, y.pre.pc ≠ .loopTest
  last : d'.pc = .loopTest

/-- However the interrupt comes in between. -/
theorem handled_run {d' : Dev B} (hm : Handled m) (hr : Run (step B devId) d r d')
    (hh : Handles m r d') (hquiet : d.state = .unlocked → .onTimeout ∉ outputs r) :
    ∃ outs, Effect devId d m d' outs ∧ (∀ e ∈ outs, e ∈ outputs r) ∧
      (d'.state = d.state ∨ .onTimeout ∈ outputs r) := by
  obtain ⟨⟨x, w, rfl, hx, hw⟩, hend⟩ := hh
  have hcut : Run (step B devId) d ([x] ++ w) d' := hr
  obtain ⟨u, hu, hrest⟩ := hcut.split
  rw [← List.nil_append [x]] at hu
  obtain ⟨hnil, hstep, rfl⟩ := Mealy.run_snoc_iff.mp hu
  obtain rfl := Mealy.run_nil_iff.mp hnil
  have hC : ∀ y ∈ w, y.pre.pc ≠ .loopTest ∧ (x.pre.state = .unlocked → .onTimeout ∉ y.outs) := by
    intro y hy
    refine ⟨hw y hy, fun hs ht => hquiet hs ?_⟩
    exact List.mem_flatMap.mpr ⟨y, List.mem_cons_of_mem x hy, ht⟩
  have hstart : Handling devId x.pre m [x] x.post := by
    have hmoved := step_moved hstep
    rw [hx] at hmoved
    generalize x.post = s, x.outs = outs at hmoved
    cases hmoved with
    | receive _ _ => exact ⟨.entered rfl rfl rfl, .inl rfl⟩
  have hhandling := hrest.invariant_where (I := fun w s => Handling devId x.pre m (x :: w) s) hC hstart
    fun _ hI hstep hC => handling_step hm hI hC.1 hC.2 (step_moved hstep)
  have hphase : d'.state = x.pre.state ∨ .onTimeout ∈ outputs (x :: w) :=
    hhandling.phase.imp_right fun h => h.2.2
  cases hhandling.stage with
  | entered hpc _ _ =>
    rw [hend] at hpc
    rcases handled_dispatch hm with ⟨data, hd⟩ | ⟨data, hd⟩ | hd <;> rw [hd] at hpc <;> cases hpc
  | passed hpc _ _ _ _ =>
    rw [hend] at hpc
    cases hpc
  | ended outs _ he ho => exact ⟨outs, he, ho, hphase⟩

end Handling

variable {devId : U8}

/-- Between two messages no cycle is open on STM32 and no erase is set up. -/
def Resting (f : Stm32Flash.Flash) : Prop := f.curPageAddr = 0 ∧ f.per = false

theorem resting_unlock {f : Stm32Flash.Flash} (h : Resting f) :
    Resting (Stm32Flash.cnFlashUnlock f).2 := by
  have hkey : ∀ (g : Stm32Flash.Flash) k, Resting g → Resting (g.writeKEYR k) := by
    intro g k hg
    unfold Stm32Flash.Flash.writeKEYR
    split <;> exact hg
  simp only [Stm32Flash.cnFlashUnlock]
  split <;> exact hkey _ _ (hkey _ _ h)

theorem resting_lock {f : Stm32Flash.Flash} (h : Resting f) :
    Resting (Stm32Flash.cnFlashLock f).2 := by
  by_cases hl : f.lock = .unlocked
  · rw [Stm32Flash.lock_unlocked hl]
    exact h
  · simp only [Stm32Flash.cnFlashLock, Stm32Flash.writeCR_locked hl]
    exact h

theorem resting_commit {p : Page stm32} {f f' : Stm32Flash.Flash} {outs : List Event}
    (halign : p.addr.toNat % 1024 = 0) (h : Resting f)
    (hc : commitWrites devId p f = some (f', outs)) : Resting f' := by
  by_cases hl : f.lock = .unlocked
  · by_cases hp : p.addr = 0
    · cases (stm32_commit_unselected hl hp).symm.trans hc
      exact ⟨rfl, rfl⟩
    · cases (stm32_commit hl hp halign).symm.trans hc
      exact ⟨rfl, rfl⟩
  · cases (stm32_commit_locked hl).symm.trans hc
    exact h

theorem resting_run {flash : ResetFlash stm32} {tr : List (Trans stm32)} {d : Dev stm32}
    (h : Run (step stm32 devId) (boot flash) tr d) : Resting d.flash := by
  have hreset : Stm32Flash.AtReset flash.1 := flash.2
  refine run_invariant (I := fun _ d => Resting d.flash) h ⟨hreset.curPageAddr, hreset.per⟩ ?_
  intro tr s i s' outs hrun hs hmoved
  cases moved_flash hmoved with
  | same hf =>
    rw [hf]
    exact hs
  | unlock hf =>
    rw [hf]
    exact resting_unlock hs
  | commit _ _ hc => exact resting_commit (selected_run (t := .stm32) hrun).aligned hs hc
  | lock _ hf =>
    rw [hf]
    exact resting_lock hs

/-- `curPageAddr`, and PG and PER of CR where there is one. -/
def driverState : (t : Target) → t.backend.flash.Flash → Nat × Bool × Bool
  | .stm32, f =>
    ((f : Stm32Flash.Flash).curPageAddr.toNat, Stm32Flash.Flash.pg f, Stm32Flash.Flash.per f)
  | .avr, f => ((f : AvrFlash.Flash).curPageAddr.toNat, false, false)

/-- Nothing has changed over a trace, but for the phase where the timeout came. -/
structure Unchanged (t : Target) (d : Dev t.backend) (r : List (Trans t.backend))
    (d' : Dev t.backend) : Prop where
  phase : d'.state = d.state ∨ .onTimeout ∈ outputs r
  selPage : d'.selPage = d.selPage
  contents : t.backend.flash.contents d'.flash = t.backend.flash.contents d.flash
  driver : driverState t d'.flash = driverState t d.flash

/-- No reply is sent; a SEEK, which is never answered, is refused for its length or
its offset. -/
def Refused (t : Target) (m : Msg) (r : List (Trans t.backend)) : Prop :=
  (∀ id data, .send id data ∉ outputs r) ∧
    (m.id &&& cnCanMsgidMask = cnCanMsgSeek →
      ¬ SeeksTo t.pageSize m.data)

/-- A refused commit in UNLOCKED leaves a trace. On STM32 no page is selected, and the
erase at zero and PG are not what they already were; on AVR the page is not the one
the driver already had. -/
def CommitTrace : (t : Target) → Page t.backend → t.backend.flash.Flash → Prop
  | .stm32, p, f => Stm32Flash.Flash.lock f = .unlocked ∧ p.addr = 0 ∧
    ¬ (Stm32Flash.Flash.pg f = true ∧ ∀ a < 1024, Stm32Flash.Flash.mem f a = 0xFF#8)
  | .avr, p, f => AvrFlash.Flash.curPageAddr f ≠ p.addr

theorem overlay_erased (m : Nat → U8) (size : Nat) :
    overlay m 0 (erased size) = m ↔ ∀ a < size, m a = 0xFF#8 := by
  constructor
  · intro h a ha
    have hlen : a < (erased size).length := by rwa [erased_length]
    have hin := overlay_inside m 0 (erased size) hlen
    rw [Nat.zero_add, h, erased_getElem] at hin
    exact hin
  · intro h
    funext a
    by_cases ha : a < size
    · have hlen : a < (erased size).length := by rwa [erased_length]
      have hin := overlay_inside m 0 (erased size) hlen
      rw [Nat.zero_add, erased_getElem] at hin
      rw [hin, h a ha]
    · exact overlay_above m _ (by rw [erased_length]; omega)

theorem stm32_commit_trace {p : Page stm32} {f f' : Stm32Flash.Flash} (hrest : Resting f)
    (halign : p.addr.toNat % 1024 = 0) (hc : commitWrites devId p f = some (f', [])) :
    f'.mem = f.mem ∧ driverState .stm32 f' = driverState .stm32 f ↔ ¬ CommitTrace .stm32 p f := by
  by_cases hl : f.lock = .unlocked
  · by_cases hp : p.addr = 0
    · cases (stm32_commit_unselected hl hp).symm.trans hc
      have hcur : f.curPageAddr.toNat = 0 := by rw [hrest.1]; rfl
      have htrace : CommitTrace .stm32 p f ↔
          ¬ (f.pg = true ∧ ∀ a < 1024, f.mem a = 0xFF#8) :=
        ⟨fun h => h.2.2, fun h => ⟨hl, hp, h⟩⟩
      rw [htrace, not_not, overlay_erased]
      simp only [driverState, hrest.2, hcur, Prod.mk.injEq, and_true]
      exact ⟨fun h => ⟨h.2.2.symm, h.1⟩, fun h => ⟨h.2, rfl, h.1.symm⟩⟩
    · cases (stm32_commit hl hp halign).symm.trans hc
  · cases (stm32_commit_locked hl).symm.trans hc
    exact iff_of_true ⟨rfl, rfl⟩ fun h => hl h.1

theorem avr_commit_trace {p : Page avr} {f f' : AvrFlash.Flash}
    (halign : p.addr.toNat % 128 = 0) (hc : commitWrites devId p f = some (f', [])) :
    f'.mem = f.mem ∧ driverState .avr f' = driverState .avr f ↔ ¬ CommitTrace .avr p f := by
  have hcur : f'.mem = f.mem ∧ f'.curPageAddr = p.addr := by
    by_cases hp : p.addr = 0
    · cases (avr_commit_zero hp).symm.trans hc
      exact ⟨rfl, hp.symm⟩
    · cases hl : f.flashLocked with
      | true =>
        obtain ⟨temp, hlocked⟩ : ∃ temp, commitWrites devId p f = some (_, []) :=
          avr_commit_locked hl hp halign
        cases hlocked.symm.trans hc
        exact ⟨rfl, rfl⟩
      | false => cases (avr_commit hl hp halign).symm.trans hc
  simp only [CommitTrace, driverState, hcur.1, hcur.2, true_and, Prod.mk.injEq, and_true, not_not]
  exact ⟨fun h => BitVec.eq_of_toNat_eq h.symm, fun h => congrArg BitVec.toNat h.symm⟩

theorem commit_trace {t : Target} {flash : ResetFlash t.backend} {tr : List (Trans t.backend)}
    {d : Dev t.backend} {f' : t.backend.flash.Flash}
    (h : Run (step t.backend devId) (boot flash) tr d)
    (hc : commitWrites devId d.selPage d.flash = some (f', [])) :
    t.backend.flash.contents f' = t.backend.flash.contents d.flash ∧
      driverState t f' = driverState t d.flash ↔ ¬ CommitTrace t d.selPage d.flash := by
  have halign := (selected_run h).aligned
  cases t with
  | stm32 => exact stm32_commit_trace (resting_run h) halign hc
  | avr => exact avr_commit_trace halign hc

theorem selectPage_refused {B : Backend} {data : List U8} {p : Page B}
    (h : (selectPage devId data p).2 = []) : (selectPage devId data p).1 = p := by
  unfold selectPage at h ⊢
  dsimp only at h ⊢
  split_ifs at h ⊢
  all_goals rfl

theorem dispatch_seek {m : Msg} {data : List U8} (h : dispatch m = .seek data) :
    m.id &&& cnCanMsgidMask = cnCanMsgSeek ∧ m.data = data := by
  refine ⟨dispatch_handles (by rw [h]; rfl), ?_⟩
  unfold dispatch at h
  dsimp only at h
  split_ifs at h
  exact Pc.seek.inj h

/-- What is sent is a reply. -/
theorem commitWrites_silent {B : Backend} {p : Page B} {f f' : B.flash.Flash} {outs : List Event}
    (h : commitWrites devId p f = some (f', outs)) (hno : ∀ id data, .send id data ∉ outs) :
    outs = [] := by
  cases commitWrites_outs h with
  | inl houts => exact houts
  | inr houts =>
    rw [houts] at hno
    exact absurd (List.mem_singleton.mpr rfl) (hno _ _)

theorem selectPage_silent {B : Backend} {data : List U8} {p : Page B}
    (hno : ∀ id bytes, .send id bytes ∉ (selectPage devId data p).2) :
    (selectPage devId data p).2 = [] := by
  unfold selectPage at hno ⊢
  dsimp only at hno ⊢
  split_ifs at hno ⊢
  · exact absurd (List.mem_singleton.mpr rfl) (hno _ _)
  · rfl
  · rfl

/-- A refused SELECT_PAGE, SEEK or COMMIT_WRITES changes nothing, except for a commit in
UNLOCKED that leaves its trace in the driver. -/
theorem refused_unchanged_iff (t : Target) (devId : U8) (flash : ResetFlash t.backend)
    {tr r : List (Trans t.backend)} {d d' : Dev t.backend} {m : Msg}
    (h : Run (step t.backend devId) (boot flash) tr d) (hpc : d.pc = .recv) (hm : Handled m)
    (hr : Run (step t.backend devId) d r d') (hh : Handles m r d') (href : Refused t m r) :
    Unchanged t d r d' ↔ ¬ (m.id &&& cnCanMsgidMask = cnCanMsgCommitWrites ∧
      d.state = .unlocked ∧ CommitTrace t d.selPage d.flash) := by
  have hquiet : d.state = .unlocked → .onTimeout ∉ outputs r := by
    intro hs
    have ho := (timerPhase_run h).past (by simp [hpc]) (by simp [hpc, hs, Running])
    exact ho.no_timeout hr
  obtain ⟨outs, heffect, hemits, hphase⟩ := handled_run hm hr hh hquiet
  have hno : ∀ id data, .send id data ∉ outs := fun id data hs => href.1 id data (hemits _ hs)
  cases heffect with
  | selectPage data hd hpage hflash =>
    rw [selectPage_refused (selectPage_silent hno)] at hpage
    have hkind : m.id &&& cnCanMsgidMask = cnCanMsgSelectPage := (dispatch_selectPage hd).1
    refine iff_of_true ⟨hphase, hpage, by rw [hflash], by rw [hflash]⟩ ?_
    rintro ⟨hcommit, _⟩
    rw [hkind] at hcommit
    exact absurd hcommit (by decide)
  | seek data hd hpage hflash =>
    obtain ⟨hkind, rfl⟩ := dispatch_seek hd
    rw [seek_outside (href.2 hkind)] at hpage
    refine iff_of_true ⟨hphase, hpage, by rw [hflash], by rw [hflash]⟩ ?_
    rintro ⟨hcommit, _⟩
    rw [hkind] at hcommit
    exact absurd hcommit (by decide)
  | commitRefuse _ hs hpage hflash =>
    exact iff_of_true ⟨hphase, hpage, by rw [hflash], by rw [hflash]⟩ fun hc => hs hc.2.1
  | commit _ hd hs hpage hc =>
    have hkind : m.id &&& cnCanMsgidMask = cnCanMsgCommitWrites :=
      dispatch_handles (by rw [hd]; rfl)
    rw [commitWrites_silent hc hno] at hc
    have htrace := commit_trace h hc
    constructor
    · rintro hsame ⟨_, _, hleft⟩
      exact htrace.mp ⟨hsame.contents, hsame.driver⟩ hleft
    · intro hclean
      have hkeep := htrace.mpr fun hleft => hclean ⟨hkind, hs, hleft⟩
      exact ⟨hphase, hpage, hkeep.1, hkeep.2⟩

theorem step_receive {B : Backend} {d : Dev B} (m : Msg) (hpc : d.pc = .recv) :
    step B devId d (.recv (some m)) = some ({ d with pc := dispatch m }, []) := by
  simp [step, hpc]

/-- A run up to the arrival of `m`, and its handling from there. -/
theorem handled_session {B : Backend} (devId : U8) (flash : ResetFlash B) (before : List Input) (m : Msg)
    (steps : Nat) (p : Dev B → Dev B → Bool)
    (h : (Mealy.exec (step B devId) (boot flash) before).any (fun a =>
      decide (a.2.pc = .recv) &&
      (Mealy.exec (step B devId) { a.2 with pc := dispatch m } (List.replicate steps .main)).any
        fun b => decide ((∀ y ∈ b.1, y.pre.pc ≠ .loopTest) ∧ b.2.pc = .loopTest ∧
          outputs b.1 = []) && p a.2 b.2) = true) :
    ∃ tr r d d', Run (step B devId) (boot flash) tr d ∧ d.pc = .recv ∧
      Run (step B devId) d r d' ∧ Handles m r d' ∧ outputs r = [] ∧ p d d' = true := by
  obtain ⟨tr, d, hrun, hp⟩ := Mealy.run_of_exec_any _ h
  obtain ⟨hpc, hp⟩ := (Bool.and_eq_true _ _).mp hp
  have hstep : step B devId d _ = some _ := step_receive m (of_decide_eq_true hpc)
  obtain ⟨w, d', hrest, hp⟩ := Mealy.run_of_exec_any _ hp
  obtain ⟨hw, hp⟩ := (Bool.and_eq_true _ _).mp hp
  obtain ⟨hloop, hend, houts⟩ := of_decide_eq_true hw
  refine ⟨tr, _, d, d', hrun, of_decide_eq_true hpc, (Run.single hstep).append hrest,
    ⟨⟨_, w, rfl, rfl, hloop⟩, hend⟩, ?_, hp⟩
  rw [List.singleton_append, Mealy.outputs_cons, houts]
  rfl

theorem refused_of_silent {t : Target} {m : Msg} {r : List (Trans t.backend)} (h : outputs r = [])
    (hseek : m.id &&& cnCanMsgidMask = cnCanMsgSeek →
      ¬ SeeksTo t.pageSize m.data) : Refused t m r := by
  refine ⟨fun id data hs => ?_, hseek⟩
  rw [h] at hs
  cases hs

/-- A SEEK behind the page. -/
theorem refused_unchanged_seek : ∃ (tr r : List (Trans stm32)) (d d' : Dev stm32),
    Run (step Target.stm32.backend 42#8) (boot stm32Fresh) tr d ∧
      Run (step Target.stm32.backend 42#8) d r d' ∧ Unchanged .stm32 d r d' := by
  obtain ⟨tr, r, d, d', hrun, hpc, hr, hh, hsilent, _⟩ :=
    handled_session (B := stm32) 42#8 stm32Fresh [.main, .main, .main]
      (commandAt cnCanMsgSeek 42#8 0x400#32) 1 (fun _ _ => true) (by decide +kernel)
  have hiff := refused_unchanged_iff .stm32 42#8 stm32Fresh hrun hpc (.inr (.inl (by decide))) hr hh
    (refused_of_silent hsilent fun _ => by decide)
  exact ⟨tr, r, d, d', hrun, hr, hiff.mpr fun hc => absurd hc.1 (by decide)⟩

/-- With no page selected the refused commit has set PG. -/
theorem refused_changes : ¬ ∀ (t : Target) (devId : U8) (flash : ResetFlash t.backend)
    (tr r : List (Trans t.backend)) (d d' : Dev t.backend) (m : Msg),
    Run (step t.backend devId) (boot flash) tr d → d.pc = .recv → Handled m →
    Run (step t.backend devId) d r d' → Handles m r d' → Refused t m r →
    Unchanged t d r d' := by
  intro hclaim
  obtain ⟨tr, r, d, d', hrun, hpc, hr, hh, hsilent, hp⟩ :=
    handled_session (B := stm32) 42#8 stm32Fresh
      ([.main, .main] ++ handling (command cnCanMsgProgReq 42#8) 4
        ++ handling (command cnCanMsgUnlock 42#8) 5 ++ [.main])
      (command cnCanMsgCommitWrites 42#8) 2
      (fun d d' => decide (driverState .stm32 d'.flash ≠ driverState .stm32 d.flash))
      (by decide +kernel)
  have hsame := hclaim .stm32 42#8 stm32Fresh tr r d d' _ hrun hpc (.inr (.inr (by decide))) hr hh
    (refused_of_silent hsilent fun hseek => absurd hseek (by decide))
  exact of_decide_eq_true hp hsame.driver

end CANnuccia.Pump

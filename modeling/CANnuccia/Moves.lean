import CANnuccia.Pump

/-!
# What a step can do

`Move` lists the steps of `main`, one constructor a branch, and `Moved` those of
the device. Every invariant of the pump is proved by cases on these two.
-/
namespace CANnuccia.Pump

open Util CanMsgs
open Mealy (Machine Transition Run outputs)

variable {B : Backend} {devId : U8}

inductive Move (devId : U8) (c : Core B) : Core B → List Event → Prop where
  | timerStart : c.pc = .timerStart → Move devId c { c with pc := .stateIdle } []
  | stateIdle : c.pc = .stateIdle → Move devId c { c with state := .idle, pc := .loopTest } []
  | loopOn : c.pc = .loopTest → c.state ≠ .done → Move devId c { c with pc := .recv } []
  | loopExit : c.pc = .loopTest → c.state = .done → Move devId c { c with pc := .flashLock } []
  | progReqIdle : c.pc = .progReqTest → c.state = .idle → Move devId c { c with pc := .progReqStop } []
  | progReqAgain : c.pc = .progReqTest → c.state ≠ .idle →
      Move devId c { c with pc := .progReqResp } []
  | progReqStop : c.pc = .progReqStop → Move devId c { c with pc := .progReqLocked } [.cnTimerStop]
  | progReqLocked : c.pc = .progReqLocked →
      Move devId c { c with state := .locked, pc := .progReqResp } []
  | progReqResp : c.pc = .progReqResp →
      Move devId c { c with pc := .loopTest } [reply devId cnCanMsgProgReqResp (progReqStats B)]
  | unlockPass : c.pc = .unlockTest → c.state ≠ .idle →
      Move devId c { c with pc := .unlockIsLocked } []
  | unlockIdle : c.pc = .unlockTest → c.state = .idle → Move devId c { c with pc := .loopTest } []
  | unlockFirst : c.pc = .unlockIsLocked → c.state = .locked →
      Move devId c { c with pc := .unlockCall } []
  | unlockAgain : c.pc = .unlockIsLocked → c.state ≠ .locked →
      Move devId c { c with pc := .unlockSet } []
  | unlockTrue : c.pc = .unlockCall → (B.flash.cnFlashUnlock c.flash).1 = true →
      Move devId c { c with flash := (B.flash.cnFlashUnlock c.flash).2, pc := .unlockSet }
        [.cnFlashUnlock true]
  | unlockFalse : c.pc = .unlockCall → (B.flash.cnFlashUnlock c.flash).1 = false →
      Move devId c { c with flash := (B.flash.cnFlashUnlock c.flash).2, pc := .loopTest }
        [.cnFlashUnlock false]
  | unlockSet : c.pc = .unlockSet → Move devId c { c with state := .unlocked, pc := .unlockReply } []
  | unlockReply : c.pc = .unlockReply →
      Move devId c { c with pc := .loopTest } [reply devId cnCanMsgUnlocked []]
  | selectPage (data : List U8) : c.pc = .selectPage data →
      Move devId c { c with selPage := (selectPage devId data c.selPage).1, pc := .loopTest }
        (selectPage devId data c.selPage).2
  | seek (data : List U8) : c.pc = .seek data →
      Move devId c { c with selPage := seek data c.selPage, pc := .loopTest } []
  | write (data : List U8) : c.pc = .write data →
      Move devId c { c with selPage := write data c.selPage, pc := .loopTest } []
  | checkWrites : c.pc = .checkWrites →
      Move devId c { c with pc := .loopTest } (checkWrites devId c.selPage)
  | commitPass : c.pc = .commitTest → c.state = .unlocked →
      Move devId c { c with pc := .commitWrites } []
  | commitRefuse : c.pc = .commitTest → c.state ≠ .unlocked →
      Move devId c { c with pc := .loopTest } []
  | commitWrites (flash : B.flash.Flash) (outs : List Event) : c.pc = .commitWrites →
      commitWrites devId c.selPage c.flash = some (flash, outs) →
      Move devId c { c with flash := flash, pc := .loopTest } outs
  | progDone : c.pc = .progDone →
      Move devId c { c with pc := .progDoneSet } [reply devId cnCanMsgProgDoneAck []]
  | progDoneSet : c.pc = .progDoneSet → Move devId c { c with state := .done, pc := .loopTest } []
  | flashLock : c.pc = .flashLock →
      Move devId c { c with flash := (B.flash.cnFlashLock c.flash).2, pc := .jump } []

theorem rank_locked (s : State) : s.rank ≥ State.locked.rank ↔ s ≠ .idle := by
  cases s <;> simp [State.rank]

/-- Every step of `main` is on the list. -/
theorem mainStep_move {c c' : Core B} {outs : List Event}
    (h : mainStep devId c = some (c', outs)) : Move devId c c' outs := by
  obtain ⟨pc, state, page, flash⟩ := c
  cases pc with
  | recv | jump => cases h
  | timerStart => cases h; exact .timerStart rfl
  | stateIdle => cases h; exact .stateIdle rfl
  | loopTest =>
    by_cases hs : state = .done
    · subst hs; cases h; exact .loopExit rfl rfl
    · rw [mainStep, if_pos hs] at h; cases h; exact .loopOn rfl hs
  | progReqTest =>
    by_cases hs : state = .idle
    · subst hs; cases h; exact .progReqIdle rfl rfl
    · rw [mainStep, if_neg hs] at h; cases h; exact .progReqAgain rfl hs
  | progReqStop => cases h; exact .progReqStop rfl
  | progReqLocked => cases h; exact .progReqLocked rfl
  | progReqResp => cases h; exact .progReqResp rfl
  | unlockTest =>
    by_cases hs : state = .idle
    · subst hs; cases h; exact .unlockIdle rfl rfl
    · rw [mainStep, if_pos ((rank_locked state).mpr hs)] at h; cases h; exact .unlockPass rfl hs
  | unlockIsLocked =>
    by_cases hs : state = .locked
    · subst hs; cases h; exact .unlockFirst rfl rfl
    · rw [mainStep, if_neg hs] at h; cases h; exact .unlockAgain rfl hs
  | unlockCall =>
    cases hu : (B.flash.cnFlashUnlock flash).1 with
    | true => simp only [mainStep, hu] at h; cases h; exact .unlockTrue rfl hu
    | false => simp only [mainStep, hu] at h; cases h; exact .unlockFalse rfl hu
  | unlockSet => cases h; exact .unlockSet rfl
  | unlockReply => cases h; exact .unlockReply rfl
  | selectPage data => cases h; exact .selectPage data rfl
  | seek data => cases h; exact .seek data rfl
  | write data => cases h; exact .write data rfl
  | checkWrites => cases h; exact .checkWrites rfl
  | commitTest =>
    by_cases hs : state = .unlocked
    · subst hs; cases h; exact .commitPass rfl rfl
    · rw [mainStep, if_neg hs] at h; cases h; exact .commitRefuse rfl hs
  | commitWrites =>
    simp only [mainStep, Option.bind_eq_bind, Option.bind_eq_some_iff, Prod.exists,
      Option.some.injEq, Prod.mk.injEq] at h
    obtain ⟨flash', outs', hc, rfl, rfl⟩ := h
    exact .commitWrites _ _ rfl hc
  | progDone => cases h; exact .progDone rfl
  | progDoneSet => cases h; exact .progDoneSet rfl
  | flashLock => cases h; exact .flashLock rfl

inductive Moved (devId : U8) (d : Dev B) : Input → Dev B → List Event → Prop where
  | main {c : Core B} {timer : B.timer.Timer} {outs : List Event} :
      Move devId d.toCore c outs → callTimer d.pc d.timer = some timer →
      Moved devId d .main ⟨c, timer⟩ outs
  | silence : d.pc = .recv → Moved devId d (.recv none) { d with pc := .loopTest } []
  | receive (m : Msg) : d.pc = .recv → Moved devId d (.recv (some m)) { d with pc := dispatch m } []
  | expire {timer : B.timer.Timer} : B.timer.expire d.timer = some timer →
      Moved devId d .expire { d with timer := timer } []
  | timeout {timer : B.timer.Timer} : B.timer.irq d.timer = some (timer, some .onTimeout) →
      Moved devId d .irq { d with timer := timer, state := .done } [.onTimeout]
  | spurious {timer : B.timer.Timer} : B.timer.irq d.timer = some (timer, none) →
      Moved devId d .irq { d with timer := timer } []

theorem step_moved {d d' : Dev B} {i : Input} {outs : List Event}
    (h : step B devId d i = some (d', outs)) : Moved devId d i d' outs := by
  cases i with
  | main =>
    simp only [step, Option.bind_eq_bind, Option.bind_eq_some_iff, Prod.exists, Option.some.injEq,
      Prod.mk.injEq] at h
    obtain ⟨c, o, hc, timer, ht, rfl, rfl⟩ := h
    exact .main (mainStep_move hc) ht
  | recv m =>
    simp only [step] at h
    split at h
    · rename_i hpc
      cases m with
      | none => cases h; exact .silence hpc
      | some m => cases h; exact .receive m hpc
    · cases h
  | expire =>
    simp only [step, Option.map_eq_some_iff, Prod.mk.injEq] at h
    obtain ⟨timer, ht, rfl, rfl⟩ := h
    exact .expire ht
  | irq =>
    simp only [step, Option.bind_eq_bind, Option.bind_eq_some_iff, Prod.exists] at h
    obtain ⟨timer, f, ht, hf⟩ := h
    cases f with
    | none => cases hf; exact .spurious ht
    | some f => cases f; cases hf; exact .timeout ht

section Runs

variable {flash : ResetFlash B} {tr : List (Trans B)} {d : Dev B}
variable {I : List (Trans B) → Dev B → Prop}

/-- The invariants of the pump's runs, by what a step can do. -/
theorem run_invariant_where {C : Trans B → Prop} (h : Run (step B devId) (boot flash) tr d)
    (hC : ∀ x ∈ tr, C x) (start : I [] (boot flash))
    (keep : ∀ {tr d i d' outs}, Run (step B devId) (boot flash) tr d → I tr d →
      Moved devId d i d' outs → C ⟨d, i, outs, d'⟩ → I (tr ++ [⟨d, i, outs, d'⟩]) d') : I tr d :=
  h.invariant_where hC start fun hrun hI hstep => keep hrun hI (step_moved hstep)

theorem run_invariant (h : Run (step B devId) (boot flash) tr d) (start : I [] (boot flash))
    (keep : ∀ {tr d i d' outs}, Run (step B devId) (boot flash) tr d → I tr d →
      Moved devId d i d' outs → I (tr ++ [⟨d, i, outs, d'⟩]) d') : I tr d :=
  h.invariant start fun hrun hI hstep => keep hrun hI (step_moved hstep)

end Runs

variable {d d' : Dev B} {i : Input} {outs : List Event}

/-- Where the `switch` can lead. -/
def Pc.entry : Pc → Bool
  | .loopTest | .progReqTest | .unlockTest | .selectPage _ | .seek _ | .write _ | .checkWrites
  | .commitTest | .progDone => true
  | _ => false

theorem dispatch_entry (m : Msg) : (dispatch m).entry = true := by
  unfold dispatch
  dsimp only
  split_ifs <;> rfl

theorem move_started {c c' : Core B} (h : Move devId c c' outs) : c'.pc ≠ .timerStart := by
  cases h <;> simp

def committed (devId : U8) (p : Page B) : Event :=
  reply devId cnCanMsgWritesCommitted (cnWriteU32LE (p.addr.setWidth 32))

theorem commitWrites_unbegun {p : Page B} {f f₁ : B.flash.Flash}
    (hbegin : B.flash.cnFlashBeginWrite p.addr f = (false, f₁)) :
    commitWrites devId p f = some (f₁, []) := by
  simp only [commitWrites, hbegin]

theorem commitWrites_done {p : Page B} {f f₁ f₂ f₃ : B.flash.Flash} {n : BitVec B.w}
    (hbegin : B.flash.cnFlashBeginWrite p.addr f = (true, f₁))
    (hfill : B.flash.cnFlashFill 0 B.cnFlashPageSize p.data f₁ = some (n, f₂))
    (hend : B.flash.cnFlashEndWrite f₂ = (true, f₃)) :
    commitWrites devId p f = some (f₃, [committed devId p]) := by
  simp only [commitWrites, hbegin, hfill, hend, committed]

theorem commitWrites_unended {p : Page B} {f f₁ f₂ f₃ : B.flash.Flash} {n : BitVec B.w}
    (hbegin : B.flash.cnFlashBeginWrite p.addr f = (true, f₁))
    (hfill : B.flash.cnFlashFill 0 B.cnFlashPageSize p.data f₁ = some (n, f₂))
    (hend : B.flash.cnFlashEndWrite f₂ = (false, f₃)) :
    commitWrites devId p f = some (f₃, []) := by
  simp only [commitWrites, hbegin, hfill, hend]

/-- How far a commit can get. -/
inductive Committing (devId : U8) (p : Page B) (f f' : B.flash.Flash) : List Event → Prop where
  | unbegun : B.flash.cnFlashBeginWrite p.addr f = (false, f') → Committing devId p f f' []
  | unended {f₁ f₂ : B.flash.Flash} {n : BitVec B.w} :
      B.flash.cnFlashBeginWrite p.addr f = (true, f₁) →
      B.flash.cnFlashFill 0 B.cnFlashPageSize p.data f₁ = some (n, f₂) →
      B.flash.cnFlashEndWrite f₂ = (false, f') → Committing devId p f f' []
  | ended {f₁ f₂ : B.flash.Flash} {n : BitVec B.w} :
      B.flash.cnFlashBeginWrite p.addr f = (true, f₁) →
      B.flash.cnFlashFill 0 B.cnFlashPageSize p.data f₁ = some (n, f₂) →
      B.flash.cnFlashEndWrite f₂ = (true, f') → Committing devId p f f' [committed devId p]

theorem commitWrites_cases {p : Page B} {f f' : B.flash.Flash}
    (h : commitWrites devId p f = some (f', outs)) : Committing devId p f f' outs := by
  unfold commitWrites at h
  split at h
  · rename_i f₁ hbegin
    cases h
    exact .unbegun hbegin
  · rename_i f₁ hbegin
    split at h
    · cases h
    · rename_i n f₂ hfill
      split at h
      · rename_i f₃ hend
        cases h
        exact .unended hbegin hfill hend
      · rename_i f₃ hend
        cases h
        exact .ended hbegin hfill hend

theorem commitWrites_outs {p : Page B} {f f' : B.flash.Flash}
    (h : commitWrites devId p f = some (f', outs)) : outs = [] ∨ outs = [committed devId p] := by
  cases commitWrites_cases h with
  | unbegun _ | unended _ _ _ => exact .inl rfl
  | ended _ _ _ => exact .inr rfl

theorem selectPage_outs {data : List U8} {p : Page B} {e : Event}
    (h : e ∈ (selectPage devId data p).2) : ∃ bytes, e = reply devId cnCanMsgPageSelected bytes := by
  unfold selectPage at h
  dsimp only at h
  split_ifs at h
  · exact ⟨_, List.mem_singleton.mp h⟩
  all_goals cases h

/-- The kind of message a step of `main` may send. -/
def Pc.sends : Pc → Option U32
  | .progReqResp => some cnCanMsgProgReqResp
  | .unlockReply => some cnCanMsgUnlocked
  | .selectPage _ => some cnCanMsgPageSelected
  | .checkWrites => some cnCanMsgWritesChecked
  | .commitWrites => some cnCanMsgWritesCommitted
  | .progDone => some cnCanMsgProgDoneAck
  | _ => none

theorem sends_kind {pc : Pc} {k : U32} (h : pc.sends = some k) : k &&& cnCanMsgidMask = k := by
  cases pc <;> simp_all only [Pc.sends, reduceCtorEq, Option.some.injEq] <;> subst h <;> decide

theorem move_reply {c c' : Core B} {kind : U32} {data : List U8} (h : Move devId c c' outs)
    (hk : kind &&& cnCanMsgidMask = kind) (hr : reply devId kind data ∈ outs) :
    c.pc.sends = some kind := by
  have hkind : ∀ {k bytes}, c.pc.sends = some k → reply devId kind data = reply devId k bytes →
      c.pc.sends = some kind := by
    intro k bytes hs he
    rw [reply, reply, Event.send.injEq] at he
    have hmask : k &&& cnCanMsgidMask = kind &&& cnCanMsgidMask := by
      rw [← devMask_kind k devId, ← devMask_kind kind devId, he.1]
    rw [hs, ← sends_kind hs, hmask, hk]
  cases h with
  | progReqResp hpc | unlockReply hpc | checkWrites hpc | progDone hpc =>
    exact hkind (by rw [hpc]; rfl) (List.mem_singleton.mp hr)
  | selectPage data hpc =>
    obtain ⟨bytes, hb⟩ := selectPage_outs hr
    exact hkind (by rw [hpc]; rfl) hb
  | commitWrites _ _ hpc hc =>
    rcases commitWrites_outs hc with rfl | rfl
    · cases hr
    · exact hkind (by rw [hpc]; rfl) (List.mem_singleton.mp hr)
  | _ => simp [reply] at hr

/-- A reply is sent by the one step of `main` that sends its kind. -/
theorem moved_reply {kind : U32} {data : List U8} (h : Moved devId d i d' outs)
    (hk : kind &&& cnCanMsgidMask = kind) (hr : reply devId kind data ∈ outs) :
    i = .main ∧ d.pc.sends = some kind := by
  cases h with
  | main hm _ => exact ⟨rfl, move_reply hm hk hr⟩
  | _ => simp [reply] at hr

/-- Each kind of reply is sent in one place. -/
theorem sends_place {pc pc' : Pc} (h : pc.sends = pc'.sends) (hsends : pc'.sends.isSome = true)
    (hdata : ∀ data, pc' ≠ .selectPage data) : pc = pc' := by
  cases pc' with
  | selectPage data => exact absurd rfl (hdata data)
  | progReqResp | unlockReply | checkWrites | commitWrites | progDone =>
    cases pc <;> simp_all [Pc.sends, cnCanMsgProgReqResp, cnCanMsgUnlocked, cnCanMsgPageSelected,
      cnCanMsgWritesChecked, cnCanMsgWritesCommitted, cnCanMsgProgDoneAck]
  | _ => cases hsends

/-- Only the interrupt runs the timeout function. -/
theorem moved_onTimeout (h : Moved devId d i d' outs) (ht : .onTimeout ∈ outs) : i = .irq := by
  cases h with
  | main hm _ =>
    cases hm with
    | selectPage data =>
      obtain ⟨bytes, hb⟩ := selectPage_outs ht
      cases hb
    | commitWrites _ _ _ hc =>
      rcases commitWrites_outs hc with rfl | rfl <;> simp [committed, reply] at ht
    | _ => simp [reply, checkWrites] at ht
  | silence | receive | expire => cases ht
  | timeout | spurious => rfl

/-- `cnFlashUnlock` is called in one place. -/
theorem moved_unlockTrue (h : Moved devId d i d' outs) (hu : .cnFlashUnlock true ∈ outs) :
    d.pc = .unlockCall ∧ d'.flash = (B.flash.cnFlashUnlock d.flash).2 := by
  cases h with
  | main hm _ =>
    cases hm with
    | unlockTrue hpc _ => exact ⟨hpc, rfl⟩
    | selectPage data =>
      obtain ⟨bytes, hb⟩ := selectPage_outs hu
      cases hb
    | commitWrites _ _ _ hc =>
      rcases commitWrites_outs hc with rfl | rfl <;> simp [committed, reply] at hu
    | _ => simp [reply, checkWrites] at hu
  | _ => simp at hu

/-- The steps that change the flash driver or the controller. -/
inductive FlashMoved (devId : U8) (d : Dev B) (i : Input) (d' : Dev B) (outs : List Event) : Prop
  where
  | same : d'.flash = d.flash → FlashMoved devId d i d' outs
  | unlock : d'.flash = (B.flash.cnFlashUnlock d.flash).2 → FlashMoved devId d i d' outs
  | commit : d.pc = .commitWrites → i = .main →
      commitWrites devId d.selPage d.flash = some (d'.flash, outs) → FlashMoved devId d i d' outs
  | lock : d'.pc = .jump → d'.flash = (B.flash.cnFlashLock d.flash).2 → FlashMoved devId d i d' outs

theorem moved_flash (h : Moved devId d i d' outs) : FlashMoved devId d i d' outs := by
  cases h with
  | main hm _ =>
    cases hm with
    | unlockTrue _ _ | unlockFalse _ _ => exact .unlock rfl
    | commitWrites _ _ hpc hc => exact .commit hpc rfl hc
    | flashLock _ => exact .lock rfl rfl
    | _ => exact .same rfl
  | _ => exact .same rfl

theorem step_commitWrites {f : B.flash.Flash} (hpc : d.pc = .commitWrites)
    (hc : commitWrites devId d.selPage d.flash = some (f, outs)) :
    step B devId d .main = some ({ d with flash := f, pc := .loopTest }, outs) := by
  obtain ⟨⟨pc, state, page, flash⟩, timer⟩ := d
  simp only at hpc hc
  subst hpc
  simp only [step, mainStep, hc, callTimer, Option.bind_eq_bind, Option.bind_some]

theorem moved_commitWrites (h : Moved devId d .main d' outs) (hpc : d.pc = .commitWrites) :
    commitWrites devId d.selPage d.flash = some (d'.flash, outs) := by
  cases h with
  | main hm _ => cases hm <;> simp_all

theorem moved_jump (h : Moved devId d i d' outs) (hj : d.pc = .jump) : d'.pc = .jump := by
  cases h with
  | main hm _ => cases hm <;> simp_all
  | silence hpc | receive _ hpc => rw [hj] at hpc; cases hpc
  | expire _ | timeout _ | spurious _ => exact hj

/-- The kind of message a handler's program counter belongs to. -/
def Pc.handles : Pc → Option U32
  | .progReqTest | .progReqStop | .progReqLocked | .progReqResp => some cnCanMsgProgReq
  | .unlockTest | .unlockIsLocked | .unlockCall | .unlockSet | .unlockReply => some cnCanMsgUnlock
  | .selectPage _ => some cnCanMsgSelectPage
  | .seek _ => some cnCanMsgSeek
  | .write _ => some cnCanMsgWrite
  | .checkWrites => some cnCanMsgCheckWrites
  | .commitTest | .commitWrites => some cnCanMsgCommitWrites
  | .progDone | .progDoneSet => some cnCanMsgProgDone
  | _ => none

theorem dispatch_handles {m : Msg} {kind : U32} (h : (dispatch m).handles = some kind) :
    m.id &&& cnCanMsgidMask = kind := by
  unfold dispatch at h
  dsimp only at h
  split_ifs at h <;> simp_all [Pc.handles]

theorem dispatch_selectPage {m : Msg} {data : List U8} (h : dispatch m = .selectPage data) :
    m.id &&& cnCanMsgidMask = cnCanMsgSelectPage ∧ m.data = data := by
  refine ⟨dispatch_handles (by rw [h]; rfl), ?_⟩
  unfold dispatch at h
  dsimp only at h
  split_ifs at h
  exact Pc.selectPage.inj h

theorem move_handles {c c' : Core B} {kind : U32} (h : Move devId c c' outs)
    (hk : c'.pc.handles = some kind) : c.pc.handles = some kind := by
  cases h <;> simp_all [Pc.handles]

/-- The last message received is of this kind. -/
def LastReceived (kind : U32) (tr : List (Trans B)) : Prop :=
  ∃ l t r m, tr = l ++ t :: r ∧ t.input = .recv (some m) ∧ m.id &&& cnCanMsgidMask = kind ∧
    ∀ u ∈ r, ∀ m, u.input ≠ .recv m

theorem LastReceived.snoc {kind : U32} {tr : List (Trans B)} {t : Trans B}
    (h : LastReceived kind tr) (ht : ∀ m, t.input ≠ .recv m) : LastReceived kind (tr ++ [t]) := by
  obtain ⟨l, u, r, m, rfl, hu, hm, hr⟩ := h
  refine ⟨l, u, r ++ [t], m, by simp, hu, hm, ?_⟩
  intro v hv
  cases List.mem_append.mp hv with
  | inl hv => exact hr v hv
  | inr hv =>
    rw [List.mem_singleton.mp hv]
    exact ht

/-- A handler runs for the last message received, which is of its kind. -/
theorem handles_received {flash : ResetFlash B} {tr : List (Trans B)} {kind : U32}
    (h : Run (step B devId) (boot flash) tr d) (hk : d.pc.handles = some kind) :
    LastReceived kind tr := by
  refine run_invariant (I := fun tr d => ∀ kind, d.pc.handles = some kind → LastReceived kind tr)
    h (by simp [boot, Pc.handles]) ?_ kind hk
  intro tr s i s' outs _ ih hmoved kind hk
  cases hmoved with
  | main hm _ => exact (ih kind (move_handles hm hk)).snoc (by simp)
  | silence _ => cases hk
  | receive m _ => exact ⟨tr, _, [], m, rfl, rfl, dispatch_handles hk, by simp⟩
  | expire _ | timeout _ | spurious _ => exact (ih kind hk).snoc (by simp)

end CANnuccia.Pump

import CANnuccia.Buffer
import CANnuccia.Handlers
import CANnuccia.Session

/-!
# From one page to the next

SELECT_PAGE resets neither the head nor the buffer. So a page is programmed with its
own bytes exactly if the messages since its selection seek before they write and then
write the whole page.
-/
namespace CANnuccia.Pump

open Util CanMsgs Overlay
open Mealy (Machine Transition Run outputs)

variable {t : Target} {devId : U8} {flash : ResetFlash t.backend} {p : BitVec t.backend.w}
variable {phase : State} {ms : List Msg} {d : Dev t.backend}

/-- A SELECT_PAGE of `p` was acknowledged in `phase`, and `ms` has been received since. -/
def Episode (devId : U8) (flash : ResetFlash t.backend) (p : BitVec t.backend.w) (phase : State)
    (ms : List Msg) (d : Dev t.backend) : Prop :=
  ∃ l x r, Run (step t.backend devId) (boot flash) (l ++ x :: r) d ∧ Accepted devId p x ∧
    x.post.state = phase ∧ received r = ms

/-- A COMMIT_WRITES of `p` is acknowledged and leaves these bytes in the page. -/
def Commits (devId : U8) (p : BitVec t.backend.w) (d : Dev t.backend) (bytes : List U8) : Prop :=
  ∃ d' outs, step t.backend devId d .main = some (d', outs) ∧
    reply devId cnCanMsgWritesCommitted (cnWriteU32LE (p.setWidth 32)) ∈ outs ∧
    flashPage t d'.flash (pageStart t p) = bytes

/-- Any two runs in which `p` was acknowledged in the same phase and `ms` received since
program the same bytes, and their first WRITE since lands at the same position. -/
structure Leakless (t : Target) (devId : U8) (p : BitVec t.backend.w) (ms : List Msg) : Prop where
  bytes : ∀ (flash : ResetFlash t.backend) phase d₁ d₂ b₁ b₂, Episode devId flash p phase ms d₁ →
    Episode devId flash p phase ms d₂ → Commits devId p d₁ b₁ → Commits devId p d₂ b₂ → b₁ = b₂
  head : ∀ l w rest, ms = l ++ w :: rest → IsWrite w → (∀ k ∈ l, ¬ IsWrite k) →
    ∀ (flash : ResetFlash t.backend) phase d₁ d₂, Episode devId flash p phase l d₁ →
      Episode devId flash p phase l d₂ → d₁.pc = .recv → d₂.pc = .recv →
      d₁.selPage.writeOffset = d₂.selPage.writeOffset

/-- A SEEK comes before every WRITE, and the WRITEs store at every position. -/
def Fresh (t : Target) (ms : List Msg) : Prop :=
  seekFirst t.pageSize ms = true ∧ ∀ i < t.pageSize, i ∈ stored t.pageSize 0 ms

theorem widen_injective {a b : BitVec t.backend.w} (h : a.setWidth 32 = b.setWidth 32) : a = b := by
  have hnat := congrArg BitVec.toNat h
  rw [toNat_addr, toNat_addr] at hnat
  exact BitVec.eq_of_toNat_eq hnat

theorem accepted_post {x : Trans t.backend} (h : Accepted devId p x)
    (hstep : step t.backend devId x.pre x.input = some (x.post, x.outs)) :
    x.post.pc = .loopTest ∧ x.post.selPage.addr = p := by
  obtain ⟨⟨data, hpc⟩, hi, _, houts⟩ := h
  rw [hi, step_selectPage hpc, Option.some.injEq, Prod.mk.injEq] at hstep
  obtain ⟨hpost, hreply⟩ := hstep
  rw [← hpost]
  refine ⟨rfl, widen_injective ?_⟩
  rw [houts] at hreply
  unfold selectPage at hreply ⊢
  dsimp only at hreply ⊢
  split_ifs at hreply ⊢
  exact cnWriteU32LE_injective (reply_injective (List.cons.inj hreply).1)

/-- The buffer is what `ms` has made of some buffer with `p` selected. -/
theorem Episode.page (h : Episode devId flash p phase ms d) :
    ∃ q : Page t.backend, q.addr = p ∧ effect devId d.pc d.selPage = handleAll devId q ms := by
  obtain ⟨l, x, r, hrun, hacc, _, rfl⟩ := h
  have hcut : Run (step t.backend devId) (boot flash) ((l ++ [x]) ++ r) d := by simpa using hrun
  obtain ⟨u, hu, hrest⟩ := hcut.split
  obtain ⟨_, hstep, rfl⟩ := Mealy.run_snoc_iff.mp hu
  obtain ⟨hpc, haddr⟩ := accepted_post hacc hstep
  refine ⟨x.post.selPage, haddr, ?_⟩
  rw [effect_run hrest, hpc]
  rfl

theorem Episode.aligned (h : Episode devId flash p phase ms d) :
    d.selPage.addr.toNat % t.pageSize = 0 := by
  obtain ⟨l, x, r, hrun, _⟩ := h
  exact (selected_run hrun).aligned

/-- An acknowledged commit of `p` leaves the buffer in the page. -/
theorem Commits.page {bytes : List U8} (halign : d.selPage.addr.toNat % t.pageSize = 0)
    (h : Commits devId p d bytes) : d.pc = .commitWrites ∧ d.selPage.addr = p ∧ p ≠ 0 ∧
      bytes = d.selPage.writes.toList := by
  obtain ⟨d', outs, hstep, hr, rfl⟩ := h
  have hmoved := step_moved hstep
  have hpc : d.pc = .commitWrites := sends_place (moved_reply hmoved (by decide) hr).2 rfl (by simp)
  have hc := moved_commitWrites hmoved hpc
  have haddr : d.selPage.addr = p := (widen_injective (committed_addr hc hr)).symm
  have hne := List.ne_nil_of_mem hr
  have hpage := committed_page halign hc hne
  rw [haddr] at hpage
  exact ⟨hpc, haddr, by rw [← haddr]; exact (commit_written halign hc hne).1, hpage⟩

/-- Buffers with the same bytes. -/
theorem writes_ext {q q' : Page t.backend} (h : ∀ i < t.pageSize, q'.byte i = q.byte i) :
    q'.writes.toList = q.writes.toList := by
  apply List.ext_getElem?
  intro i
  have hlen : q.writes.toList.length = t.pageSize := Vector.length_toList
  have hlen' : q'.writes.toList.length = t.pageSize := Vector.length_toList
  by_cases hi : i < t.pageSize
  · exact h i hi
  · rw [List.getElem?_eq_none (by omega), List.getElem?_eq_none (by omega)]

/-- The selected page does not depend on the buffer. -/
theorem handleAll_addr {B : Backend} (ms : List Msg) : ∀ {q q' : Page B}, q'.addr = q.addr →
    (handleAll devId q' ms).addr = (handleAll devId q ms).addr := by
  induction ms with
  | nil =>
    intro q q' h
    exact h
  | cons m ms ih =>
    intro q q' h
    refine ih ?_
    unfold handle
    cases dispatch m with
    | selectPage data =>
      unfold effect selectPage
      dsimp only
      split_ifs <;> simp [h]
    | seek data => rw [effect, effect, seek_addr, seek_addr, h]
    | write data => rw [effect, effect, write_addr, write_addr, h]
    | _ => exact h

theorem fresh_leakless (h : Fresh t ms) : Leakless t devId p ms where
  bytes := by
    intro flash phase d₁ d₂ b₁ b₂ h₁ h₂ hc₁ hc₂
    obtain ⟨hpc₁, _, _, rfl⟩ := hc₁.page h₁.aligned
    obtain ⟨hpc₂, _, _, rfl⟩ := hc₂.page h₂.aligned
    obtain ⟨q₁, _, hq₁⟩ := h₁.page
    obtain ⟨q₂, _, hq₂⟩ := h₂.page
    rw [hpc₁] at hq₁
    rw [hpc₂] at hq₂
    have hpage₁ : d₁.selPage = handleAll devId q₁ ms := hq₁
    have hpage₂ : d₂.selPage = handleAll devId q₂ ms := hq₂
    rw [hpage₁, hpage₂]
    exact writes_ext fun i hi => seekFirst_same ms h.1 (h.2 i hi)
  head := by
    rintro l w rest rfl hw hl flash phase d₁ d₂ h₁ h₂ hpc₁ hpc₂
    obtain ⟨q₁, _, hq₁⟩ := h₁.page
    obtain ⟨q₂, _, hq₂⟩ := h₂.page
    rw [hpc₁] at hq₁
    rw [hpc₂] at hq₂
    have hpage₁ : d₁.selPage = handleAll devId q₁ l := hq₁
    have hpage₂ : d₂.selPage = handleAll devId q₂ l := hq₂
    rw [hpage₁, hpage₂]
    exact seekFirst_head l h.1 hw hl

/-- After a PROG_DONE `main` leaves its loop. -/
def Ending {B : Backend} (d : Dev B) : Prop :=
  d.pc = .progDone ∨ d.pc = .progDoneSet ∨ d.pc = .flashLock ∨ d.pc = .jump ∨
    (d.pc = .loopTest ∧ d.state = .done)

structure Fetched {B : Backend} (tr : List (Trans B)) (d : Dev B) : Prop where
  last : d.pc.handles = some cnCanMsgCommitWrites →
    ∃ l m, received tr = l ++ [m] ∧ dispatch m = .commitTest
  done : (∃ m ∈ received tr, dispatch m = .progDone) → Ending d

theorem fetched_moved {B : Backend} {tr : List (Trans B)} {d d' : Dev B} {i : Input}
    {outs : List Event} (h : Fetched tr d) (hm : Moved devId d i d' outs) :
    Fetched (tr ++ [⟨d, i, outs, d'⟩]) d' := by
  cases hm with
  | main hmove _ =>
    refine ⟨fun hk => ?_, fun hd => ?_⟩
    · simpa using h.last (move_handles hmove hk)
    · have hend := h.done (by simpa using hd)
      cases hmove <;> simp_all [Ending]
  | silence hpc =>
    refine ⟨by simp [Pc.handles], fun hd => ?_⟩
    have hend := h.done (by simpa using hd)
    simp_all [Ending]
  | receive m hpc =>
    have hentry := dispatch_entry m
    refine ⟨fun hk => ⟨received tr, m, by simp, ?_⟩, ?_⟩
    · generalize dispatch m = pc at *
      cases pc <;> simp_all [Pc.entry, Pc.handles] <;> cases hk
    · rintro ⟨k, hk, hd⟩
      rw [received_snoc, List.mem_append] at hk
      cases hk with
      | inl hk =>
        have hend := h.done ⟨k, hk, hd⟩
        simp_all [Ending]
      | inr hk =>
        simp only [message_recv, Option.toList_some, List.mem_singleton] at hk
        exact .inl (by rw [← hk]; exact hd)
  | expire _ | spurious _ =>
    exact ⟨fun hk => by simpa using h.last hk, fun hd => h.done (by simpa using hd)⟩
  | timeout _ =>
    refine ⟨fun hk => by simpa using h.last hk, fun hd => ?_⟩
    have hend := h.done (by simpa using hd)
    exact hend.imp_right (.imp_right (.imp_right (.imp_right fun hl => ⟨hl.1, rfl⟩)))

/-- Before a commit is made, a COMMIT_WRITES came last and no PROG_DONE at all. -/
theorem Episode.fetched (h : Episode devId flash p phase ms d) (hpc : d.pc = .commitWrites) :
    (∃ l m, ms = l ++ [m] ∧ dispatch m = .commitTest) ∧ ∀ m ∈ ms, dispatch m ≠ .progDone := by
  obtain ⟨l, x, r, hrun, hacc, _, rfl⟩ := h
  have hcut : Run (step t.backend devId) (boot flash) ((l ++ [x]) ++ r) d := by simpa using hrun
  obtain ⟨u, hu, hrest⟩ := hcut.split
  obtain ⟨_, hstep, rfl⟩ := Mealy.run_snoc_iff.mp hu
  have hf : Fetched r d := by
    refine hrest.invariant ⟨?_, by simp [received]⟩ ?_
    · rw [(accepted_post hacc hstep).1]
      intro hk
      cases hk
    · intro tr s i s' outs _ ih hs
      exact fetched_moved ih (step_moved hs)
  refine ⟨hf.last (by rw [hpc]; rfl), fun m hm hd => ?_⟩
  have hend := hf.done ⟨m, hm, hd⟩
  simp [Ending, hpc] at hend

section Handler

variable {B : Backend} {c c' : Core B} {pc : Pc} {outs : List Event}

theorem Handler.page (h : Handler devId c pc c' outs) :
    c'.selPage = effect devId pc c.selPage := by
  cases h <;> rfl

theorem Handler.unlocked (h : Handler devId c pc c' outs) (hs : c.state = .unlocked)
    (hpc : pc ≠ .progDone) : c'.state = .unlocked := by
  cases h <;> simp_all

end Handler

/-- Without a PROG_DONE an unlocked device handles all messages and stays unlocked. -/
structure ServesAll (devId : U8) (s : Served t.backend) (ms : List Msg) (c : Core t.backend) :
    Prop where
  served : ∃ o, serveAll devId s ms = some (c, o)
  settled : Settled c
  unlocked : c.state = .unlocked
  page : c.selPage = handleAll devId s.1.selPage ms
  alive : AliveFor devId s ms

theorem unlocked_serves (devId : U8) (ms : List Msg) : ∀ {s : Served t.backend}, Settled s.1 →
    s.1.state = .unlocked → (∀ m ∈ ms, dispatch m ≠ .progDone) → ∃ c, ServesAll devId s ms c := by
  induction ms with
  | nil =>
    intro s hs hu _
    exact ⟨s.1, ⟨s.2, rfl⟩, hs, hu, rfl, aliveFor_nil s⟩
  | cons m ms ih =>
    intro s hs hu hno
    have hd : s.1.state ≠ .done := by simp [hu]
    obtain ⟨hm, hms⟩ := List.forall_mem_cons.mp hno
    obtain ⟨c, o, hh⟩ : ∃ c o, Handler devId s.1 (dispatch m) c o := hs.serves m
    have hserve := hh.serve hs.pc
    obtain ⟨c', ⟨o', hall⟩, hs', hu', hpage, halive⟩ :=
      ih (s := (c, s.2 ++ o)) (hs.handler hd hh) (hh.unlocked hu hm) hms
    refine ⟨c', ⟨o', serveAll_step hserve hall⟩, hs', hu', ?_, ?_⟩
    · rw [hpage, hh.page]
      rfl
    · refine aliveFor_cons.mpr ⟨hd, fun s₁ hs₁ => ?_⟩
      rw [hserve, Option.some.injEq] at hs₁
      rw [← hs₁]
      exact halive

def fresh : (t : Target) → ResetFlash t.backend
  | .stm32 => stm32Fresh
  | .avr => avrFresh

theorem fresh_unlocks (t : Target) :
    ∃ f, t.backend.flash.cnFlashUnlock (fresh t).1 = (true, f) := by
  cases t <;> exact ⟨_, rfl⟩

/-- An unlocked device that has received what one likes. -/
theorem opening_serves (t : Target) (devId : U8) {front : List Msg}
    (hno : ∀ m ∈ front, dispatch m ≠ .progDone) :
    ∃ ms c o, serveAll devId (start (fresh t)) ms = some (c, o) ∧ Settled c ∧ c.state = .unlocked ∧
      c.selPage = handleAll devId Page.zero front ∧ AliveFor devId (start (fresh t)) ms := by
  obtain ⟨f, hf⟩ := fresh_unlocks t
  have hopen : serveAll devId (start (fresh t))
      [command cnCanMsgProgReq devId, command cnCanMsgUnlock devId] = _ :=
    serveAll_step serve_progReq (serveAll_step (serve_unlock hf) (serveAll_nil _))
  have halive : AliveFor devId (start (fresh t))
      ([command cnCanMsgProgReq devId] ++ [command cnCanMsgUnlock devId]) :=
    aliveFor_snoc _ (by simpa using master_kind (by decide)) (by simp [start])
  have hs := settled_serveAll _ (settled_start (fresh t)) halive hopen
  obtain ⟨c, ⟨o, hserve⟩, hs', hu, hpage, halive'⟩ := unlocked_serves devId front hs rfl hno
  refine ⟨_, c, o, serveAll_trans hopen hserve, hs', hu, hpage, ?_⟩
  refine aliveFor_append.mpr ⟨halive, fun s hs => ?_⟩
  cases hopen.symm.trans hs
  exact halive'

theorem Episode.snoc {i : Input} {d' : Dev t.backend} {outs : List Event}
    (h : Episode devId flash p phase ms d) (hstep : step t.backend devId d i = some (d', outs)) :
    Episode devId flash p phase (ms ++ i.message.toList) d' := by
  obtain ⟨l, x, r, hrun, hacc, hphase, rfl⟩ := h
  refine ⟨l, x, r ++ [⟨d, i, outs, d'⟩], ?_, hacc, hphase, received_snoc _⟩
  have hall := hrun.snoc hstep
  simpa using hall

/-- Whatever a device has received before, it can then select a page and receive `ms`. -/
theorem episode_exists (devId : U8) {front : List Msg} (halign : p.toNat % t.pageSize = 0)
    (hw : t.backend.flash.cnFlashPageWriteable p = true)
    (hfront : ∀ m ∈ front, dispatch m ≠ .progDone) (hms : ∀ m ∈ ms, dispatch m ≠ .progDone) :
    ∃ d, Episode devId (fresh t) p .unlocked ms d ∧ Settled d.toCore ∧ d.state = .unlocked ∧
      d.selPage = handleAll devId { handleAll devId Page.zero front with addr := p } ms := by
  obtain ⟨before, c, o, hserve, hs, hu, hpage, halive⟩ := opening_serves t devId hfront
  obtain ⟨tr, timer, hq, _⟩ := run_started hserve halive
  have hd : c.state ≠ .done := by simp [hu]
  have hrecv : step t.backend devId ⟨c, timer⟩ .main = _ := step_loopOn hs.pc hd timer
  have hselect := selectPage_self devId halign hw c.selPage
  have hdisp : step t.backend devId ⟨c.goto .recv, timer⟩
      (.recv (some (commandAt cnCanMsgSelectPage devId (p.setWidth 32)))) =
      some (⟨c.goto (.selectPage (cnWriteU32LE (p.setWidth 32))), timer⟩, []) := by
    rw [← (dispatch_master devId (cnWriteU32LE (p.setWidth 32)) (by simp)).2.2.1]
    rfl
  have hx : step t.backend devId ⟨c.goto (.selectPage (cnWriteU32LE (p.setWidth 32))), timer⟩ .main =
      some (⟨⟨.loopTest, c.state, { c.selPage with addr := p }, c.flash⟩, timer⟩,
        [reply devId cnCanMsgPageSelected (cnWriteU32LE (p.setWidth 32))]) := by
    rw [step_selectPage rfl]
    simp only [Core.goto]
    rw [hselect]
  have hbefore := ((hq.run.snoc hrecv).snoc hdisp).snoc hx
  have hs₁ : Settled (⟨.loopTest, c.state, { c.selPage with addr := p }, c.flash⟩ : Core t.backend) :=
    ⟨rfl, hs.locked, hs.unlocked, halign⟩
  obtain ⟨c', ⟨o', hserve'⟩, hs', hu', hpage', halive'⟩ :=
    unlocked_serves devId ms (s := (_, [])) hs₁ hu hms
  obtain ⟨r, timer', o'', hr, _, _⟩ := run_serveAll ms hserve' rfl halive' timer
  have hall := hbefore.append hr.run
  rw [List.append_assoc] at hall
  refine ⟨⟨c', timer'⟩, ⟨_, _, r, hall, ⟨⟨_, rfl⟩, rfl, hw, rfl⟩, hu, hr.messages⟩, hs', hu', ?_⟩
  rw [hpage', ← hpage]

/-- It can then wait for the next message. -/
theorem waiting_exists (devId : U8) {front : List Msg} (halign : p.toNat % t.pageSize = 0)
    (hw : t.backend.flash.cnFlashPageWriteable p = true)
    (hfront : ∀ m ∈ front, dispatch m ≠ .progDone) (hms : ∀ m ∈ ms, dispatch m ≠ .progDone) :
    ∃ d, Episode devId (fresh t) p .unlocked ms d ∧ d.pc = .recv ∧
      d.selPage = handleAll devId { handleAll devId Page.zero front with addr := p } ms := by
  obtain ⟨d, hd, hs, hu, hpage⟩ := episode_exists devId halign hw hfront hms
  have hstep : step t.backend devId d .main = _ := step_loopOn hs.pc (by simp [hu]) d.timer
  have hnext := hd.snoc hstep
  rw [message_main, Option.toList_none, List.append_nil] at hnext
  exact ⟨_, hnext, rfl, hpage⟩

theorem commit_open (devId : U8) {q : Page t.backend} {f : t.backend.flash.Flash} (hq : q.addr ≠ 0)
    (halign : q.addr.toNat % t.pageSize = 0) (hl : t.backend.flash.locked f = false) :
    ∃ f', commitWrites devId q f = some (f', [committed devId q]) := by
  cases t with
  | stm32 =>
    have hlock : Stm32Flash.Flash.lock f = .unlocked := by
      simpa [Target.backend, stm32, Stm32Flash.driver] using hl
    exact ⟨_, stm32_commit hlock hq halign⟩
  | avr => exact ⟨_, avr_commit hl hq halign⟩

/-- Or it can commit the page, if that is still selected. -/
theorem commit_exists (devId : U8) {front : List Msg} {m : Msg} (halign : p.toNat % t.pageSize = 0)
    (hw : t.backend.flash.cnFlashPageWriteable p = true) (hp : p ≠ 0)
    (hfront : ∀ m ∈ front, dispatch m ≠ .progDone) (hms : ∀ m ∈ ms, dispatch m ≠ .progDone)
    (hm : dispatch m = .commitTest)
    (haddr : (handleAll devId { handleAll devId Page.zero front with addr := p } ms).addr = p) :
    ∃ d, Episode devId (fresh t) p .unlocked (ms ++ [m]) d ∧ Commits devId p d
      (handleAll devId { handleAll devId Page.zero front with addr := p } ms).writes.toList := by
  obtain ⟨d, hd, hs, hu, hpage⟩ := episode_exists devId halign hw hfront hms
  have hrecv : step t.backend devId d .main = _ := step_loopOn hs.pc (by simp [hu]) d.timer
  have hdisp : step t.backend devId ⟨d.toCore.goto .recv, d.timer⟩ (.recv (some m)) =
      some (⟨d.toCore.goto .commitTest, d.timer⟩, []) := by
    rw [← hm]
    rfl
  have htest : step t.backend devId ⟨d.toCore.goto .commitTest, d.timer⟩ .main =
      some (⟨d.toCore.goto .commitWrites, d.timer⟩, []) := by
    simp [step, mainStep, callTimer, Core.goto, hu]
  have hd' := ((hd.snoc hrecv).snoc hdisp).snoc htest
  simp only [message_main, message_recv, Option.toList_none, Option.toList_some,
    List.append_nil] at hd'
  have haddr' : d.selPage.addr = p := by rw [hpage, haddr]
  obtain ⟨f', hcommit⟩ := commit_open devId (by rw [haddr']; exact hp)
    hs.aligned (hs.unlocked hu)
  have hstep : step t.backend devId ⟨d.toCore.goto .commitWrites, d.timer⟩ .main = _ :=
    step_commitWrites rfl hcommit
  refine ⟨_, hd', _, _, hstep, ?_, ?_⟩
  · rw [committed, haddr']
    exact List.mem_singleton.mpr rfl
  · have hbytes := committed_page hs.aligned hcommit (List.cons_ne_nil _ _)
    rw [haddr', hpage] at hbytes
    exact hbytes

theorem handle_write (q : Page t.backend) (c : Chunk) :
    handle devId q (writeMsg devId c) = write c.1 q := by
  rw [handle, dispatch_writeMsg]
  rfl

theorem handleAll_writes (chunks : List Chunk) (q : Page t.backend) :
    handleAll devId q (chunks.map (writeMsg devId)) =
      write (chunks.map Subtype.val).flatten q := by
  induction chunks generalizing q with
  | nil => rfl
  | cons c chunks ih =>
    rw [List.map_cons, handleAll_cons, handle_write, ih, List.map_cons, List.flatten_cons,
      write_append]

theorem pageSize_pos (t : Target) : 0 < t.pageSize := by
  cases t <;> decide

/-- One WRITE moves the head away from the start of the page. -/
theorem write_moves (t : Target) (devId : U8) :
    (handleAll devId (Page.zero : Page t.backend) [writeMsg devId ⟨[0], by simp⟩]).writeOffset ≠ 0 := by
  have hsize : 0 < t.backend.cnFlashPageSize.toNat := pageSize_pos t
  have hhead := (write_spec [0] (Page.zero : Page t.backend) (Nat.zero_le _)).2
  rw [handleAll_cons, handle_write, handleAll_nil]
  intro h
  have hzero : (0 : BitVec t.backend.w).toNat = 0 := BitVec.toNat_zero
  rw [h, hzero] at hhead
  simp [Page.zero] at hhead
  omega

/-- A page of ones, with the head at its start. -/
theorem write_fills (t : Target) (devId : U8) :
    ∃ front : List Msg, (∀ m ∈ front, dispatch m ≠ .progDone) ∧
      (handleAll devId (Page.zero : Page t.backend) front).writeOffset = 0 ∧
      ∀ i < t.pageSize, (handleAll devId (Page.zero : Page t.backend) front).byte i = some 1 := by
  let chunks : List Chunk := List.replicate t.pageSize ⟨[1], by simp⟩
  have hflat : (chunks.map Subtype.val).flatten = List.replicate t.pageSize 1 := by
    simp only [chunks, List.map_replicate, List.flatten_replicate_singleton]
  have hseek : dispatch (commandAt cnCanMsgSeek devId 0) = .seek (cnWriteU32LE 0) :=
    (dispatch_master devId (cnWriteU32LE 0) (by simp)).2.2.2.1
  have hpage : handleAll devId (Page.zero : Page t.backend)
      (chunks.map (writeMsg devId) ++ [commandAt cnCanMsgSeek devId 0]) =
      seek (cnWriteU32LE 0) (write (List.replicate t.pageSize 1) Page.zero) := by
    rw [handleAll_append, handleAll_writes, hflat, handleAll_cons, handleAll_nil, handle, hseek]
    rfl
  refine ⟨chunks.map (writeMsg devId) ++ [commandAt cnCanMsgSeek devId 0], ?_, ?_, ?_⟩
  · intro m hm hd
    cases List.mem_append.mp hm with
    | inl hm =>
      obtain ⟨c, _, rfl⟩ := List.mem_map.mp hm
      rw [dispatch_writeMsg] at hd
      cases hd
    | inr hm =>
      rw [List.mem_singleton.mp hm, hseek] at hd
      cases hd
  · rw [hpage]
    have hto : SeeksTo t.pageSize (cnWriteU32LE 0) := ⟨rfl, pageSize_pos t⟩
    exact BitVec.eq_of_toNat_eq ((seek_inside hto _).trans BitVec.toNat_zero.symm)
  · intro i hi
    have hbytes : (write (List.replicate t.pageSize 1) (Page.zero : Page t.backend)).writes.toList =
        List.replicate t.pageSize 1 := write_all BitVec.toNat_zero List.length_replicate
    rw [hpage, Page.byte, seek_writes, hbytes]
    exact List.getElem?_replicate_of_lt hi

theorem Episode.writeable (h : Episode devId flash p phase ms d) :
    t.backend.flash.cnFlashPageWriteable p = true := by
  obtain ⟨_, _, _, _, ⟨_, _, hw, _⟩, _⟩ := h
  exact hw

theorem leakless_seekFirst (h : Leakless t devId p ms) (halign : p.toNat % t.pageSize = 0)
    (hw : t.backend.flash.cnFlashPageWriteable p = true) (hno : ∀ m ∈ ms, dispatch m ≠ .progDone) :
    seekFirst t.pageSize ms = true := by
  by_contra hfirst
  obtain ⟨l, w, rest, rfl, hwrite, hl, hhead⟩ :=
    seekFirst_false devId ms (by simpa using hfirst)
  have hnone : ∀ m ∈ ([] : List Msg), dispatch m ≠ .progDone := by simp
  have hone : ∀ m ∈ [writeMsg devId ⟨[0], by simp⟩], dispatch m ≠ .progDone := by
    intro m hm hd
    rw [List.mem_singleton.mp hm, dispatch_writeMsg] at hd
    cases hd
  have hno' : ∀ k ∈ l, dispatch k ≠ .progDone := fun k hk => hno k (List.mem_append_left _ hk)
  obtain ⟨d₁, hd₁, hpc₁, hpage₁⟩ := waiting_exists devId halign hw hnone hno'
  obtain ⟨d₂, hd₂, hpc₂, hpage₂⟩ := waiting_exists devId halign hw hone hno'
  have hsame := h.head l w rest rfl hwrite hl _ _ d₁ d₂ hd₁ hd₂ hpc₁ hpc₂
  rw [hpage₁, hpage₂, hhead, hhead] at hsame
  exact write_moves t devId hsame.symm

theorem leakless_stored {m : Msg} (h : Leakless t devId p (ms ++ [m]))
    (halign : p.toNat % t.pageSize = 0) (hw : t.backend.flash.cnFlashPageWriteable p = true)
    (hp : p ≠ 0) (hno : ∀ m ∈ ms, dispatch m ≠ .progDone) (hm : dispatch m = .commitTest)
    (hstay : ∀ q : Page t.backend, q.addr = p → (handleAll devId q ms).addr = p) :
    ∀ i < t.pageSize, i ∈ stored t.pageSize 0 (ms ++ [m]) := by
  intro i hi
  by_contra hs
  have hnone : ∀ m ∈ ([] : List Msg), dispatch m ≠ .progDone := by simp
  obtain ⟨front, hfront, ho, hbyte⟩ := write_fills t devId
  obtain ⟨d₁, hd₁, hc₁⟩ := commit_exists devId halign hw hp hnone hno hm (hstay _ rfl)
  obtain ⟨d₂, hd₂, hc₂⟩ := commit_exists devId halign hw hp hfront hno hm (hstay _ rfl)
  have hsame := congrArg (·[i]?) (h.bytes _ _ d₁ d₂ _ _ hd₁ hd₂ hc₁ hc₂)
  have hkept : ∀ q : Page t.backend, q.writeOffset = 0 →
      (handleAll devId q ms).byte i = q.byte i := by
    intro q hzero
    have hnat : q.writeOffset.toNat = 0 := by rw [hzero]; exact BitVec.toNat_zero
    have hlast : handleAll devId q (ms ++ [m]) = handleAll devId q ms := by
      simp [handle, hm, effect]
    rw [← hlast]
    exact handleAll_kept _ (by omega) (by rw [hnat]; exact hs)
  have hzeros : ((Page.zero : Page t.backend).byte i) = some 0 := by
    have hlt : i < t.backend.cnFlashPageSize.toNat := hi
    simp [Page.byte, Page.zero, hlt]
  have hbytes : some (0 : U8) = some 1 := by
    rw [← hzeros, ← hbyte i hi]
    exact ((hkept _ rfl).symm.trans hsame).trans (hkept _ ho)
  cases hbytes

theorem leakless_fresh (h : Leakless t devId p ms) (hc : ∃ flash phase d bytes,
    Episode devId flash p phase ms d ∧ Commits devId p d bytes) : Fresh t ms := by
  obtain ⟨_, _, d, _, hd, hcommit⟩ := hc
  obtain ⟨hpc, haddr, hp, _⟩ := hcommit.page hd.aligned
  obtain ⟨⟨l, m, rfl, hm⟩, hno⟩ := hd.fetched hpc
  have halign := hd.aligned
  rw [haddr] at halign
  obtain ⟨q, hq, hpage⟩ := hd.page
  have hlast : d.selPage = handleAll devId q l := by
    rw [hpc, handleAll_append, handleAll_cons, handleAll_nil, handle, hm] at hpage
    exact hpage
  have hstay : ∀ q' : Page t.backend, q'.addr = p → (handleAll devId q' l).addr = p := by
    intro q' hq'
    rw [handleAll_addr l (hq'.trans hq.symm), ← hlast, haddr]
  refine ⟨leakless_seekFirst h halign hd.writeable hno, ?_⟩
  exact leakless_stored h halign hd.writeable hp
    (fun k hk => hno k (List.mem_append_left _ hk)) hm hstay

/-- Messages after which a page was committed leak nothing exactly if they seek first and
write the whole page. -/
theorem leakless_iff (t : Target) (devId : U8) (p : BitVec t.backend.w) {ms : List Msg}
    (hc : ∃ flash phase d bytes, Episode devId flash p phase ms d ∧ Commits devId p d bytes) :
    Leakless t devId p ms ↔ Fresh t ms :=
  ⟨fun h => leakless_fresh h hc, fresh_leakless⟩

instance (ms : List Msg) : Decidable (Fresh t ms) := inferInstanceAs (Decidable (_ ∧ _))

/-- Page 0x0080 is selected, and `ms` and a COMMIT_WRITES are received. -/
theorem committed_0080 {ms : List Msg} (hno : ∀ m ∈ ms, dispatch m ≠ .progDone)
    (haddr : (handleAll (B := avr) 42#8 { Page.zero with addr := 0x0080#16 } ms).addr = 0x0080#16) :
    ∃ flash phase d bytes, Episode (t := .avr) 42#8 flash 0x0080#16 phase
        (ms ++ [command cnCanMsgCommitWrites 42#8]) d ∧
      Commits (t := .avr) 42#8 0x0080#16 d bytes := by
  have hp : (0x0080#16 : U16) ≠ 0 := by decide
  obtain ⟨d, hd, hc⟩ := commit_exists (t := .avr) (p := 0x0080#16) 42#8 (by decide) (by decide) hp
    (m := command cnCanMsgCommitWrites 42#8) (List.forall_mem_nil _) hno (by decide) haddr
  exact ⟨_, _, d, _, hd, hc⟩

/-- A SEEK and a page of WRITEs. -/
theorem leakless_iff_full : Leakless .avr 42#8 0x0080#16
    (commandAt cnCanMsgSeek 42#8 0#32 ::
      List.replicate 16 (writeMsg 42#8 ⟨[1, 2, 3, 4, 5, 6, 7, 8], by decide⟩) ++
      [command cnCanMsgCommitWrites 42#8]) :=
  (leakless_iff .avr 42#8 0x0080#16 (committed_0080 (by decide) rfl)).mpr
    (by decide +kernel)

/-- One byte is written without a SEEK: where it lands, and what the rest of the page
becomes, is up to what was written to other pages. -/
theorem page_leaks : ¬ Leakless .avr 42#8 0x0080#16
    [writeMsg 42#8 ⟨[0xAB], by decide⟩, command cnCanMsgCommitWrites 42#8] := by
  intro h
  have hfresh := leakless_fresh h
    (@committed_0080 [writeMsg 42#8 ⟨[0xAB], by decide⟩] (by decide) rfl)
  exact absurd hfresh (by decide)

end CANnuccia.Pump

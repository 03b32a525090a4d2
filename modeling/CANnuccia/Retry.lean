import CANnuccia.Handlers

/-!
# Retries

A master that has lost a reply sends its message again. If the message is not a
WRITE or a PROG_DONE, the device handles it twice as it does once: it ends up in the
same state, but for the flash operations it has issued, and gives the same reply.
-/
namespace CANnuccia.Pump

open Util CanMsgs Overlay
open Mealy (Machine Transition Run outputs)

section Alike

variable {t : Target} {devId : U8}

/-- The drivers differ at most in the operations issued since reset. -/
def Alike : (t : Target) → (f g : t.backend.flash.Flash) → Prop
  | .stm32, f, g => ∃ ops, g = { (f : Stm32Flash.Flash) with ops := ops }
  | .avr, f, g => ∃ ops, g = { (f : AvrFlash.Flash) with ops := ops }

theorem Alike.refl (f : t.backend.flash.Flash) : Alike t f f := by
  cases t with
  | stm32 => exact ⟨Stm32Flash.Flash.ops f, rfl⟩
  | avr => exact ⟨AvrFlash.Flash.ops f, rfl⟩

theorem Alike.contents {f g : t.backend.flash.Flash} (h : Alike t f g) :
    t.backend.flash.contents g = t.backend.flash.contents f := by
  cases t <;> obtain ⟨ops, rfl⟩ := h <;> rfl

theorem Alike.locked {f g : t.backend.flash.Flash} (h : Alike t f g) :
    t.backend.flash.locked g = t.backend.flash.locked f := by
  cases t <;> obtain ⟨ops, rfl⟩ := h <;> rfl

/-- The operations issued play no part in the key lock. -/
theorem stm32_unlock_ops (f : Stm32Flash.Flash) (ops : List FlashOp) :
    (Stm32Flash.cnFlashUnlock { f with ops := ops }).1 = (Stm32Flash.cnFlashUnlock f).1 ∧
      (Stm32Flash.cnFlashUnlock { f with ops := ops }).2 =
        { (Stm32Flash.cnFlashUnlock f).2 with ops := ops } := by
  by_cases hl : f.lock = .locked
  · rw [Stm32Flash.unlock_locked hl, Stm32Flash.unlock_locked (f := { f with ops := ops }) hl]
    exact ⟨rfl, rfl⟩
  · rw [Stm32Flash.unlock_refuses hl, Stm32Flash.unlock_refuses (f := { f with ops := ops }) hl]
    exact ⟨rfl, rfl⟩

theorem stm32_unlock_again {f : Stm32Flash.Flash} (h : (Stm32Flash.cnFlashUnlock f).1 = false) :
    Stm32Flash.cnFlashUnlock (Stm32Flash.cnFlashUnlock f).2 =
      (false, (Stm32Flash.cnFlashUnlock f).2) := by
  by_cases hl : f.lock = .locked
  · rw [Stm32Flash.unlock_locked hl] at h
    cases h
  · rw [Stm32Flash.unlock_refuses hl]
    exact Stm32Flash.unlock_refuses (by simp)

/-- The keys work alike. -/
theorem Alike.unlock {f g : t.backend.flash.Flash} (h : Alike t f g) :
    (t.backend.flash.cnFlashUnlock g).1 = (t.backend.flash.cnFlashUnlock f).1 ∧
      Alike t (t.backend.flash.cnFlashUnlock f).2 (t.backend.flash.cnFlashUnlock g).2 := by
  cases t with
  | stm32 =>
    obtain ⟨ops, rfl⟩ := h
    have hops := stm32_unlock_ops f ops
    exact ⟨hops.1, ops, hops.2⟩
  | avr =>
    obtain ⟨ops, rfl⟩ := h
    exact ⟨rfl, ops, rfl⟩

/-- A failed unlock fails again and changes nothing more. -/
theorem unlock_refused_again {f : t.backend.flash.Flash}
    (h : (t.backend.flash.cnFlashUnlock f).1 = false) :
    t.backend.flash.cnFlashUnlock (t.backend.flash.cnFlashUnlock f).2 =
      (false, (t.backend.flash.cnFlashUnlock f).2) := by
  cases t with
  | stm32 => exact stm32_unlock_again h
  | avr => cases h

/-- Alike drivers commit alike. -/
theorem Alike.commit {p : Page t.backend} {f f' g : t.backend.flash.Flash} {outs : List Event}
    (halign : p.addr.toNat % t.pageSize = 0) (hl : t.backend.flash.locked f = false)
    (hc : commitWrites devId p f = some (f', outs)) (h : Alike t f g) :
    ∃ g', commitWrites devId p g = some (g', outs) ∧ Alike t f' g' := by
  cases t with
  | stm32 =>
    obtain ⟨ops, rfl⟩ := h
    have hlock : Stm32Flash.Flash.lock f = .unlocked := by
      simpa [Target.backend, stm32, Stm32Flash.driver] using hl
    by_cases hp : p.addr = 0
    · cases (stm32_commit_unselected hlock hp).symm.trans hc
      exact ⟨_, stm32_commit_unselected hlock hp, _, rfl⟩
    · cases (stm32_commit hlock hp halign).symm.trans hc
      exact ⟨_, stm32_commit hlock hp halign, _, rfl⟩
  | avr =>
    obtain ⟨ops, rfl⟩ := h
    by_cases hp : p.addr = 0
    · cases (avr_commit_zero hp).symm.trans hc
      exact ⟨_, avr_commit_zero hp, _, rfl⟩
    · cases (avr_commit hl hp halign).symm.trans hc
      exact ⟨_, avr_commit hl hp halign, _, rfl⟩

/-- A second cycle over the same page writes what is already there. -/
theorem commit_again {p : Page t.backend} {f f' : t.backend.flash.Flash} {outs : List Event}
    (halign : p.addr.toNat % t.pageSize = 0) (hl : t.backend.flash.locked f = false)
    (hc : commitWrites devId p f = some (f', outs)) :
    ∃ f'', commitWrites devId p f' = some (f'', outs) ∧ Alike t f' f'' := by
  cases t with
  | stm32 =>
    have hlock : Stm32Flash.Flash.lock f = .unlocked := by
      simpa [Target.backend, stm32, Stm32Flash.driver] using hl
    by_cases hp : p.addr = 0
    · cases (stm32_commit_unselected hlock hp).symm.trans hc
      refine ⟨_, stm32_commit_unselected rfl hp, ?_⟩
      simp only [overlay_overlay _ _ (le_refl _)]
      exact ⟨_, rfl⟩
    · cases (stm32_commit hlock hp halign).symm.trans hc
      refine ⟨_, stm32_commit rfl hp halign, ?_⟩
      simp only [overlay_overlay _ _ (le_refl _)]
      exact ⟨_, rfl⟩
  | avr =>
    by_cases hp : p.addr = 0
    · cases (avr_commit_zero hp).symm.trans hc
      exact ⟨_, avr_commit_zero hp, _, rfl⟩
    · cases (avr_commit hl hp halign).symm.trans hc
      refine ⟨_, avr_commit rfl hp halign, ?_⟩
      simp only [overlay_overlay _ _ (le_refl _)]
      exact ⟨_, rfl⟩

end Alike

section Same

variable {t : Target} {devId : U8} {c c' g : Core t.backend} {pc : Pc} {outs : List Event}

structure Same (c g : Core t.backend) : Prop where
  pc : g.pc = c.pc
  state : g.state = c.state
  selPage : g.selPage = c.selPage
  flash : Alike t c.flash g.flash

theorem Same.refl (c : Core t.backend) : Same c c := ⟨rfl, rfl, rfl, .refl _⟩

/-- Devices in the same state handle a message alike. -/
theorem Same.handler (hs : Settled c) (h : Handler devId c pc c' outs) (hg : Same c g) :
    ∃ g', Handler devId g pc g' outs ∧ Same c' g' := by
  obtain ⟨hpc, hstate, hpage, hflash⟩ := hg
  cases h with
  | progReqFirst hidle => exact ⟨_, .progReqFirst (hstate.trans hidle), hpc, rfl, hpage, hflash⟩
  | progReqAgain hne =>
    exact ⟨_, .progReqAgain (by rw [hstate]; exact hne), hpc, hstate, hpage, hflash⟩
  | unlockIdle hidle => exact ⟨_, .unlockIdle (hstate.trans hidle), hpc, hstate, hpage, hflash⟩
  | unlockTrue hlocked hu =>
    obtain ⟨hsame, halike⟩ := hflash.unlock
    exact ⟨_, .unlockTrue (hstate.trans hlocked) (hsame.trans hu), hpc, rfl, hpage, halike⟩
  | unlockFalse hlocked hu =>
    obtain ⟨hsame, halike⟩ := hflash.unlock
    exact ⟨_, .unlockFalse (hstate.trans hlocked) (hsame.trans hu), hpc, hstate, hpage, halike⟩
  | unlockAgain hunlocked =>
    exact ⟨_, .unlockAgain (by rw [hstate]; exact hunlocked), hpc, rfl, hpage, hflash⟩
  | selectPage data =>
    rw [← hpage]
    exact ⟨_, .selectPage data, hpc, hstate, rfl, hflash⟩
  | seek data =>
    rw [← hpage]
    exact ⟨_, .seek data, hpc, hstate, rfl, hflash⟩
  | write data =>
    rw [← hpage]
    exact ⟨_, .write data, hpc, hstate, rfl, hflash⟩
  | checkWrites =>
    rw [← hpage]
    exact ⟨_, .checkWrites, hpc, hstate, hpage, hflash⟩
  | commitRefuse hne =>
    exact ⟨_, .commitRefuse (by rw [hstate]; exact hne), hpc, hstate, hpage, hflash⟩
  | commit f o hunlocked hc =>
    obtain ⟨f', hc', halike⟩ := hflash.commit hs.aligned (hs.unlocked hunlocked) hc
    rw [← hpage] at hc'
    exact ⟨_, .commit f' _ (hstate.trans hunlocked) hc', hpc, hstate, hpage, halike⟩
  | progDone => exact ⟨_, .progDone, hpc, rfl, hpage, hflash⟩
  | unknown => exact ⟨_, .unknown, hpc, hstate, hpage, hflash⟩

def Event.isSend : Event → Bool
  | .send _ _ => true
  | _ => false

def replies (outs : List Event) : List Event := outs.filter Event.isSend

@[simp] theorem replies_append (l r : List Event) : replies (l ++ r) = replies l ++ replies r :=
  List.filter_append ..

def Retryable (m : Msg) : Prop :=
  m.id &&& cnCanMsgidMask ∈ [cnCanMsgProgReq, cnCanMsgUnlock, cnCanMsgSelectPage, cnCanMsgSeek,
    cnCanMsgCheckWrites, cnCanMsgCommitWrites]

instance (m : Msg) : Decidable (Retryable m) := inferInstanceAs (Decidable (_ ∈ _))

/-- Where such a message is handled. -/
def Pc.retryable : Pc → Bool
  | .progReqTest | .unlockTest | .selectPage _ | .seek _ | .checkWrites | .commitTest => true
  | _ => false

theorem retryable_dispatch {m : Msg} (h : Retryable m) : (dispatch m).retryable = true := by
  simp only [Retryable, List.mem_cons, List.not_mem_nil, or_false] at h
  unfold dispatch
  rcases h with h | h | h | h | h | h <;> rw [h] <;>
    simp [cnCanMsgProgReq, cnCanMsgUnlock, cnCanMsgSelectPage, cnCanMsgSeek, cnCanMsgWrite,
      cnCanMsgCheckWrites, cnCanMsgCommitWrites, Pc.retryable]

theorem selectPage_again {B : Backend} (data : List U8) (p : Page B) :
    selectPage devId data (selectPage devId data p).1 = selectPage devId data p := by
  unfold selectPage
  dsimp only
  split_ifs <;> rfl

theorem seek_again {B : Backend} (data : List U8) (p : Page B) :
    seek data (seek data p) = seek data p := by
  unfold seek
  dsimp only
  split_ifs <;> rfl

/-- Handled again, such a message finds the state it has left and gives the reply it gave. -/
theorem handler_again (hs : Settled c) (hpc : pc.retryable = true)
    (h : Handler devId c pc c' outs) :
    ∃ c'' outs', Handler devId c' pc c'' outs' ∧ Same c' c'' ∧ replies outs' = replies outs := by
  cases h with
  | progReqFirst _ => exact ⟨_, _, .progReqAgain (by simp), .refl _, rfl⟩
  | progReqAgain hne => exact ⟨_, _, .progReqAgain hne, .refl _, rfl⟩
  | unlockIdle hidle => exact ⟨_, _, .unlockIdle hidle, .refl _, rfl⟩
  | unlockTrue _ _ => exact ⟨_, _, .unlockAgain (.inl rfl), .refl _, rfl⟩
  | unlockFalse hlocked hu =>
    have hagain := unlock_refused_again hu
    refine ⟨_, _, .unlockFalse hlocked (congrArg Prod.fst hagain), ?_, rfl⟩
    rw [congrArg Prod.snd hagain]
    exact .refl _
  | unlockAgain _ => exact ⟨_, _, .unlockAgain (.inl rfl), .refl _, rfl⟩
  | selectPage data =>
    refine ⟨_, _, .selectPage data, ?_, ?_⟩
    · rw [selectPage_again]
      exact .refl _
    · rw [selectPage_again]
  | seek data =>
    refine ⟨_, _, .seek data, ?_, rfl⟩
    rw [seek_again]
    exact .refl _
  | checkWrites => exact ⟨_, _, .checkWrites, .refl _, rfl⟩
  | commitRefuse hne => exact ⟨_, _, .commitRefuse hne, .refl _, rfl⟩
  | commit f o hunlocked hc =>
    obtain ⟨f', hc', halike⟩ := commit_again hs.aligned (hs.unlocked hunlocked) hc
    exact ⟨_, _, .commit f' _ hunlocked hc', ⟨rfl, rfl, rfl, halike⟩, rfl⟩
  | write _ | progDone | unknown => cases hpc

/-- Such a message does not end the loop. -/
theorem handler_alive (hpc : pc.retryable = true) (hd : c.state ≠ .done)
    (h : Handler devId c pc c' outs) : c'.state ≠ .done := by
  cases h with
  | progReqFirst _ | unlockTrue _ _ | unlockAgain _ => simp
  | write _ | progDone | unknown => cases hpc
  | _ => exact hd

/-- Devices in the same state serve the same messages. -/
theorem Same.serveAll (ms : List Msg) : ∀ {s g s' : Served t.backend}, Settled s.1 →
    AliveFor devId s ms → Pump.serveAll devId s ms = some s' → Same s.1 g.1 →
    ∃ w g', s'.2 = s.2 ++ w ∧ Pump.serveAll devId g ms = some (g', g.2 ++ w) ∧ Same s'.1 g' ∧
      AliveFor devId g ms := by
  induction ms with
  | nil =>
    intro s g s' _ _ h hsame
    cases h
    exact ⟨[], g.1, by simp, by simp, hsame, aliveFor_nil g⟩
  | cons m ms ih =>
    intro s g s' hs halive h hsame
    obtain ⟨hd, halive⟩ := aliveFor_cons.mp halive
    rw [serveAll_cons, Option.bind_eq_some_iff] at h
    obtain ⟨s₁, hserve, hrest⟩ := h
    obtain ⟨c, o, hh, rfl⟩ := serve_handler hs.pc hserve
    obtain ⟨g₁, hg, hsame₁⟩ := hsame.handler hs hh
    have hserve' := hg.serve (hsame.pc.trans hs.pc)
    obtain ⟨w, g', hw, hrest', hsame', halive'⟩ :=
      ih (g := (g₁, g.2 ++ o)) (hs.handler hd hh) (halive _ hserve) hrest hsame₁
    refine ⟨o ++ w, g', by rw [hw, List.append_assoc], ?_, hsame', ?_⟩
    · rw [← List.append_assoc]
      exact serveAll_step hserve' hrest'
    · refine aliveFor_cons.mpr ⟨by rw [hsame.state]; exact hd, fun s₂ hs₂ => ?_⟩
      rw [hserve', Option.some.injEq] at hs₂
      rw [← hs₂]
      exact halive'

/-- A message in a list, served once and served twice. -/
theorem serveAll_again {s s' : Served t.backend} {l r : List Msg} {m : Msg} (hm : Retryable m)
    (hs : Settled s.1) (halive : AliveFor devId s (l ++ m :: r))
    (h : Pump.serveAll devId s (l ++ m :: r) = some s') :
    ∃ c c₁ g a b b' w, Pump.serveAll devId s l = some (c, a) ∧
      Pump.serveAll devId s (l ++ [m]) = some (c₁, a ++ b) ∧ s'.2 = a ++ b ++ w ∧
      Pump.serveAll devId s (l ++ m :: m :: r) = some (g, a ++ b ++ b' ++ w) ∧
      replies b' = replies b ∧ Same s'.1 g ∧ AliveFor devId s (l ++ m :: m :: r) := by
  obtain ⟨hl, hrest⟩ := aliveFor_append.mp halive
  rw [serveAll_append, Option.bind_eq_some_iff] at h
  obtain ⟨⟨c, a⟩, hfront, h⟩ := h
  have hsettled := settled_serveAll l hs hl hfront
  obtain ⟨hd, halive₁⟩ := aliveFor_cons.mp (hrest _ hfront)
  rw [serveAll_cons, Option.bind_eq_some_iff] at h
  obtain ⟨s₁, hserve, htail⟩ := h
  obtain ⟨c₁, b, hh, rfl⟩ := serve_handler hsettled.pc hserve
  have hsettled₁ := hsettled.handler hd hh
  obtain ⟨c₂, b', hh', hsame, hreply⟩ := handler_again hsettled (retryable_dispatch hm) hh
  have hserve' : serve devId (c₁, a ++ b) m = some (c₂, a ++ b ++ b') := hh'.serve hsettled₁.pc
  obtain ⟨w, g, hw, htail', hsame', halive₂⟩ :=
    hsame.serveAll r (g := (c₂, a ++ b ++ b')) hsettled₁ (halive₁ _ hserve) htail
  refine ⟨c, c₁, g, a, b, b', w, hfront, serveAll_trans hfront (serveAll_step hserve rfl), hw,
    serveAll_trans hfront (serveAll_step hserve (serveAll_step hserve' htail')), hreply, hsame', ?_⟩
  refine aliveFor_append.mpr ⟨hl, fun s₂ hs₂ => ?_⟩
  rw [hfront, Option.some.injEq] at hs₂
  rw [← hs₂]
  refine aliveFor_cons.mpr ⟨hd, fun s₃ hs₃ => ?_⟩
  rw [hserve, Option.some.injEq] at hs₃
  rw [← hs₃]
  refine aliveFor_cons.mpr ⟨handler_alive (retryable_dispatch hm) hd hh, fun s₄ hs₄ => ?_⟩
  rw [hserve', Option.some.injEq] at hs₄
  rw [← hs₄]
  exact halive₂

end Same

section Runs

variable {B : Backend} {devId : U8} {flash : ResetFlash B} {tr : List (Trans B)} {d : Dev B}

/-- A transition without the timeout function. -/
def Untimed (x : Trans B) : Prop := .onTimeout ∉ x.outs

theorem untimed_of (h : .onTimeout ∉ outputs tr) : ∀ x ∈ tr, Untimed x :=
  fun x hx ht => h (List.mem_flatMap.mpr ⟨x, hx, ht⟩)

/-- `main` waits for a message only in its loop. -/
theorem recv_alive (h : Run (step B devId) (boot flash) tr d) (hno : .onTimeout ∉ outputs tr) :
    d.pc = .recv → d.state ≠ .done := by
  refine run_invariant_where (I := fun _ d => d.pc = .recv → d.state ≠ .done) h (untimed_of hno)
    (by simp [boot]) ?_
  intro tr s i s' outs _ ih hm hC hpc
  cases hm with
  | main hmove _ => cases hmove <;> simp_all
  | silence _ => cases hpc
  | receive m _ =>
    have hentry := dispatch_entry m
    simp_all [Pc.entry]
  | expire _ | spurious _ => exact ih hpc
  | timeout _ => exact absurd (List.mem_singleton.mpr rfl) hC

/-- What a run has received, it received in its loop. -/
theorem alive_run (h : Run (step B devId) (boot flash) tr d) (hno : .onTimeout ∉ outputs tr) :
    AliveFor devId (start flash) (received tr) := by
  refine run_invariant_where (C := Untimed)
    (I := fun tr _ => .onTimeout ∉ outputs tr → AliveFor devId (start flash) (received tr)) h
    (untimed_of hno) (fun _ => aliveFor_nil _) ?_ hno
  intro tr s i s' outs hrun ih hm hC hno
  rw [Mealy.outputs_append, List.mem_append, not_or] at hno
  have halive := ih hno.1
  rw [received_snoc]
  cases hm with
  | receive m hpc =>
    refine aliveFor_append.mpr ⟨halive, fun s₁ hs₁ => ?_⟩
    have hcomputed := (computes_run hrun hno.1).ended (by simp [hpc, Pc.left]) (by simp [hpc])
    rw [hcomputed, Option.some.injEq] at hs₁
    rw [← hs₁]
    exact aliveFor_cons.mpr ⟨recv_alive hrun hno.1 hpc, fun s₂ _ => aliveFor_nil s₂⟩
  | _ => simpa using halive

/-- At the jump the device is as it was at the end of its loop, but for the lock. -/
theorem jump_left (h : Run (step B devId) (boot flash) tr d) (hno : .onTimeout ∉ outputs tr) :
    d.pc = .jump → ∃ c, serveAll devId (start flash) (received tr) = some (c, outputs tr) ∧
      c.state = .done ∧ d.state = c.state ∧ d.selPage = c.selPage ∧
      d.flash = (B.flash.cnFlashLock c.flash).2 := by
  refine run_invariant_where (C := Untimed) (I := fun tr d => .onTimeout ∉ outputs tr →
    d.pc = .jump → ∃ c, serveAll devId (start flash) (received tr) = some (c, outputs tr) ∧
      c.state = .done ∧ d.state = c.state ∧ d.selPage = c.selPage ∧
      d.flash = (B.flash.cnFlashLock c.flash).2) h
    (untimed_of hno) (by simp [boot]) ?_ hno
  intro tr s i s' outs hrun ih hm hC hno hpc
  rw [Mealy.outputs_append, List.mem_append, not_or] at hno
  rw [received_snoc]
  cases hm with
  | main hmove _ =>
    cases hmove with
    | flashLock hlock =>
      have hcomputed := (computes_run hrun hno.1).ended (by simp [hlock, Pc.left]) (by simp [hlock])
      have hdone := (computes_run hrun hno.1).leaving hlock
      exact ⟨s.toCore.goto .loopTest, by simpa using hcomputed, hdone, rfl, rfl, rfl⟩
    | _ => cases hpc
  | silence _ => cases hpc
  | receive m _ =>
    have hentry := dispatch_entry m
    simp_all [Pc.entry]
  | expire _ | spurious _ => simpa using ih hno.1 hpc
  | timeout _ => exact absurd (List.mem_singleton.mpr rfl) hC

/-- A run without a timeout has received `ms`, handled them and replied `out`. -/
def Serving (devId : U8) (flash : ResetFlash B) (ms : List Msg) (out : List Event) (d : Dev B) :
    Prop :=
  ∃ tr, Run (step B devId) (boot flash) tr d ∧ .onTimeout ∉ outputs tr ∧ received tr = ms ∧
    replies (outputs tr) = out ∧ d.pc.left = 0

/-- The state such a run ends in. -/
structure Left (c : Core B) (d : Dev B) : Prop where
  state : d.state = c.state
  selPage : d.selPage = c.selPage
  inside : d.pc ≠ .jump → d.flash = c.flash
  outside : d.pc = .jump → c.state = .done ∧ d.flash = (B.flash.cnFlashLock c.flash).2

theorem Serving.left {ms : List Msg} {out : List Event} (h : Serving devId flash ms out d) :
    ∃ c a, serveAll devId (start flash) ms = some (c, a) ∧ replies a = out ∧ Left c d ∧
      AliveFor devId (start flash) ms := by
  obtain ⟨tr, hrun, hno, rfl, hout, hl⟩ := h
  have halive := alive_run hrun hno
  by_cases hpc : d.pc = .jump
  · obtain ⟨c, hc, hdone, hstate, hpage, hflash⟩ := jump_left hrun hno hpc
    exact ⟨c, _, hc, hout, ⟨hstate, hpage, fun hj => absurd hpc hj, fun _ => ⟨hdone, hflash⟩⟩, halive⟩
  · have hcomputed := (computes_run hrun hno).ended hl hpc
    exact ⟨_, _, hcomputed, hout, ⟨rfl, rfl, fun _ => rfl, fun hj => absurd hj hpc⟩, halive⟩

theorem serving_started {ms : List Msg} {s : Served B} (h : serveAll devId (start flash) ms = some s)
    (halive : AliveFor devId (start flash) ms) :
    ∃ d, Serving devId flash ms (replies s.2) d ∧ d.pc = .loopTest := by
  obtain ⟨tr, t, hq, hpc⟩ := run_started h halive
  refine ⟨⟨s.1, t⟩, ⟨tr, hq.run, hq.no_timeout, hq.messages, by rw [hq.emits], ?_⟩, hpc⟩
  rw [hpc]
  rfl

theorem serving_left {ms : List Msg} {s : Served B} (h : serveAll devId (start flash) ms = some s)
    (hdone : s.1.state = .done) (halive : AliveFor devId (start flash) ms) :
    ∃ d, Serving devId flash ms (replies s.2) d ∧ d.pc = .jump := by
  obtain ⟨tr, t, hq⟩ := run_left h hdone halive
  exact ⟨_, ⟨tr, hq.run, hq.no_timeout, hq.messages, by rw [hq.emits], rfl⟩, rfl⟩

end Runs

/-- Devices left in the same state show the same flash, and the same lock. -/
theorem Left.same {t : Target} {c g : Core t.backend} {d d' : Dev t.backend} (h : Left c d)
    (h' : Left g d') (hsame : Same c g) (hpc : d'.pc = .jump ↔ d.pc = .jump) :
    d'.state = d.state ∧ d'.selPage = d.selPage ∧
      t.backend.flash.contents d'.flash = t.backend.flash.contents d.flash ∧
      t.backend.flash.locked d'.flash = t.backend.flash.locked d.flash := by
  have hl := t.backend.lockRespected
  refine ⟨by rw [h'.state, hsame.state, h.state], by rw [h'.selPage, hsame.selPage, h.selPage], ?_⟩
  by_cases hj : d.pc = .jump
  · rw [(h.outside hj).2, (h'.outside (hpc.mpr hj)).2, hl.lock_contents, hl.lock_contents,
      hl.lock_locked, hl.lock_locked]
    exact ⟨hsame.flash.contents, rfl⟩
  · rw [h.inside hj, h'.inside fun hj' => hj (hpc.mp hj')]
    exact ⟨hsame.flash.contents, hsame.flash.locked⟩

/-- In a run without a timeout, a message that is neither a WRITE nor a PROG_DONE can be
repeated at once: the run with the repetition exists, the message gets its reply twice,
and the rest of the replies, the phase, the page buffer, the flash and the lock are
those of the first run. -/
theorem retry_harmless (t : Target) (devId : U8) (flash : ResetFlash t.backend) {l r : List Msg}
    {m : Msg} {out : List Event} {d : Dev t.backend} (hm : Retryable m)
    (h : Serving devId flash (l ++ m :: r) out d) : ∃ a b c, out = a ++ b ++ c ∧
      (∃ d₀, Serving devId flash l a d₀) ∧ (∃ d₁, Serving devId flash (l ++ [m]) (a ++ b) d₁) ∧
      (∃ d', Serving devId flash (l ++ m :: m :: r) (a ++ b ++ b ++ c) d' ∧
        (d'.pc = .jump ↔ d.pc = .jump)) ∧
      ∀ out' d', Serving devId flash (l ++ m :: m :: r) out' d' →
        (d'.pc = .jump ↔ d.pc = .jump) → out' = a ++ b ++ b ++ c ∧ d'.state = d.state ∧
          d'.selPage = d.selPage ∧
          t.backend.flash.contents d'.flash = t.backend.flash.contents d.flash ∧
          t.backend.flash.locked d'.flash = t.backend.flash.locked d.flash := by
  obtain ⟨c, o, hserve, hout, hleft, halive⟩ := h.left
  obtain ⟨c₀, c₁, g, a, b, b', w, hfront, hfirst, ho, htwice, hreply, hsame, halive'⟩ :=
    serveAll_again hm (settled_start flash) halive hserve
  have hreplies : replies (a ++ b ++ b' ++ w) = replies a ++ replies b ++ replies b ++ replies w := by
    simp [hreply]
  have halive₀ := (aliveFor_append.mp halive).1
  have halive₁ : AliveFor devId (start flash) (l ++ [m]) := by
    rw [List.append_cons] at halive
    exact (aliveFor_append.mp halive).1
  refine ⟨replies a, replies b, replies w, ?_, ?_, ?_, ?_, ?_⟩
  · simp only at ho
    rw [← hout, ho, replies_append, replies_append]
  · obtain ⟨d₀, hd₀, _⟩ := serving_started hfront halive₀
    exact ⟨d₀, hd₀⟩
  · obtain ⟨d₁, hd₁, _⟩ := serving_started hfirst halive₁
    exact ⟨d₁, by rw [← replies_append]; exact hd₁⟩
  · rw [← hreplies]
    by_cases hj : d.pc = .jump
    · have hdone : g.state = .done := by rw [hsame.state, (hleft.outside hj).1]
      obtain ⟨d', hd', hpc⟩ := serving_left htwice hdone halive'
      exact ⟨d', hd', iff_of_true hpc hj⟩
    · obtain ⟨d', hd', hpc⟩ := serving_started htwice halive'
      exact ⟨d', hd', iff_of_false (by simp [hpc]) hj⟩
  · intro out' d' h' hpc
    obtain ⟨g', o', hserve', hout', hleft', _⟩ := h'.left
    rw [htwice, Option.some.injEq, Prod.mk.injEq] at hserve'
    obtain ⟨rfl, rfl⟩ := hserve'
    exact ⟨by rw [← hout', hreplies], hleft.same hleft' hsame hpc⟩

/-- An UNLOCK repeated: the keys are not written twice. -/
theorem retry_harmless_unlock : ∃ (a b c : List Event) (d d' : Dev stm32),
    Serving 42#8 stm32Fresh [command cnCanMsgProgReq 42#8, command cnCanMsgUnlock 42#8]
      (a ++ b ++ c) d ∧ d.state = .unlocked ∧
    Serving 42#8 stm32Fresh [command cnCanMsgProgReq 42#8, command cnCanMsgUnlock 42#8,
      command cnCanMsgUnlock 42#8] (a ++ b ++ b ++ c) d' ∧ d'.state = d.state ∧
    Stm32Flash.driver.locked d'.flash = Stm32Flash.driver.locked d.flash := by
  obtain ⟨tr, d, hrun, hp⟩ := Mealy.run_of_exec_any (M := step Target.stm32.backend 42#8)
    (s := boot stm32Fresh)
    (p := fun r => decide (.onTimeout ∉ outputs r.1 ∧ received r.1 =
      [command cnCanMsgProgReq 42#8, command cnCanMsgUnlock 42#8] ∧ r.2.pc.left = 0 ∧
      r.2.state = .unlocked))
    ([.main, .main] ++ handling (command cnCanMsgProgReq 42#8) 4
      ++ handling (command cnCanMsgUnlock 42#8) 5) (by decide +kernel)
  obtain ⟨hno, hms, hl, hs⟩ := of_decide_eq_true hp
  have hserving : Serving 42#8 stm32Fresh ([command cnCanMsgProgReq 42#8] ++
      [command cnCanMsgUnlock 42#8]) _ d := ⟨tr, hrun, hno, hms, rfl, hl⟩
  obtain ⟨a, b, c, hout, _, _, ⟨d', hd', hpc⟩, hall⟩ :=
    retry_harmless .stm32 42#8 stm32Fresh (r := []) (by decide) hserving
  obtain ⟨_, hstate, _, _, hlocked⟩ := hall _ d' hd' hpc
  exact ⟨a, b, c, d, d', by rw [← hout]; exact hserving, hs, hd', hstate, hlocked⟩

end CANnuccia.Pump

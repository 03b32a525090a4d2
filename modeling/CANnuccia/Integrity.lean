import CANnuccia.Commit

/-!
# What a CRC vouches for

Only a WRITE changes the bytes of the buffer, and an acknowledged commit leaves
exactly these bytes in the page. So the CRC of a CHECK_WRITES is that of the page
committed after it, whatever came between that was not a WRITE.
-/
namespace CANnuccia.Pump

open Util CanMsgs Overlay
open Mealy (Machine Transition Run outputs)

section Buffer

variable {B : Backend} {devId : U8} {d d' : Dev B} {i : Input} {outs : List Event}

theorem seek_writes (data : List U8) (p : Page B) : (seek data p).writes = p.writes := by
  unfold seek
  dsimp only
  split_ifs <;> rfl

theorem selectPage_writes (data : List U8) (p : Page B) :
    (selectPage devId data p).1.writes = p.writes := by
  unfold selectPage
  dsimp only
  split_ifs <;> rfl

/-- A WRITE is handled. -/
def WriteHandled (x : Trans B) : Prop := x.pre.pc.handles = some cnCanMsgWrite ∧ x.input = .main

instance (x : Trans B) : Decidable (WriteHandled x) := inferInstanceAs (Decidable (_ ∧ _))

theorem writes_moved (h : Moved devId d i d' outs) (hw : ¬ WriteHandled ⟨d, i, outs, d'⟩) :
    d'.selPage.writes = d.selPage.writes := by
  cases h with
  | main hm _ =>
    cases hm with
    | selectPage data _ => exact selectPage_writes data _
    | seek data _ => exact seek_writes data _
    | write data hpc => exact absurd ⟨congrArg Pc.handles hpc, rfl⟩ hw
    | _ => rfl
  | _ => rfl

theorem writes_run {tr : List (Trans B)} (h : Run (step B devId) d tr d')
    (hw : ∀ x ∈ tr, ¬ WriteHandled x) : d'.selPage.writes = d.selPage.writes :=
  h.invariant_where (I := fun _ s => s.selPage.writes = d.selPage.writes) hw rfl
    fun _ hsame hstep hx => (writes_moved (step_moved hstep) hx).trans hsame

theorem cnWriteU16LE_injective {u v : U16} (h : cnWriteU16LE u = cnWriteU16LE v) : u = v := by
  simp only [cnWriteU16LE, List.cons.injEq, and_true] at h
  apply BitVec.eq_of_getLsbD_eq
  intro j hj
  by_cases hlow : j < 8
  · have hbit := congrArg (fun b => b.getLsbD j) h.1
    interval_cases j <;> simpa using hbit
  · have hbit := congrArg (fun b => b.getLsbD (j - 8)) h.2
    interval_cases j <;> simpa using hbit

/-- A reply carries one list of bytes. -/
theorem reply_injective {kind : U32} {data data' : List U8}
    (h : reply devId kind data = reply devId kind data') : data = data' := by
  rw [reply, reply, Event.send.injEq] at h
  exact h.2

/-- The CRC in a reply to CHECK_WRITES is that of the buffer, which stays as it was. -/
theorem checked_moved {c : U16} (h : Moved devId d i d' outs)
    (hr : reply devId cnCanMsgWritesChecked (cnWriteU16LE c) ∈ outs) :
    c = B.cnCRC16 d.selPage.writes.toList ∧ d'.selPage = d.selPage := by
  obtain ⟨rfl, hsends⟩ := moved_reply h (by decide) hr
  cases h with
  | main hm _ =>
    cases hm with
    | checkWrites _ => exact ⟨cnWriteU16LE_injective (reply_injective (List.mem_singleton.mp hr)), rfl⟩
    | progReqResp hpc | unlockReply hpc | selectPage _ hpc | commitWrites _ _ hpc _ | progDone hpc =>
      rw [hpc] at hsends
      cases hsends
    | _ => simp [reply] at hr

theorem step_checkWrites (hpc : d.pc = .checkWrites) :
    step B devId d .main = some ({ d with pc := .loopTest }, checkWrites devId d.selPage) := by
  obtain ⟨⟨pc, state, page, flash⟩, timer⟩ := d
  simp only at hpc
  subst hpc
  rfl

end Buffer

section Commit

variable {t : Target} {devId : U8}

/-- The bytes of a page of flash. -/
def flashPage (t : Target) (f : t.backend.flash.Flash) (p : Nat) : List U8 :=
  (List.range' p t.pageSize).map (t.backend.flash.contents f)

theorem range'_overlay (m : Nat → U8) (base : Nat) (xs : List U8) :
    (List.range' base xs.length).map (overlay m base xs) = xs := by
  apply List.ext_getElem
  · simp
  · intro i h₁ h₂
    rw [List.getElem_map, List.getElem_range', Nat.one_mul, overlay_inside]

/-- Where the hardware puts the page at an address. -/
def pageStart : (t : Target) → BitVec t.backend.w → Nat
  | .stm32, p => p.toNat
  | .avr, p => AvrFlash.pageBase p

theorem pageStart_eq {p : BitVec t.backend.w} (halign : p.toNat % t.pageSize = 0)
    (hin : p.toNat + t.pageSize ≤ t.appEnd) : pageStart t p = p.toNat := by
  cases t with
  | stm32 => rfl
  | avr =>
    have hin' : BitVec.toNat (w := 16) p + 128 ≤ 0x7000 := hin
    exact AvrFlash.pageBase_eq halign (by omega)

/-- An acknowledged commit lays the buffer over its page. -/
theorem commit_written {p : Page t.backend} {f f' : t.backend.flash.Flash} {outs : List Event}
    (halign : p.addr.toNat % t.pageSize = 0) (h : commitWrites devId p f = some (f', outs))
    (hr : outs ≠ []) : p.addr ≠ 0 ∧ t.backend.flash.contents f' =
      overlay (t.backend.flash.contents f) (pageStart t p.addr) p.writes.toList := by
  cases t with
  | stm32 =>
    by_cases hl : Stm32Flash.Flash.lock f = .unlocked
    · by_cases hp : p.addr = 0
      · cases (stm32_commit_unselected hl hp).symm.trans h
        exact absurd rfl hr
      · cases (stm32_commit hl hp halign).symm.trans h
        exact ⟨hp, rfl⟩
    · cases (stm32_commit_locked hl).symm.trans h
      exact absurd rfl hr
  | avr =>
    by_cases hp : p.addr = 0 ∨ AvrFlash.Flash.flashLocked f = true
    · exact absurd (avr_commit_refused hp h).1 hr
    · rw [not_or, Bool.not_eq_true] at hp
      cases (avr_commit hp.2 hp.1 halign).symm.trans h
      exact ⟨hp.1, rfl⟩

theorem committed_page {p : Page t.backend} {f f' : t.backend.flash.Flash} {outs : List Event}
    (halign : p.addr.toNat % t.pageSize = 0) (h : commitWrites devId p f = some (f', outs))
    (hr : outs ≠ []) : flashPage t f' (pageStart t p.addr) = p.writes.toList := by
  have hlen : p.writes.toList.length = t.pageSize := Vector.length_toList
  rw [flashPage, (commit_written halign h hr).2, ← hlen]
  exact range'_overlay _ _ _

/-- The address in a WRITES_COMMITTED reply. -/
theorem committed_addr {B : Backend} {p : U32} {page : Page B} {f f' : B.flash.Flash}
    {outs : List Event} (h : commitWrites devId page f = some (f', outs))
    (hr : reply devId cnCanMsgWritesCommitted (cnWriteU32LE p) ∈ outs) :
    p = page.addr.setWidth 32 := by
  cases commitWrites_outs h with
  | inl houts =>
    rw [houts] at hr
    cases hr
  | inr houts =>
    rw [houts] at hr
    exact cnWriteU32LE_injective (reply_injective (List.mem_singleton.mp hr))

/-- If no WRITE is handled between an answered CHECK_WRITES and an answered
COMMIT_WRITES to a page of the program, the CRC answered is that of the page. -/
theorem checked_committed (t : Target) (devId : U8) (flash : ResetFlash t.backend)
    {tr l r s : List (Trans t.backend)} {x y : Trans t.backend} {d : Dev t.backend}
    (h : Run (step t.backend devId) (boot flash) tr d) (htr : tr = l ++ x :: r ++ y :: s)
    {c : U16} (hx : reply devId cnCanMsgWritesChecked (cnWriteU16LE c) ∈ x.outs)
    {p : U32} (hy : reply devId cnCanMsgWritesCommitted (cnWriteU32LE p) ∈ y.outs)
    (hin : p.toNat + t.pageSize ≤ t.appEnd) (hno : ∀ z ∈ r, ¬ WriteHandled z) :
    t.backend.cnCRC16 (flashPage t y.post.flash p.toNat) = c := by
  subst htr
  obtain ⟨hrun, hstep⟩ := h.reached
  have hcut : Run (step t.backend devId) (boot flash) ((l ++ [x]) ++ r) y.pre := by simpa using hrun
  obtain ⟨u, hu, hbetween⟩ := hcut.split
  obtain ⟨_, hcheck, rfl⟩ := Mealy.run_snoc_iff.mp hu
  obtain ⟨rfl, hkeep⟩ := checked_moved (step_moved hcheck) hx
  have hsame : y.pre.selPage.writes = x.pre.selPage.writes :=
    (writes_run hbetween hno).trans (by rw [hkeep])
  have hmoved := step_moved hstep
  obtain ⟨hi, hsends⟩ := moved_reply hmoved (by decide) hy
  rw [hi] at hmoved
  have hcommit := moved_commitWrites hmoved (sends_place hsends rfl (by simp))
  have haddr := committed_addr hcommit hy
  have hnat : p.toNat = y.pre.selPage.addr.toNat := by rw [haddr, toNat_addr]
  have halign := (selected_run hrun).aligned
  rw [hnat] at hin ⊢
  rw [← pageStart_eq halign hin, committed_page halign hcommit (List.ne_nil_of_mem hy), hsame]

/-- A WRITE, a CHECK_WRITES, a SEEK and a COMMIT_WRITES of the page 0x0080. -/
theorem checked_committed_0080 : ∃ (l r : List (Trans avr)) (x y : Trans avr) (c : U16),
    Run (step Target.avr.backend 42#8) (boot avrFresh) (l ++ x :: r ++ [y]) y.post ∧
      reply 42#8 cnCanMsgWritesChecked (cnWriteU16LE c) ∈ x.outs ∧
      reply 42#8 cnCanMsgWritesCommitted (cnWriteU32LE 0x0080#32) ∈ y.outs ∧
      avr.cnCRC16 (flashPage .avr y.post.flash (0x0080#32).toNat) = c ∧
      avr.flash.contents y.post.flash 0x0080 = 0xAB#8 := by
  obtain ⟨l, u, hl, hp⟩ := Mealy.run_of_exec_any (M := step Target.avr.backend 42#8)
    (s := boot avrFresh)
    (p := fun a => decide (a.2.pc = .checkWrites) &&
      (Mealy.exec (step Target.avr.backend 42#8) { a.2 with pc := .loopTest }
        (handling (commandAt cnCanMsgSeek 42#8 0x0010#32) 1
          ++ handling (command cnCanMsgCommitWrites 42#8) 1)).any fun b =>
        decide (∀ z ∈ b.1, ¬ WriteHandled z) &&
        (step Target.avr.backend 42#8 b.2 .main).any fun e =>
          decide (reply 42#8 cnCanMsgWritesCommitted (cnWriteU32LE 0x0080#32) ∈ e.2) &&
          decide (avr.flash.contents e.1.flash 0x0080 = 0xAB#8))
    ([.main, .main] ++ handling (command cnCanMsgProgReq 42#8) 4
      ++ handling (command cnCanMsgUnlock 42#8) 5
      ++ handling (commandAt cnCanMsgSelectPage 42#8 0x0080#32) 1
      ++ handling (master cnCanMsgWrite 42#8 [0xAB#8, 0xCD#8] (by decide)) 1
      ++ handling (command cnCanMsgCheckWrites 42#8) 0)
    (by decide +kernel)
  obtain ⟨hpc, hp⟩ := (Bool.and_eq_true _ _).mp hp
  have hcheck : step Target.avr.backend 42#8 u .main = some _ :=
    step_checkWrites (of_decide_eq_true hpc)
  obtain ⟨r, v, hr, hp⟩ := Mealy.run_of_exec_any _ hp
  obtain ⟨hno, hp⟩ := (Bool.and_eq_true _ _).mp hp
  obtain ⟨⟨d, o⟩, hcommit, hp⟩ := (Option.any_eq_true _ _).mp hp
  obtain ⟨hy, hbyte⟩ := (Bool.and_eq_true _ _).mp hp
  have hrun := ((hl.snoc hcheck).append hr).snoc hcommit
  have hx : reply 42#8 cnCanMsgWritesChecked (cnWriteU16LE (avr.cnCRC16 u.selPage.writes.toList)) ∈
    checkWrites 42#8 u.selPage := List.mem_singleton.mpr rfl
  rw [List.append_assoc l] at hrun
  have hcrc := checked_committed (l := l) (r := r) (s := []) (y := ⟨v, .main, o, d⟩) .avr 42#8
    avrFresh hrun rfl hx (of_decide_eq_true hy) (by decide) (of_decide_eq_true hno)
  exact ⟨l, r, _, ⟨v, .main, o, d⟩, _, hrun, hx, of_decide_eq_true hy, hcrc,
    of_decide_eq_true hbyte⟩

end Commit

end CANnuccia.Pump

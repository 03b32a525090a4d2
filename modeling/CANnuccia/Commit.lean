import CANnuccia.Select
import CANnuccia.Unlock
import CANnuccia.PageBuffer

/-!
# COMMIT_WRITES

What a whole begin, fill and end cycle does on each target, and from it which
pages a run can touch and what a run leaves in the flash.
-/
namespace CANnuccia.Pump

open Util CanMsgs Overlay
open Mealy (Machine Transition Run outputs Happened Before)

variable {devId : U8}

variable {B : Backend}

/-- The pointer leads to the bytes of the buffer. -/
theorem page_data (p : Page B) :
    (List.range' 0 B.cnFlashPageSize.toNat).map p.data = p.writes.toList := by
  apply List.ext_getElem
  · simp
  · intro i h₁ h₂
    simp only [List.getElem_map, List.getElem_range', Nat.zero_add, Nat.one_mul, Page.data]
    rw [List.getD_eq_getElem?_getD, List.getElem?_eq_getElem h₂, Option.getD_some]

theorem stm32_commit {p : Page stm32} {f : Stm32Flash.Flash} (hl : f.lock = .unlocked)
    (hp : p.addr ≠ 0) (halign : p.addr.toNat % 1024 = 0) :
    commitWrites devId p f = some (
      { lock := .unlocked
        pg := false
        per := false
        ar := p.addr
        bsy := false
        mem := overlay f.mem p.addr.toNat p.writes.toList
        ops := f.ops ++ .erase p.addr.toNat :: Stm32Flash.programs p.addr.toNat 512
        curPageAddr := 0 }, [committed devId p]) := by
  obtain ⟨f₁, f₂, hbegin, hfill, hend⟩ := Stm32Flash.cycle_done p.data hl hp halign
  have hdata : (List.range' 0 1024).map p.data = p.writes.toList := page_data p
  rw [hdata] at hend
  exact commitWrites_done hbegin hfill hend

theorem stm32_commit_locked {p : Page stm32} {f : Stm32Flash.Flash} (hl : f.lock ≠ .unlocked) :
    commitWrites devId p f = some (f, []) :=
  commitWrites_unbegun (Stm32Flash.beginWrite_locked hl p.addr)

/-- With no page selected the driver erases at zero, and then finds that it has no page. -/
theorem stm32_commit_unselected {p : Page stm32} {f : Stm32Flash.Flash} (hl : f.lock = .unlocked)
    (hp : p.addr = 0) :
    commitWrites devId p f = some (
      { lock := .unlocked
        pg := true
        per := false
        ar := 0
        bsy := false
        mem := overlay f.mem 0 (erased 1024)
        ops := f.ops ++ [.erase 0]
        curPageAddr := 0 }, []) := by
  have hbegin : stm32.flash.cnFlashBeginWrite p.addr f = _ :=
    Stm32Flash.beginWrite_unlocked hl p.addr
  rw [hp] at hbegin
  simp only [commitWrites, hp, hbegin]
  rfl

/-- The operations of a commit lie in the page. -/
theorem stm32_commit_ops {p : Page stm32} {f f' : Stm32Flash.Flash} {outs : List Event}
    (halign : p.addr.toNat % 1024 = 0) (hsel : f.lock = .unlocked → p.addr ≠ 0)
    (h : commitWrites devId p f = some (f', outs)) :
    ∀ op ∈ f'.ops, op ∈ f.ops ∨
      (p.addr ≠ 0 ∧ p.addr.toNat ≤ op.addr ∧ op.addr < p.addr.toNat + 1024) := by
  intro op hop
  by_cases hl : f.lock = .unlocked
  · cases (stm32_commit hl (hsel hl) halign).symm.trans h
    rcases List.mem_append.mp hop with hop | hop
    · exact .inl hop
    · refine .inr ⟨hsel hl, ?_⟩
      rcases List.mem_cons.mp hop with rfl | hop
      · exact ⟨le_rfl, Nat.lt_add_of_pos_right (by decide)⟩
      · simp only [Stm32Flash.programs, List.mem_map, List.mem_range'] at hop
        obtain ⟨_, ⟨i, hi, rfl⟩, rfl⟩ := hop
        simp only [FlashOp.addr]
        omega
  · cases (stm32_commit_locked hl).symm.trans h
    exact .inl hop

theorem avr_commit {p : Page avr} {f : AvrFlash.Flash} (hl : f.flashLocked = false)
    (hp : p.addr ≠ 0) (halign : p.addr.toNat % 128 = 0) :
    commitWrites devId p f = some (
      { mem := overlay f.mem (AvrFlash.pageBase p.addr) p.writes.toList
        temp := fun _ => 0xFFFF#16
        ops := f.ops ++ [.erase p.addr.toNat, .program p.addr.toNat]
        flashLocked := false
        curPageAddr := 0 }, [committed devId p]) := by
  obtain ⟨f₂, hfill, hend⟩ := AvrFlash.cycle_done p.data hl hp halign
  have hdata : (List.range' 0 128).map p.data = p.writes.toList := page_data p
  rw [List.range_eq_range', hdata] at hend
  exact commitWrites_done rfl hfill hend

/-- On the first page, or while locked, nothing is written and nothing is sent. -/
theorem avr_commit_refused {p : Page avr} {f f' : AvrFlash.Flash} {outs : List Event}
    (h : p.addr = 0 ∨ f.flashLocked = true) (hc : commitWrites devId p f = some (f', outs)) :
    outs = [] ∧ f'.mem = f.mem ∧ f'.ops = f.ops ∧ f'.flashLocked = f.flashLocked := by
  cases commitWrites_cases hc with
  | unbegun hbegin => cases hbegin
  | unended hbegin hfill hend =>
    cases hbegin
    obtain ⟨hrefused, hframe⟩ := AvrFlash.cycle_refused h hfill
    cases hrefused.symm.trans hend
    exact ⟨rfl, hframe⟩
  | ended hbegin hfill hend =>
    cases hbegin
    cases (AvrFlash.cycle_refused h hfill).1.symm.trans hend

/-- The first page is given to the driver, which takes it for no page. -/
theorem avr_commit_zero {p : Page avr} {f : AvrFlash.Flash} (hp : p.addr = 0) :
    commitWrites devId p f = some ({ f with curPageAddr := 0 }, []) := by
  simp only [commitWrites, hp]
  rfl

/-- A locked driver has loaded the buffer and opened the cycle when it refuses. -/
theorem avr_commit_locked {p : Page avr} {f : AvrFlash.Flash} (hl : f.flashLocked = true)
    (hp : p.addr ≠ 0) (halign : p.addr.toNat % 128 = 0) : ∃ temp,
    commitWrites devId p f = some ({ f with curPageAddr := p.addr, temp := temp }, []) := by
  obtain ⟨temp, hfill, hend⟩ := AvrFlash.cycle_locked p.data hl hp halign
  exact ⟨temp, commitWrites_unended rfl hfill hend⟩

theorem avr_commit_ops {p : Page avr} {f f' : AvrFlash.Flash} {outs : List Event}
    (halign : p.addr.toNat % 128 = 0) (h : commitWrites devId p f = some (f', outs)) :
    ∀ op ∈ f'.ops, op ∈ f.ops ∨
      (p.addr ≠ 0 ∧ p.addr.toNat ≤ op.addr ∧ op.addr < p.addr.toNat + 128) := by
  intro op hop
  by_cases hr : p.addr = 0 ∨ f.flashLocked = true
  · obtain ⟨_, _, hops, _⟩ := avr_commit_refused hr h
    rw [hops] at hop
    exact .inl hop
  · rw [not_or, Bool.not_eq_true] at hr
    cases (avr_commit hr.2 hr.1 halign).symm.trans h
    rcases List.mem_append.mp hop with hop | hop
    · exact .inl hop
    · refine .inr ⟨hr.1, ?_⟩
      simp only [List.mem_cons, List.not_mem_nil, or_false] at hop
      rcases hop with rfl | rfl <;> exact ⟨le_rfl, Nat.lt_add_of_pos_right (by decide)⟩

variable {t : Target}

theorem selectPage_addr (data : List U8) (p : Page t.backend) :
    (selectPage devId data p).1.addr = p.addr ∨
    ((selectPage devId data p).1.addr.toNat % t.pageSize = 0 ∧
      t.backend.flash.cnFlashPageWriteable (selectPage devId data p).1.addr = true ∧
      (selectPage devId data p).2 = [reply devId cnCanMsgPageSelected
        (cnWriteU32LE ((selectPage devId data p).1.addr.setWidth 32))]) := by
  have hmod : ∀ a, t.maskedAddr a % t.pageSize = 0 := by
    intro a
    cases t
    · exact Nat.mul_mod_left _ 1024
    · exact Nat.mul_mod_left _ 128
  unfold selectPage
  dsimp only
  split_ifs with hlen hwrite
  · refine .inr ⟨?_, hwrite, rfl⟩
    rw [masked_addr]
    exact hmod _
  · exact .inl rfl
  · exact .inl rfl

/-- A SELECT_PAGE step whose page `cnFlashPageWriteable` accepted. -/
def Accepted (devId : U8) (p : BitVec B.w) (x : Trans B) : Prop :=
  (∃ data, x.pre.pc = .selectPage data) ∧ x.input = .main ∧
    B.flash.cnFlashPageWriteable p = true ∧
    x.outs = [reply devId cnCanMsgPageSelected (cnWriteU32LE (p.setWidth 32))]

/-- The selected page is none, or a page that was accepted. -/
structure Selected (devId : U8) (tr : List (Trans t.backend)) (d : Dev t.backend) : Prop where
  aligned : d.selPage.addr.toNat % t.pageSize = 0
  accepted : d.selPage.addr = 0 ∨ Happened (Accepted devId d.selPage.addr) tr

theorem selected_step {tr : List (Trans t.backend)} {d d' : Dev t.backend} {i : Input}
    {outs : List Event} (hs : Selected devId tr d) (h : Moved devId d i d' outs) :
    Selected devId (tr ++ [⟨d, i, outs, d'⟩]) d' := by
  have hkeep : d'.selPage.addr = d.selPage.addr → Selected devId (tr ++ [⟨d, i, outs, d'⟩]) d' := by
    intro he
    refine ⟨by rw [he]; exact hs.aligned, ?_⟩
    rw [he, Mealy.happened_append]
    exact hs.accepted.imp id .inl
  cases h with
  | main hm _ =>
    cases hm with
    | selectPage data hpc =>
      rcases selectPage_addr data d.selPage with he | ⟨halign, hwrite, houts⟩
      · exact hkeep he
      · refine ⟨halign, .inr ?_⟩
        rw [Mealy.happened_append, Mealy.happened_singleton]
        exact .inr ⟨⟨data, hpc⟩, rfl, hwrite, houts⟩
    | seek data _ => exact hkeep (seek_addr data d.selPage)
    | write data _ => exact hkeep (write_addr data d.selPage)
    | _ => exact hkeep rfl
  | _ => exact hkeep rfl

theorem selected_run {flash : ResetFlash t.backend} {tr : List (Trans t.backend)}
    {d : Dev t.backend} (h : Run (step t.backend devId) (boot flash) tr d) :
    Selected devId tr d :=
  run_invariant h ⟨Nat.zero_mod _, .inl rfl⟩ fun _ hs hm => selected_step hs hm

/-- On STM32 a COMMIT_WRITES does not reach the unlocked controller before a page is
selected. -/
def CommitSelected (t : Target) (x : Trans t.backend) : Prop :=
  t = .stm32 → x.pre.pc = .commitWrites → x.input = .main →
    t.backend.flash.locked x.pre.flash = false → x.pre.selPage.addr ≠ 0

instance (t : Target) (x : Trans t.backend) : Decidable (CommitSelected t x) :=
  inferInstanceAs (Decidable (_ → _ → _ → _ → _))

theorem commit_ops {p : Page t.backend} {f f' : t.backend.flash.Flash} {outs : List Event}
    (halign : p.addr.toNat % t.pageSize = 0)
    (hsel : t = .stm32 → t.backend.flash.locked f = false → p.addr ≠ 0)
    (h : commitWrites devId p f = some (f', outs)) :
    ∀ op ∈ t.backend.flash.ops f', op ∈ t.backend.flash.ops f ∨
      (p.addr ≠ 0 ∧ p.addr.toNat ≤ op.addr ∧ op.addr < p.addr.toNat + t.pageSize) := by
  cases t with
  | stm32 => exact stm32_commit_ops halign (fun hl => hsel rfl (decide_eq_false (by simpa using hl))) h
  | avr => exact avr_commit_ops halign h

theorem ops_moved {d d' : Dev t.backend} {i : Input} {outs : List Event}
    (halign : d.selPage.addr.toNat % t.pageSize = 0) (hC : CommitSelected t ⟨d, i, outs, d'⟩)
    (h : Moved devId d i d' outs) :
    ∀ op ∈ t.backend.flash.ops d'.flash, op ∈ t.backend.flash.ops d.flash ∨
      (d.selPage.addr ≠ 0 ∧ d.selPage.addr.toNat ≤ op.addr ∧
        op.addr < d.selPage.addr.toNat + t.pageSize) := by
  intro op hop
  have hlr := t.backend.lockRespected
  cases moved_flash h with
  | same hf =>
    rw [hf] at hop
    exact .inl hop
  | unlock hf =>
    rw [hf, hlr.unlock_ops] at hop
    exact .inl hop
  | commit hpc hi hc => exact commit_ops halign (fun ht hl => hC ht hpc hi hl) hc op hop
  | lock _ hf =>
    rw [hf, hlr.lock_ops] at hop
    exact .inl hop

/-- The operation lies in a page accepted before. -/
def Covered (devId : U8) (tr : List (Trans t.backend)) (op : FlashOp) : Prop :=
  ∃ p, Happened (Accepted devId p) tr ∧ p.toNat ≤ op.addr ∧ op.addr < p.toNat + t.pageSize

theorem covered_step {tr : List (Trans t.backend)} {d d' : Dev t.backend} {i : Input}
    {outs : List Event} (hs : Selected devId tr d)
    (ho : ∀ op ∈ t.backend.flash.ops d.flash, Covered devId tr op)
    (hC : CommitSelected t ⟨d, i, outs, d'⟩) (h : Moved devId d i d' outs) :
    ∀ op ∈ t.backend.flash.ops d'.flash, Covered devId tr op := by
  intro op hop
  rcases ops_moved hs.aligned hC h op hop with hold | ⟨hp, hlow, hhigh⟩
  · exact ho op hold
  · exact ⟨_, hs.accepted.resolve_left hp, hlow, hhigh⟩

theorem covered_run {flash : ResetFlash t.backend} {tr : List (Trans t.backend)}
    {d : Dev t.backend} (h : Run (step t.backend devId) (boot flash) tr d)
    (hC : ∀ x ∈ tr, CommitSelected t x) :
    ∀ op ∈ t.backend.flash.ops d.flash, Covered devId tr op := by
  refine run_invariant_where
    (I := fun tr d => ∀ op ∈ t.backend.flash.ops d.flash, Covered devId tr op) h hC ?_ ?_
  · intro op hop
    have hops : t.backend.flash.ops flash.1 = [] := t.backend.lockRespected.reset_ops _ flash.2
    rw [boot, hops] at hop
    cases hop
  · intro tr s i s' outs hrun ho hm hCx op hop
    obtain ⟨p, hp, hrange⟩ := covered_step (selected_run hrun) ho hCx hm op hop
    exact ⟨p, Mealy.happened_append.mpr (.inl hp), hrange⟩

/-- If no COMMIT_WRITES reaches the unlocked STM32 controller before a page is selected,
every erase and program operation lies in a page accepted earlier in the run. -/
theorem ops_selected (t : Target) (devId : U8) (flash : ResetFlash t.backend)
    {tr : List (Trans t.backend)} {d : Dev t.backend}
    (h : Run (step t.backend devId) (boot flash) tr d) (hC : ∀ x ∈ tr, CommitSelected t x) :
    ∀ l x r, tr = l ++ x :: r → ∀ op ∈ t.backend.flash.ops x.post.flash,
      ∃ p, Happened (Accepted devId p) l ∧ p.toNat ≤ op.addr ∧ op.addr < p.toNat + t.pageSize := by
  rintro l x r rfl
  obtain ⟨hl, hstep⟩ := h.reached
  have hCl : ∀ y ∈ l, CommitSelected t y := fun y hy => hC y (List.mem_append_left _ hy)
  exact covered_step (selected_run hl) (covered_run hl hCl) (hC x (by simp)) (step_moved hstep)

theorem ops_selected_session :
    ∃ tr d, Run (step Target.avr.backend 42#8) (boot avrFresh) tr d ∧
      d.flash.ops = [.erase 0x0080, .program 0x0080] ∧
      ∀ l x r, tr = l ++ x :: r → ∀ op ∈ Target.avr.backend.flash.ops x.post.flash,
        ∃ p, Happened (Accepted 42#8 p) l ∧ p.toNat ≤ op.addr ∧
          op.addr < p.toNat + Target.avr.pageSize := by
  obtain ⟨tr, d, hrun, hp⟩ := Mealy.run_of_exec_any (M := step Target.avr.backend 42#8)
    (s := boot avrFresh)
    (p := fun r => decide ((∀ x ∈ r.1, CommitSelected .avr x) ∧
      r.2.flash.ops = [.erase 0x0080, .program 0x0080])) (commitSession ++ [.main])
    (by decide +kernel)
  obtain ⟨hC, hops⟩ := of_decide_eq_true hp
  exact ⟨tr, d, hrun, hops, ops_selected .avr 42#8 avrFresh hrun hC⟩

/-- A COMMIT_WRITES right after the UNLOCK. -/
def commitUnselected : List Input :=
  [.main, .main] ++ handling (command cnCanMsgProgReq 42#8) 4
    ++ handling (command cnCanMsgUnlock 42#8) 5
    ++ handling (command cnCanMsgCommitWrites 42#8) 1

/-- The STM32 driver erases before it looks at the page it was given. -/
theorem ops_unselected : ¬ ∀ (t : Target) (devId : U8) (flash : ResetFlash t.backend)
    (tr : List (Trans t.backend)) (d : Dev t.backend),
    Run (step t.backend devId) (boot flash) tr d →
    ∀ l x r, tr = l ++ x :: r → ∀ op ∈ t.backend.flash.ops x.post.flash,
      ∃ p, Happened (Accepted devId p) l ∧ p.toNat ≤ op.addr ∧ op.addr < p.toNat + t.pageSize := by
  intro hclaim
  obtain ⟨tr, d, hrun, hp⟩ := Mealy.run_of_exec_any (M := step Target.stm32.backend 42#8)
    (s := boot stm32Fresh)
    (p := fun r => decide (∀ x ∈ r.1, x.pre.pc.sends ≠ some cnCanMsgPageSelected) &&
      (step Target.stm32.backend 42#8 r.2 .main).any fun (q : Dev stm32 × List Event) =>
        decide ((stm32.flash.ops q.1.flash).map FlashOp.addr = [0]))
    commitUnselected (by decide +kernel)
  rw [Bool.and_eq_true] at hp
  have hno := of_decide_eq_true hp.1
  obtain ⟨⟨d', outs⟩, hstep, hops⟩ := (Option.any_eq_true _ _).mp hp.2
  obtain ⟨op, hop, _⟩ : ∃ op ∈ Target.stm32.backend.flash.ops d'.flash, op.addr = 0 :=
    List.mem_map.mp (of_decide_eq_true hops ▸ List.mem_singleton.mpr rfl)
  obtain ⟨p, ⟨x, hx, ⟨data, hdata⟩, _⟩, _⟩ := hclaim .stm32 42#8 stm32Fresh _ d' (hrun.snoc hstep)
    tr ⟨d, .main, outs, d'⟩ [] rfl op hop
  exact hno x hx (by rw [hdata]; rfl)

/-- A successful unlock lasts until the loop is left. -/
def AvrUnlocked (tr : List (Trans avr)) (d : Dev avr) : Prop :=
  Happened UnlockTrue tr → d.pc ≠ .jump → avr.flash.locked d.flash = false

theorem avr_commit_lock {p : Page avr} {f f' : AvrFlash.Flash} {outs : List Event}
    (halign : p.addr.toNat % 128 = 0) (h : commitWrites devId p f = some (f', outs)) :
    f'.flashLocked = f.flashLocked := by
  by_cases hr : p.addr = 0 ∨ f.flashLocked = true
  · exact (avr_commit_refused hr h).2.2.2
  · rw [not_or, Bool.not_eq_true] at hr
    cases (avr_commit hr.2 hr.1 halign).symm.trans h
    exact hr.2.symm

theorem avrUnlocked_step {tr : List (Trans avr)} {d d' : Dev avr} {i : Input} {outs : List Event}
    (halign : d.selPage.addr.toNat % 128 = 0) (hu : AvrUnlocked tr d)
    (h : Moved devId d i d' outs) : AvrUnlocked (tr ++ [⟨d, i, outs, d'⟩]) d' := by
  unfold AvrUnlocked at hu ⊢
  rw [Mealy.happened_append, Mealy.happened_singleton]
  intro hhappened hpc'
  by_cases hnew : .cnFlashUnlock true ∈ outs
  · rw [(moved_unlockTrue h hnew).2]
    rfl
  · have hold := hu (hhappened.resolve_right hnew) fun hj => hpc' (moved_jump h hj)
    cases moved_flash h with
    | same hf =>
      rw [hf]
      exact hold
    | unlock hf =>
      rw [hf]
      rfl
    | commit _ _ hc => exact (avr_commit_lock halign hc).trans hold
    | lock hj _ => exact absurd hj hpc'

theorem avrUnlocked_run {flash : ResetFlash avr} {tr : List (Trans avr)} {d : Dev avr}
    (h : Run (step avr devId) (boot flash) tr d) : AvrUnlocked tr d :=
  run_invariant h (fun hu => absurd hu Mealy.happened_nil) fun hrun hu hm =>
    avrUnlocked_step (selected_run (t := .avr) hrun).aligned hu hm

/-- Once unlocked, a COMMIT_WRITES of a selected application page runs the whole
cycle and is answered, exactly if the page is not the first one. -/
theorem avr_commit_iff (devId : U8) (flash : ResetFlash avr) {tr : List (Trans avr)} {d : Dev avr}
    (h : Run (step avr devId) (boot flash) tr d) (hpc : d.pc = .commitWrites)
    (hunlock : Happened UnlockTrue tr) (hpage : d.selPage.addr.toNat < Target.avr.appEnd) :
    (∃ d', step avr devId d .main = some (d', [committed devId d.selPage]) ∧
      avr.flash.contents d'.flash =
        overlay (avr.flash.contents d.flash) d.selPage.addr.toNat d.selPage.writes.toList ∧
      avr.flash.ops d'.flash = avr.flash.ops d.flash ++
        [.erase d.selPage.addr.toNat, .program d.selPage.addr.toNat]) ↔
    d.selPage.addr ≠ 0 := by
  have halign : d.selPage.addr.toNat % 128 = 0 := (selected_run (t := .avr) h).aligned
  have hl : avr.flash.locked d.flash = false := avrUnlocked_run h hunlock (by simp [hpc])
  constructor
  · rintro ⟨d', hstep, -⟩ hzero
    have hc := moved_commitWrites (step_moved hstep) hpc
    cases (avr_commit_refused (.inl hzero) hc).1
  · intro hp
    have hbase := AvrFlash.pageBase_eq halign (Nat.lt_trans hpage (by decide))
    exact ⟨_, step_commitWrites hpc (avr_commit hl hp halign),
      congrArg (fun base => overlay d.flash.mem base d.selPage.writes.toList) hbase, rfl⟩

theorem avr_commit_iff_0080 :
    ∃ tr d, Run (step avr 42#8) (boot avrFresh) tr d ∧ d.selPage.addr.toNat = 0x0080 ∧
      ((∃ d', step avr 42#8 d .main = some (d', [committed 42#8 d.selPage]) ∧
        avr.flash.contents d'.flash =
          overlay (avr.flash.contents d.flash) d.selPage.addr.toNat d.selPage.writes.toList ∧
        avr.flash.ops d'.flash = avr.flash.ops d.flash ++
          [.erase d.selPage.addr.toNat, .program d.selPage.addr.toNat]) ↔ d.selPage.addr ≠ 0) := by
  obtain ⟨tr, d, hrun, hp⟩ := Mealy.run_of_exec_any (M := step avr 42#8) (s := boot avrFresh)
    (p := fun r => decide (r.2.pc = .commitWrites ∧ (∃ x ∈ r.1, UnlockTrue x) ∧
      r.2.selPage.addr.toNat = 0x0080)) commitSession (by decide +kernel)
  obtain ⟨hpc, hunlock, haddr⟩ := of_decide_eq_true hp
  exact ⟨tr, d, hrun, haddr,
    avr_commit_iff 42#8 avrFresh hrun hpc hunlock (by rw [haddr]; decide)⟩

/-- A session that selects the first page and commits it. -/
def commitFirst : List Input :=
  [.main, .main] ++ handling (command cnCanMsgProgReq 42#8) 4
    ++ handling (command cnCanMsgUnlock 42#8) 5
    ++ handling (commandAt cnCanMsgSelectPage 42#8 0#32) 1
    ++ handling (command cnCanMsgCommitWrites 42#8) 1

/-- The first page is acknowledged but cannot be committed: zero stands for no page. -/
theorem avr_commit_first : ¬ ∀ (devId : U8) (flash : ResetFlash avr) (tr : List (Trans avr))
    (d : Dev avr), Run (step avr devId) (boot flash) tr d → d.pc = .commitWrites →
    d.state = .unlocked → Happened UnlockTrue tr → Happened (Accepted devId d.selPage.addr) tr →
    d.selPage.addr.toNat < Target.avr.appEnd →
    ∃ d', step avr devId d .main = some (d', [committed devId d.selPage]) ∧
      avr.flash.contents d'.flash =
        overlay (avr.flash.contents d.flash) d.selPage.addr.toNat d.selPage.writes.toList ∧
      avr.flash.ops d'.flash = avr.flash.ops d.flash ++
        [.erase d.selPage.addr.toNat, .program d.selPage.addr.toNat] := by
  intro hclaim
  obtain ⟨tr, d, hrun, hp⟩ := Mealy.run_of_exec_any (M := step avr 42#8) (s := boot avrFresh)
    (p := fun r => decide (r.2.pc = .commitWrites ∧ r.2.state = .unlocked ∧
      (∃ x ∈ r.1, UnlockTrue x) ∧ r.2.selPage.addr.toNat = 0 ∧ ∃ x ∈ r.1,
        x.pre.pc = .selectPage (cnWriteU32LE 0#32) ∧ x.input = .main ∧
        x.outs = [reply 42#8 cnCanMsgPageSelected (cnWriteU32LE 0#32)])) commitFirst
    (by decide +kernel)
  obtain ⟨hpc, hs, hunlock, hzero, x, hx, hdata, hi, houts⟩ := of_decide_eq_true hp
  have haddr : d.selPage.addr = 0#16 := BitVec.eq_of_toNat_eq hzero
  have hacc : Accepted 42#8 d.selPage.addr x := by
    rw [haddr]
    exact ⟨⟨_, hdata⟩, hi, by decide, houts⟩
  obtain ⟨d', hstep, -⟩ := hclaim 42#8 avrFresh tr d hrun hpc hs hunlock ⟨x, hx, hacc⟩
    (by rw [haddr]; decide)
  have hc := moved_commitWrites (step_moved hstep) hpc
  cases (avr_commit_refused (.inl haddr) hc).1

end CANnuccia.Pump

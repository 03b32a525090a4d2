import CANnuccia.Buffer

/-!
# What WRITE messages write

However a master cuts its bytes into messages, the buffer gets them from the head on up to
its end. Over a whole run a byte of the buffer is the last one stored there.
-/
namespace CANnuccia.Pump

open Util CanMsgs Overlay
open Mealy (Machine Transition Run outputs)

section Stores

variable {B : Backend} {devId : U8}

/-- The stores the loop of `write` makes: an index of the buffer and the byte. -/
def writeStores : List U8 → Page B → List (Nat × U8)
  | [], _ => []
  | b :: bs, p =>
    if p.writeOffset < B.cnFlashPageSize then
      (p.writeOffset.toNat, b) :: writeStores bs (write [b] p)
    else []

/-- None is outside the buffer. -/
theorem writeStores_inside (bs : List U8) : ∀ (p : Page B), ∀ s ∈ writeStores bs p,
    s.1 < B.cnFlashPageSize.toNat := by
  induction bs with
  | nil =>
    intro p s hs
    cases hs
  | cons b bs ih =>
    intro p s hs
    rw [writeStores] at hs
    split at hs
    · rename_i hlt
      rcases List.mem_cons.mp hs with rfl | hs
      · exact BitVec.lt_def.mp hlt
      · exact ih _ s hs
    · cases hs

theorem write_one {b : U8} {p : Page B} (h : p.writeOffset < B.cnFlashPageSize) :
    write [b] p = { p with
      writes := p.writes.set p.writeOffset.toNat b (BitVec.lt_def.mp h)
      writeOffset := p.writeOffset + 1 } := by
  rw [write, dif_pos h, write]

theorem write_sets (bs : List U8) : ∀ p : Page B,
    (write bs p).writes.toList = sets p.writes.toList (writeStores bs p) := by
  induction bs with
  | nil =>
    intro p
    rfl
  | cons b bs ih =>
    intro p
    rw [write, writeStores]
    split
    · rename_i hlt
      rw [write_one hlt, ih, Vector.toList_set]
      rfl
    · rfl

/-- The stores a message makes. -/
def storesBy (p : Page B) (m : Msg) : List (Nat × U8) :=
  match dispatch m with
  | .write data => writeStores data p
  | _ => []

def stores (devId : U8) : Page B → List Msg → List (Nat × U8)
  | _, [] => []
  | p, m :: ms => storesBy p m ++ stores devId (handle devId p m) ms

theorem storesBy_inside (p : Page B) (m : Msg) : ∀ s ∈ storesBy p m,
    s.1 < B.cnFlashPageSize.toNat := by
  intro s hs
  unfold storesBy at hs
  cases hd : dispatch m with
  | write data =>
    rw [hd] at hs
    exact writeStores_inside data p s hs
  | _ =>
    rw [hd] at hs
    cases hs

theorem stores_inside (devId : U8) (ms : List Msg) : ∀ p : Page B, ∀ s ∈ stores devId p ms,
    s.1 < B.cnFlashPageSize.toNat := by
  induction ms with
  | nil =>
    intro p s hs
    cases hs
  | cons m ms ih =>
    intro p s hs
    rcases List.mem_append.mp hs with hs | hs
    · exact storesBy_inside p m s hs
    · exact ih _ s hs

theorem handle_sets (devId : U8) (p : Page B) (m : Msg) :
    (handle devId p m).writes.toList = sets p.writes.toList (storesBy p m) := by
  unfold handle storesBy
  cases dispatch m with
  | write data => exact write_sets data p
  | seek data => rw [effect, seek_writes]; rfl
  | selectPage data => rw [effect, selectPage_writes]; rfl
  | _ => rfl

theorem handleAll_sets (devId : U8) (ms : List Msg) : ∀ p : Page B,
    (handleAll devId p ms).writes.toList = sets p.writes.toList (stores devId p ms) := by
  induction ms with
  | nil =>
    intro p
    rfl
  | cons m ms ih =>
    intro p
    rw [handleAll_cons, ih, handle_sets, ← sets_append]
    rfl

/-- Messages fill the buffer like one that has all their bytes. -/
theorem handleAll_write (devId : U8) (ms : List Msg) : ∀ p : Page B, (∀ m ∈ ms, IsWrite m) →
    handleAll devId p ms = write (ms.flatMap Msg.data) p := by
  induction ms with
  | nil =>
    intro p _
    rfl
  | cons m ms ih =>
    intro p h
    obtain ⟨hm, hms⟩ := List.forall_mem_cons.mp h
    rw [handleAll_cons, ih _ hms, List.flatMap_cons, write_append, handle, dispatch_isWrite hm]
    rfl

end Stores

section Runs

variable {t : Target} {devId : U8} {d d' : Dev t.backend} {tr : List (Trans t.backend)}

/-- Between two messages. -/
def Pc.between (pc : Pc) : Prop := pc = .loopTest ∨ pc = .recv

theorem effect_between {B : Backend} {pc : Pc} (h : pc.between) (p : Page B) :
    effect devId pc p = p := by
  rcases h with rfl | rfl <;> rfl

/-- A timeout aside, WRITE messages lead nowhere else and touch nothing else. -/
structure Untouched (d : Dev t.backend) (tr : List (Trans t.backend)) (d' : Dev t.backend) :
    Prop where
  flash : d'.flash = d.flash
  silent : ∀ e ∈ outputs tr, e = .onTimeout
  state : d'.state = d.state ∨ .onTimeout ∈ outputs tr ∧ d'.state = .done
  timer : (∀ x ∈ tr, x.input ≠ .expire ∧ x.input ≠ .irq) → d'.timer = d.timer

/-- What a run of WRITE messages makes of the buffer and of the rest of the device. -/
structure Wrote (d : Dev t.backend) (tr : List (Trans t.backend)) (d' : Dev t.backend) : Prop
    extends Untouched d tr d' where
  writes : d'.selPage.writes.toList = lay d.selPage.writes.toList d.selPage.writeOffset.toNat
    ((received tr).flatMap Msg.data)
  writeOffset : d'.selPage.writeOffset.toNat =
    min (d.selPage.writeOffset.toNat + ((received tr).flatMap Msg.data).length) t.pageSize
  addr : d'.selPage.addr = d.selPage.addr

theorem untouched_nil (d : Dev t.backend) : Untouched d [] d :=
  ⟨rfl, by simp, .inl rfl, fun _ => rfl⟩

/-- A step that only moves the program counter. -/
theorem Untouched.step {s s' : Dev t.backend} {i : Input} (h : Untouched d tr s)
    (hflash : s'.flash = s.flash) (hstate : s'.state = s.state)
    (htimer : i ≠ .expire ∧ i ≠ .irq → s'.timer = s.timer) :
    Untouched d (tr ++ [⟨s, i, [], s'⟩]) s' := by
  constructor
  · rw [hflash]
    exact h.flash
  · simpa using h.silent
  · rw [hstate]
    simpa using h.state
  · intro hnone
    rw [htimer (hnone ⟨s, i, [], s'⟩ (by simp))]
    exact h.timer fun x hx => hnone x (List.mem_append_left _ hx)

/-- Where WRITE messages lead; a device that has left does not come back. -/
inductive Writing (d : Dev t.backend) (tr : List (Trans t.backend)) (s : Dev t.backend) :
    Prop where
  | here : s.pc.between ∨ (∃ data, s.pc = .write data) ∨ s.pc = .flashLock → Untouched d tr s →
      Writing d tr s
  | left : s.pc = .jump → Writing d tr s

theorem writing_moved {s s' : Dev t.backend} {i : Input} {outs : List Event}
    (hw : Writing d tr s) (h : Moved devId s i s' outs)
    (hm : ∀ m, i.message = some m → IsWrite m) : Writing d (tr ++ [⟨s, i, outs, s'⟩]) s' := by
  cases hw with
  | left hpc =>
    refine .left ?_
    cases h with
    | main hmove _ => cases hmove <;> simp_all
    | silence hr | receive m hr => simp_all
    | expire _ | timeout _ | spurious _ => exact hpc
  | here hpc hu =>
    cases h with
    | @main c timer _ hmove ht =>
      have hkept : s.pc ≠ .timerStart → s.pc ≠ .progReqStop → timer = s.timer := by
        intro hstart hstop
        rcases callTimer_cases hstart ht with ⟨hpc, _⟩ | ⟨_, hsame⟩
        · exact absurd hpc hstop
        · exact hsame
      cases hmove with
      | loopOn hl _ =>
        exact .here (.inl (.inr rfl)) (hu.step rfl rfl fun _ => hkept (by simp [hl]) (by simp [hl]))
      | loopExit hl _ =>
        exact .here (.inr (.inr rfl))
          (hu.step rfl rfl fun _ => hkept (by simp [hl]) (by simp [hl]))
      | write data hwrite =>
        exact .here (.inl (.inl rfl))
          (hu.step rfl rfl fun _ => hkept (by simp [hwrite]) (by simp [hwrite]))
      | flashLock _ => exact .left rfl
      | _ => simp_all [Pc.between]
    | silence hr => exact .here (.inl (.inl rfl)) (hu.step rfl rfl fun _ => rfl)
    | receive m hr =>
      refine .here (.inr (.inl ⟨m.data, ?_⟩)) (hu.step rfl rfl fun _ => rfl)
      exact dispatch_isWrite (hm m rfl)
    | expire _ => exact .here hpc (hu.step rfl rfl fun h => absurd rfl h.1)
    | spurious _ => exact .here hpc (hu.step rfl rfl fun h => absurd rfl h.2)
    | timeout _ =>
      refine .here hpc ⟨hu.flash, ?_, .inr ⟨by simp, rfl⟩, ?_⟩
      · intro e he
        rw [Mealy.outputs_append, List.mem_append] at he
        rcases he with he | he
        · exact hu.silent e he
        · simpa using he
      · intro hnone
        exact absurd rfl (hnone _ (List.mem_append_right _ (List.mem_singleton_self _))).2

/-- A run that receives WRITE messages only. -/
theorem run_wrote (hq : d.selPage.writeOffset.toNat ≤ t.pageSize)
    (h : Run (step t.backend devId) d tr d') (hpc : d.pc.between) (hpc' : d'.pc.between)
    (hms : ∀ m ∈ received tr, IsWrite m) : Wrote d tr d' := by
  have hpage := effect_run h
  rw [effect_between hpc, effect_between hpc', handleAll_write devId _ _ hms] at hpage
  have hwriting : Writing d tr d' := by
    refine h.invariant_where (I := Writing d) (C := fun x => ∀ m, x.input.message = some m →
      IsWrite m) ?_ (.here (.inl hpc) (untouched_nil d)) ?_
    · intro x hx m hm
      exact hms m (List.mem_filterMap.mpr ⟨x, hx, hm⟩)
    · intro tr s i s' outs _ hw hstep hm
      exact writing_moved hw (step_moved hstep) hm
  obtain ⟨hwrites, hhead⟩ := write_spec ((received tr).flatMap Msg.data) d.selPage hq
  cases hwriting with
  | left hjump => rcases hpc' with hl | hl <;> simp [hl] at hjump
  | here _ hu => exact ⟨hu, by rw [hpage, hwrites], by rw [hpage, hhead]; rfl, by rw [hpage, write_addr]⟩

/-- Each message can be handled without a timeout. -/
theorem writes_handled (devId : U8) (ms : List Msg) : ∀ d : Dev t.backend, d.pc = .loopTest →
    d.state ≠ .done → (∀ m ∈ ms, IsWrite m) →
    ∃ tr d', Run (step t.backend devId) d tr d' ∧ d'.pc = .loopTest ∧ received tr = ms ∧
      ∀ x ∈ tr, x.input ≠ .expire ∧ x.input ≠ .irq := by
  induction ms with
  | nil =>
    intro d hpc _ _
    exact ⟨[], d, .nil, hpc, rfl, by simp⟩
  | cons m ms ih =>
    intro d hpc hstate hms
    obtain ⟨hm, hrest⟩ := List.forall_mem_cons.mp hms
    have hloop : step t.backend devId d .main = some (⟨d.toCore.goto .recv, d.timer⟩, []) :=
      step_loopOn hpc hstate d.timer
    have hrecv : step t.backend devId ⟨d.toCore.goto .recv, d.timer⟩ (.recv (some m)) =
        some (⟨d.toCore.goto (.write m.data), d.timer⟩, []) := by
      rw [← dispatch_isWrite hm]
      rfl
    have hwrite : step t.backend devId ⟨d.toCore.goto (.write m.data), d.timer⟩ .main =
        some (⟨⟨.loopTest, d.state, write m.data d.selPage, d.flash⟩, d.timer⟩, []) := rfl
    obtain ⟨tr, d', hrun, hpc', hreceived, hinputs⟩ :=
      ih ⟨⟨.loopTest, d.state, write m.data d.selPage, d.flash⟩, d.timer⟩ rfl hstate hrest
    refine ⟨_, d', ((Run.single hloop).append ((Run.single hrecv).append
      (Run.single hwrite))).append hrun, hpc', ?_, ?_⟩
    · rw [← hreceived]
      rfl
    · intro x hx
      rcases List.mem_append.mp hx with hx | hx
      · simp at hx
        rcases hx with rfl | rfl | rfl <;> simp
      · exact hinputs x hx

/-- What holds of the page buffer in a state that a run has reached. -/
structure Buffered (devId : U8) (tr : List (Trans t.backend)) (d : Dev t.backend) : Prop where
  head : d.selPage.writeOffset.toNat ≤ t.pageSize
  inside : ∀ s ∈ stores devId (Page.zero : Page t.backend) (received tr), s.1 < t.pageSize
  last : ∀ i < t.pageSize, (effect devId d.pc d.selPage).byte i =
    some ((lastAt (stores devId (Page.zero : Page t.backend) (received tr)) i).getD 0)

variable {flash : ResetFlash t.backend}

theorem head_inside (h : Run (step t.backend devId) (boot flash) tr d) :
    d.selPage.writeOffset.toNat ≤ t.pageSize := by
  refine run_invariant (I := fun _ s => s.selPage.writeOffset.toNat ≤ t.pageSize) h
    (Nat.zero_le _) ?_
  intro tr s i s' outs _ hq hmoved
  cases hmoved with
  | main hmove _ =>
    cases hmove with
    | seek data hpc =>
      by_cases hs : SeeksTo t.pageSize data
      · exact (seek_inside hs s.selPage).trans_le hs.2.le
      · simpa only [seek_outside hs] using hq
    | write data hpc => exact (write_spec data s.selPage hq).2.trans_le (Nat.min_le_right _ _)
    | selectPage data hpc => simpa only [selectPage_writeOffset] using hq
    | _ => exact hq
  | _ => exact hq

theorem run_buffered (h : Run (step t.backend devId) (boot flash) tr d) : Buffered devId tr d where
  head := head_inside h
  inside := stores_inside devId (received tr) Page.zero
  last := by
    intro i hi
    have hpage : effect devId d.pc d.selPage = handleAll devId Page.zero (received tr) :=
      effect_run h
    have hzero : (Page.zero : Page t.backend).writes.toList[i]? = some 0 := by
      have hlt : i < t.backend.cnFlashPageSize.toNat := hi
      simp [Page.zero, hlt]
    have hlen : i < (Page.zero : Page t.backend).writes.toList.length := by
      rw [Vector.length_toList]
      exact hi
    rw [hpage, Page.byte, handleAll_sets, sets_getElem? _ _ hlen, hzero]
    cases lastAt (stores devId (Page.zero : Page t.backend) (received tr)) i <;> rfl

/-- The head stays in the buffer, nothing is stored outside it and a byte of it is the one
stored there last. From any state between two messages, WRITE messages lay their bytes over
the buffer, however they are cut, and change nothing else; and they can be handled. -/
theorem page_buffer (devId : U8) (flash : ResetFlash t.backend)
    (h : Run (step t.backend devId) (boot flash) tr d) :
    Buffered devId tr d ∧
      (d.pc.between → ∀ tr' d', Run (step t.backend devId) d tr' d' → d'.pc.between →
        (∀ m ∈ received tr', IsWrite m) → Wrote d tr' d') ∧
      (d.pc = .loopTest → d.state ≠ .done → ∀ ms : List Msg, (∀ m ∈ ms, IsWrite m) →
        ∃ tr' d', Run (step t.backend devId) d tr' d' ∧ d'.pc = .loopTest ∧ received tr' = ms ∧
          ∀ x ∈ tr', x.input ≠ .expire ∧ x.input ≠ .irq) :=
  ⟨run_buffered h, fun hpc _ _ hrun hpc' hms => run_wrote (head_inside h) hrun hpc hpc' hms,
    fun hpc hstate ms hms => writes_handled devId ms d hpc hstate hms⟩

/-- The first three bytes, in two messages. -/
def writeThree : List Msg :=
  [master cnCanMsgWrite 42#8 [1, 2] (Nat.le_of_ble_eq_true rfl),
    master cnCanMsgWrite 42#8 [3] (Nat.le_of_ble_eq_true rfl)]

theorem page_buffer_three : ∃ tr d, Run (step Target.avr.backend 42#8) (boot avrFresh) tr d ∧
    Buffered 42#8 tr d ∧ ∃ tr' d', Run (step Target.avr.backend 42#8) d tr' d' ∧
      received tr' = writeThree ∧ Wrote d tr' d' := by
  obtain ⟨tr, d, hrun, hp⟩ := Mealy.run_of_exec_any (M := step Target.avr.backend 42#8)
    (s := boot avrFresh) (p := fun r => decide (r.2.pc = .loopTest ∧ r.2.state ≠ .done))
    [.main, .main] (by decide +kernel)
  obtain ⟨hpc, hstate⟩ := of_decide_eq_true hp
  have hkinds : ∀ m ∈ writeThree, IsWrite m := by
    intro m hm
    simp only [writeThree, List.mem_cons, List.not_mem_nil, or_false] at hm
    rcases hm with rfl | rfl <;> exact devMask_kind _ _
  obtain ⟨hbuffered, hwrote, hhandled⟩ := page_buffer (t := .avr) 42#8 avrFresh hrun
  obtain ⟨tr', d', hrun', hpc', hreceived, _⟩ := hhandled hpc hstate writeThree hkinds
  exact ⟨tr, d, hrun, hbuffered, tr', d', hrun', hreceived,
    hwrote (.inl hpc) tr' d' hrun' (.inl hpc') (by rw [hreceived]; exact hkinds)⟩

end Runs

end CANnuccia.Pump

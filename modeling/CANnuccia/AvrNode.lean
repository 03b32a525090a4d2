import CANnuccia.AvrInit
import CANnuccia.Bus
import CANnuccia.Observed

/-!
# An AVR device on its SPI bus

`main` from `cnCANInit` on, with the calls of its CAN driver cut at every action on the
SPI bus. Nothing is assumed of what the CAN controller answers: any byte may be received.
-/
namespace CANnuccia.AvrNode

open Util CanMsgs
open AvrCan (Eid Received cnCANInit cnCANRecv cnCANSend fullMailbox mcpGetEID readBytes)
open Pump (Dev Event Pc State ResetFlash frame reply dispatch)
open Observed (Output Shows handled emitted)
open Mealy (Machine Transition Run outputs)

/-- What `main` makes of a call of `cnCANRecv`. -/
def message (r : Received) : Option Msg :=
  if r.ret < 0 then none else r.recvId.map fun id => frame id r.data

/-- The call that `main` is in, with what is left of it. -/
inductive Running where
  | idle
  | init (p : Spi (Bool × Bool))
  | recv (p : Spi Received)
  | send (id : U32) (data : List U8) (p : Spi Int)

structure Node where
  dev : Dev avr
  running : Running

/-- `main` makes a step outside of the driver, with `rest` as the memory behind the bytes
it gives to `cnCANSend`, or an action on the SPI bus, where it may receive `byte`. -/
inductive Input where
  | main (rest : Nat → U8)
  | spi (byte : U8)
  | expire
  | irq

/-- What the CAN controller does is not seen. -/
abbrev Out := Output Int Empty

/-- What a pointer to a payload leads to. -/
def pointer (data : List U8) (rest : Nat → U8) (i : Nat) : U8 :=
  data.getD i (rest (i - data.length))

def sending (id : U32) (data : List U8) (rest : Nat → U8) : Spi Int :=
  cnCANSend id (BitVec.ofNat 16 data.length) (pointer data rest)

/-- The call that comes with what `main` emits. -/
def calls (rest : Nat → U8) : List Event → Running
  | [] => .idle
  | .send id data :: _ => .send id data (sending id data rest)
  | _ :: outs => calls rest outs

def step (devId : U8) : Machine Node Input Out
  | s, .main rest =>
    match s.running with
    | .idle =>
      if s.dev.pc = .recv then some ({ s with running := .recv (cnCANRecv true 8) }, [])
      else (Pump.step avr devId s.dev .main).map fun r =>
        (⟨r.1, calls rest r.2⟩, r.2.map .event)
    | _ => none
  | s, .spi byte =>
    match s.running with
    | .idle => none
    | .init p =>
      match (p.next byte).returned with
      | none => some ({ s with running := .init (p.next byte) }, [])
      | some _ => some ({ s with running := .idle }, [])
    | .recv p =>
      match (p.next byte).returned with
      | none => some ({ s with running := .recv (p.next byte) }, [])
      | some r => (Pump.step avr devId s.dev (.recv (message r))).map fun d =>
        (⟨d.1, .idle⟩, .received (message r) :: d.2.map .event)
    | .send id data p =>
      match (p.next byte).returned with
      | none => some ({ s with running := .send id data (p.next byte) }, [])
      | some r => some ({ s with running := .idle }, [.sent id data r])
  | s, .expire => (Pump.step avr devId s.dev .expire).map fun r =>
    ({ s with dev := r.1 }, r.2.map .event)
  | s, .irq => (Pump.step avr devId s.dev .irq).map fun r =>
    ({ s with dev := r.1 }, r.2.map .event)

/-- `main` right before `cnCANInit`. -/
def boot (devId : U8) (flash : ResetFlash avr) : Node :=
  ⟨Pump.boot flash,
    .init (cnCANInit false (cnCANDevMask cnCanTxFilterId devId) cnCanTxFilterMask)⟩

abbrev Trans := Transition Node Input Out

inductive Stepped (devId : U8) (s : Node) : Input → Node → List Out → Prop where
  | main {rest : Nat → U8} {d : Dev avr} {outs : List Event} : s.running = .idle →
      s.dev.pc ≠ .recv → Pump.step avr devId s.dev .main = some (d, outs) →
      Stepped devId s (.main rest) ⟨d, calls rest outs⟩ (outs.map .event)
  | recv {rest : Nat → U8} : s.running = .idle → s.dev.pc = .recv →
      Stepped devId s (.main rest) { s with running := .recv (cnCANRecv true 8) } []
  | initGoes {byte : U8} {p : Spi (Bool × Bool)} : s.running = .init p →
      Stepped devId s (.spi byte) { s with running := .init (p.next byte) } []
  | initReturns {byte : U8} {p : Spi (Bool × Bool)} : s.running = .init p →
      Stepped devId s (.spi byte) { s with running := .idle } []
  | recvGoes {byte : U8} {p : Spi Received} : s.running = .recv p →
      Stepped devId s (.spi byte) { s with running := .recv (p.next byte) } []
  | recvReturns {byte : U8} {p : Spi Received} {r : Received} {d : Dev avr}
      {outs : List Event} : s.running = .recv p → (p.next byte).returned = some r →
      Pump.step avr devId s.dev (.recv (message r)) = some (d, outs) →
      Stepped devId s (.spi byte) ⟨d, .idle⟩ (.received (message r) :: outs.map .event)
  | sendGoes {byte : U8} {id : U32} {data : List U8} {p : Spi Int} :
      s.running = .send id data p →
      Stepped devId s (.spi byte) { s with running := .send id data (p.next byte) } []
  | sendReturns {byte : U8} {id : U32} {data : List U8} {p : Spi Int} {r : Int} :
      s.running = .send id data p → (p.next byte).returned = some r →
      Stepped devId s (.spi byte) { s with running := .idle } [.sent id data r]
  | timer {i : Pump.Input} {x : Input} {d : Dev avr} {outs : List Event} :
      (x, i) = (.expire, .expire) ∨ (x, i) = (.irq, .irq) →
      Pump.step avr devId s.dev i = some (d, outs) →
      Stepped devId s x { s with dev := d } (outs.map .event)

theorem step_stepped {devId : U8} {s s' : Node} {x : Input} {outs : List Out}
    (h : step devId s x = some (s', outs)) : Stepped devId s x s' outs := by
  cases x with
  | main rest =>
    simp only [step] at h
    split at h
    · rename_i hrun
      split at h
      · cases h
        exact .recv hrun ‹_›
      · obtain ⟨⟨d, o⟩, hs, he⟩ := Option.map_eq_some_iff.mp h
        cases he
        exact .main hrun ‹_› hs
    · cases h
  | spi byte =>
    simp only [step] at h
    split at h
    · cases h
    · split at h
      · cases h
        exact .initGoes ‹_›
      · cases h
        exact .initReturns ‹_›
    · split at h
      · cases h
        exact .recvGoes ‹_›
      · obtain ⟨⟨d, o⟩, hs, he⟩ := Option.map_eq_some_iff.mp h
        cases he
        exact .recvReturns ‹_› ‹_› hs
    · split at h
      · cases h
        exact .sendGoes ‹_›
      · cases h
        exact .sendReturns ‹_› ‹_›
  | expire =>
    obtain ⟨⟨d, o⟩, hs, he⟩ := Option.map_eq_some_iff.mp h
    cases he
    exact .timer (.inl rfl) hs
  | irq =>
    obtain ⟨⟨d, o⟩, hs, he⟩ := Option.map_eq_some_iff.mp h
    cases he
    exact .timer (.inr rfl) hs

theorem stepped_shows {devId : U8} {s s' : Node} {x : Input} {outs : List Out}
    (h : Stepped devId s x s' outs) : Shows devId s.dev s'.dev outs := by
  cases h with
  | main _ _ hstep => exact .goes rfl hstep
  | recvReturns _ _ hstep => exact .hears hstep
  | timer hi hstep =>
    refine .goes ?_ hstep
    rcases hi with hi | hi <;> cases hi <;> rfl
  | sendReturns _ _ =>
    refine .quiet fun o ho => ?_
    cases List.mem_singleton.mp ho
    rfl
  | _ => exact .quiet (by simp)

theorem runs_pump {devId : U8} {s₀ s : Node} {tr : List Trans} (h : Run (step devId) s₀ tr s) :
    ∃ tr', Run (Pump.step avr devId) s₀.dev tr' s.dev ∧ Pump.received tr' = handled tr ∧
      outputs tr' = emitted tr :=
  Observed.shows_run (fun hstep => stepped_shows (step_stepped hstep)) h

/-- Two of the bits that tell the kinds of messages apart are clear. -/
def Garbled (m : Msg) : Prop := m.id &&& 0x00003000#32 = 0

/-- No register goes there. -/
theorem getEID_garbled (regs : Eid) : mcpGetEID regs &&& 0x00003000#32 = 0 := by
  apply BitVec.eq_of_getLsbD_eq
  intro i hi
  interval_cases i <;> simp [mcpGetEID]

theorem recv_garbled :
    (cnCANRecv true 8).Always fun r => ∀ m, message r = some m → Garbled m := by
  simp only [cnCANRecv, Spi.select_bind, Spi.transfer_bind, Spi.deselect_bind]
  intro _ rxStatus
  simp only [Spi.Always]
  cases fullMailbox rxStatus with
  | none =>
    intro m hm
    cases hm
  | some rxMailboxId =>
    intro _ sidh sidl eid8 eid0 dlc
    show Spi.Always _ (readBytes _ >>= _)
    refine Spi.Always.bind (Spi.Always.of_forall fun data => ?_)
    intro m hm
    simp only [message, if_true, Option.map_some] at hm
    split at hm
    · cases hm
    · cases hm
      show _ &&& _ = _
      simp only [frame]
      split
      · rw [BitVec.and_or_distrib_right, getEID_garbled]
        rfl
      · exact getEID_garbled _

/-- Every message that is handled is garbled, and whatever is left of a call of
`cnCANRecv` can return only such. -/
structure Hears (tr : List Trans) (s : Node) : Prop where
  handled : ∀ m ∈ handled tr, Garbled m
  running : ∀ p, s.running = .recv p →
    p.Always fun r => ∀ m, message r = some m → Garbled m

theorem calls_recv (rest : Nat → U8) (outs : List Event) (p : Spi Received) :
    calls rest outs ≠ .recv p := by
  induction outs with
  | nil => exact Running.noConfusion
  | cons e outs ih =>
    cases e with
    | send id data => exact Running.noConfusion
    | _ => exact ih

theorem handled_events (outs : List Event) :
    (outs.map (Output.event : Event → Out)).filterMap Output.handled = [] := by
  induction outs with
  | nil => rfl
  | cons e outs ih => exact ih

theorem handled_snoc (tr : List Trans) (x : Trans) :
    handled (tr ++ [x]) = handled tr ++ x.outs.filterMap Output.handled := by
  rw [handled, Mealy.outputs_append, Mealy.outputs_singleton, List.filterMap_append]
  rfl

theorem run_hears {devId : U8} {flash : ResetFlash avr} {s : Node} {tr : List Trans}
    (h : Run (step devId) (boot devId flash) tr s) : Hears tr s := by
  refine h.invariant (I := Hears) ⟨by simp [handled], fun p hp => by cases hp⟩ ?_
  intro tr s i s' outs _ ih hstep
  have hquiet : ∀ outs : List Out, outs.filterMap Output.handled = [] →
      ∀ m ∈ handled (tr ++ [⟨s, i, outs, s'⟩]), Garbled m := by
    intro outs houts m hm
    rw [handled_snoc, houts, List.append_nil] at hm
    exact ih.handled m hm
  cases step_stepped hstep with
  | main _ _ _ => exact ⟨hquiet _ (handled_events _), fun p hp => absurd hp (calls_recv _ _ p)⟩
  | recv _ _ =>
    refine ⟨hquiet _ rfl, fun p hp => ?_⟩
    cases hp
    exact recv_garbled
  | recvGoes hrun =>
    refine ⟨hquiet _ rfl, fun p hp => ?_⟩
    cases hp
    exact (ih.running _ hrun).next _
  | recvReturns hrun hret _ =>
    have hends := ((ih.running _ hrun).next _).ended hret
    refine ⟨fun m hm => ?_, fun p hp => by cases hp⟩
    rw [handled_snoc] at hm
    rcases List.mem_append.mp hm with hm | hm
    · exact ih.handled m hm
    · rw [List.filterMap_cons, handled_events] at hm
      generalize message _ = o at hm hends
      cases o with
      | none => cases hm
      | some m' => exact hends m (congrArg some (List.mem_singleton.mp hm).symm)
  | timer _ _ => exact ⟨hquiet _ (handled_events _), ih.running⟩
  | _ => exact ⟨hquiet _ rfl, fun p hp => by cases hp⟩

section Inert

variable {B : Backend} {devId : U8} {flash : ResetFlash B}

theorem dispatch_garbled {m : Msg} (h : Garbled m) :
    dispatch m = .loopTest ∨ dispatch m = .commitTest ∨ dispatch m = .selectPage m.data := by
  have hclear : (m.id &&& cnCanMsgidMask) &&& 0x00003000#32 = 0 := by
    rw [BitVec.and_assoc, BitVec.and_comm cnCanMsgidMask, ← BitVec.and_assoc, h]
    rfl
  unfold dispatch
  dsimp only
  generalize m.id &&& cnCanMsgidMask = kind at hclear
  split_ifs with h₁ h₂ h₃ h₄ h₅ h₆ h₇ h₈
  · subst h₁
    exact absurd hclear (by decide)
  · subst h₂
    exact absurd hclear (by decide)
  · exact .inr (.inr rfl)
  · subst h₄
    exact absurd hclear (by decide)
  · subst h₅
    exact absurd hclear (by decide)
  · subst h₆
    exact absurd hclear (by decide)
  · exact .inr (.inl rfl)
  · subst h₈
    exact absurd hclear (by decide)
  · exact .inl rfl

/-- Where `main` can be without the handlers of the other messages. -/
def reached : Pc → Bool
  | .timerStart | .stateIdle | .loopTest | .recv | .selectPage _ | .commitTest | .flashLock
  | .jump => true
  | _ => false

/-- Nothing has happened but that pages were selected and the time ran out. -/
structure Inert (devId : U8) (flash : ResetFlash B) (tr : List (Pump.Trans B)) (d : Dev B) :
    Prop where
  pc : reached d.pc = true
  state : d.state = .idle ∨ d.state = .done
  writeOffset : d.selPage.writeOffset = 0
  writes : d.selPage.writes = Vector.replicate _ 0
  unchanged : d.flash = flash.val ∨ d.flash = (B.flash.cnFlashLock flash.val).2
  flash : d.pc ≠ .jump → d.flash = flash.val
  timeout : d.state = .done → .onTimeout ∈ outputs tr
  left : d.pc = .flashLock ∨ d.pc = .jump → .onTimeout ∈ outputs tr
  outs : ∀ e ∈ outputs tr, e = .onTimeout ∨ ∃ bytes, e = reply devId cnCanMsgPageSelected bytes

theorem selectPage_kept (devId : U8) (data : List U8) (p : Pump.Page B) :
    (Pump.selectPage devId data p).1.writeOffset = p.writeOffset ∧
      (Pump.selectPage devId data p).1.writes = p.writes := by
  unfold Pump.selectPage
  dsimp only
  split_ifs <;> exact ⟨rfl, rfl⟩

variable {tr : List (Pump.Trans B)} {d : Dev B}

/-- `main` goes on in the loop. -/
theorem Inert.goes (h : Inert devId flash tr d) {x : Pump.Trans B} (hx : x.outs = [])
    (hpc : d.pc ≠ .jump) {pc : Pc} (hreached : reached pc = true)
    (hin : pc ≠ .flashLock ∧ pc ≠ .jump) (timer : B.timer.Timer) :
    Inert devId flash (tr ++ [x]) ⟨{ d.toCore with pc := pc }, timer⟩ := by
  have houtputs : outputs (tr ++ [x]) = outputs tr := by simp [hx]
  constructor
  case pc => exact hreached
  case flash => exact fun _ => h.flash hpc
  case timeout => exact houtputs ▸ h.timeout
  case left => exact fun hl => absurd hl (not_or.mpr hin)
  case outs => exact houtputs ▸ h.outs
  all_goals first | exact h.state | exact h.writeOffset | exact h.writes | exact h.unchanged

theorem move_inert {c : Pump.Core B} {outs : List Event} {timer : B.timer.Timer}
    {x : Pump.Trans B} (hx : x.outs = outs) (h : Inert devId flash tr d)
    (hmove : Pump.Move devId d.toCore c outs) : Inert devId flash (tr ++ [x]) ⟨c, timer⟩ := by
  have hreached := h.pc
  cases hmove with
  | timerStart hpc | loopOn hpc _ | commitRefuse hpc _ =>
    exact h.goes hx (by simp [hpc]) rfl ⟨Pc.noConfusion, Pc.noConfusion⟩ timer
  | stateIdle hpc =>
    have hgoes : Inert devId flash (tr ++ [x]) ⟨{ d.toCore with pc := .loopTest }, timer⟩ :=
      h.goes hx (by simp [hpc]) rfl ⟨Pc.noConfusion, Pc.noConfusion⟩ timer
    exact { hgoes with state := .inl rfl, timeout := fun hs => State.noConfusion hs }
  | loopExit hpc hs =>
    have hout := h.timeout hs
    exact { h with
      pc := rfl
      flash := fun _ => h.flash (by simp [hpc])
      timeout := fun _ => by simp [hout]
      left := fun _ => by simp [hout]
      outs := by simpa [hx] using h.outs }
  | selectPage data hpc =>
    have hkept := selectPage_kept devId data d.selPage
    exact { h with
      pc := rfl
      writeOffset := hkept.1.trans h.writeOffset
      writes := hkept.2.trans h.writes
      flash := fun _ => h.flash (by simp [hpc])
      timeout := fun hs => by simp [h.timeout hs]
      left := fun hl => by rcases hl with hl | hl <;> cases hl
      outs := by
        intro e he
        rw [Mealy.outputs_append, Mealy.outputs_singleton, hx] at he
        exact (List.mem_append.mp he).elim (h.outs e) fun he => .inr (Pump.selectPage_outs he) }
  | commitPass _ hs =>
    rcases h.state with hi | hi <;> cases hs.symm.trans hi
  | flashLock hpc =>
    have hflash := h.flash (by simp [hpc])
    exact { h with
      pc := rfl
      unchanged := .inr (congrArg (fun f => (B.flash.cnFlashLock f).2) hflash)
      flash := fun hj => absurd rfl hj
      timeout := fun hs => by simp [h.timeout hs]
      left := fun _ => by simp [h.left (.inl hpc)]
      outs := by simpa [hx] using h.outs }
  | _ => simp_all [reached]

theorem run_inert (h : Run (Pump.step B devId) (Pump.boot flash) tr d)
    (hm : ∀ x ∈ tr, ∀ m, x.input = .recv (some m) → Garbled m) : Inert devId flash tr d := by
  refine Pump.run_invariant_where (I := Inert devId flash) h hm
    ⟨rfl, .inl rfl, rfl, rfl, .inl rfl, fun _ => rfl, (fun hs => State.noConfusion hs),
      (fun hl => by simp [Pump.boot] at hl), by simp⟩ ?_
  intro tr d i d' outs _ ih hmoved hgarbled
  cases hmoved with
  | main hmove _ => exact move_inert rfl ih hmove
  | silence hpc =>
    exact ih.goes rfl (by simp [hpc]) rfl ⟨Pc.noConfusion, Pc.noConfusion⟩ d.timer
  | receive m hpc =>
    have hdispatch := dispatch_garbled (hgarbled m rfl)
    refine ih.goes rfl (by simp [hpc]) ?_ ?_ d.timer
    · rcases hdispatch with h | h | h <;> rw [h] <;> rfl
    · rcases hdispatch with h | h | h <;> rw [h] <;> exact ⟨Pc.noConfusion, Pc.noConfusion⟩
  | expire _ | spurious _ =>
    have houtputs : ∀ i d', outputs (tr ++ [⟨d, i, [], d'⟩]) = outputs tr := by simp
    exact { ih with
      timeout := houtputs _ _ ▸ ih.timeout
      left := houtputs _ _ ▸ ih.left
      outs := houtputs _ _ ▸ ih.outs }
  | timeout _ =>
    exact { ih with
      state := .inr rfl
      timeout := fun _ => by simp
      left := fun _ => by simp
      outs := by
        intro e he
        rw [Mealy.outputs_append, Mealy.outputs_singleton] at he
        exact (List.mem_append.mp he).elim (ih.outs e) fun he => .inl (List.mem_singleton.mp he) }

end Inert

theorem calls_send {rest : Nat → U8} {outs : List Event} {id : U32} {data : List U8}
    {p : Spi Int} (h : calls rest outs = .send id data p) : .send id data ∈ outs := by
  induction outs with
  | nil => cases h
  | cons e outs ih =>
    cases e with
    | send id' data' =>
      cases h
      exact List.mem_cons_self
    | _ => exact List.mem_cons_of_mem _ (ih h)

/-- `cnCANSend` is called with what `main` emits. -/
structure Asks (tr : List Trans) (s : Node) : Prop where
  sent : ∀ id data r, .sent id data r ∈ outputs tr → .event (.send id data) ∈ outputs tr
  running : ∀ id data p, s.running = .send id data p → .event (.send id data) ∈ outputs tr

theorem run_asks {devId : U8} {flash : ResetFlash avr} {s : Node} {tr : List Trans}
    (h : Run (step devId) (boot devId flash) tr s) : Asks tr s := by
  refine h.invariant (I := Asks) ⟨by simp, fun _ _ _ hp => by cases hp⟩ ?_
  intro tr s i s' outs _ ih hstep
  have hsent : (∀ id data r, .sent id data r ∉ outs) → ∀ id data r,
      .sent id data r ∈ outputs (tr ++ [⟨s, i, outs, s'⟩]) →
        .event (.send id data) ∈ outputs (tr ++ [⟨s, i, outs, s'⟩]) := by
    intro hnone id data r hr
    rw [Mealy.outputs_append, Mealy.outputs_singleton] at hr ⊢
    rcases List.mem_append.mp hr with hr | hr
    · exact List.mem_append_left _ (ih.sent id data r hr)
    · exact absurd hr (hnone id data r)
  cases step_stepped hstep with
  | main _ _ _ =>
    refine ⟨hsent (by simp), fun id data p hp => ?_⟩
    simp [calls_send hp]
  | sendGoes hrun =>
    refine ⟨hsent (by simp), fun id data p hp => ?_⟩
    cases hp
    simpa using ih.running _ _ _ hrun
  | sendReturns hrun _ =>
    refine ⟨fun id data r hr => ?_, fun _ _ _ hp => by cases hp⟩
    rw [Mealy.outputs_append, Mealy.outputs_singleton] at hr ⊢
    refine List.mem_append_left _ ?_
    rcases List.mem_append.mp hr with hr | hr
    · exact ih.sent id data r hr
    · cases List.mem_singleton.mp hr
      exact ih.running _ _ _ hrun
  | timer _ _ =>
    refine ⟨hsent (by simp), fun id data p hp => ?_⟩
    simpa using Or.inl (ih.running id data p hp)
  | recvReturns _ _ _ => exact ⟨hsent (by simp), fun _ _ _ hp => by cases hp⟩
  | _ => exact ⟨hsent (by simp), fun _ _ _ hp => by cases hp⟩

theorem input_received {B : Backend} {tr : List (Pump.Trans B)} {x : Pump.Trans B} {m : Msg}
    (hx : x ∈ tr) (hm : x.input = .recv (some m)) : m ∈ Pump.received tr :=
  List.mem_filterMap.mpr ⟨x, hx, by rw [hm]; rfl⟩

/-- `mcpGetEID` leaves two bits of the message kind clear, so that an AVR device cannot be
programmed: whatever is received over SPI, it stays `IDLE` until the time runs out,
answers nothing but `PAGE_SELECTED`, and leaves the loop by the timeout only, with the
page buffer empty and the flash untouched. -/
theorem never_programmed {devId : U8} {flash : ResetFlash avr} {tr : List Trans} {s : Node}
    (h : Run (step devId) (boot devId flash) tr s) :
    (s.dev.state = .idle ∨ s.dev.state = .done) ∧
    s.dev.selPage.writeOffset = 0 ∧ s.dev.selPage.writes = Vector.replicate _ 0 ∧
    avr.flash.contents s.dev.flash = avr.flash.contents flash.val ∧
    avr.flash.ops s.dev.flash = [] ∧ avr.flash.locked s.dev.flash = true ∧
    (s.dev.pc = .flashLock ∨ s.dev.pc = .jump → .event .onTimeout ∈ outputs tr) ∧
    (∀ e, .event e ∈ outputs tr →
      e = .onTimeout ∨ ∃ bytes, e = reply devId cnCanMsgPageSelected bytes) ∧
    ∀ id data r, .sent id data r ∈ outputs tr → id = cnCANDevMask cnCanMsgPageSelected devId := by
  obtain ⟨tr', hrun, hreceived, houtputs⟩ := runs_pump h
  have hinert : Inert devId flash tr' s.dev := by
    refine run_inert hrun fun x hx m hm => ?_
    exact (run_hears h).handled m (hreceived ▸ input_received hx hm)
  have hemitted : ∀ e, .event e ∈ outputs tr ↔ e ∈ outputs tr' := by
    intro e
    rw [houtputs, emitted, List.mem_filterMap]
    constructor
    · exact fun he => ⟨_, he, rfl⟩
    · rintro ⟨o, ho, he⟩
      cases o with
      | event e' =>
        cases he
        exact ho
      | _ => cases he
  have hD := avr.lockRespected
  have hreset := hD.reset _ flash.property
  have hops := hD.reset_ops _ flash.property
  refine ⟨hinert.state, hinert.writeOffset, hinert.writes, ?_, ?_, ?_,
    fun hpc => (hemitted _).mpr (hinert.left hpc), fun e he => hinert.outs e ((hemitted e).mp he),
    fun id data r hr => ?_⟩
  · rcases hinert.unchanged with hf | hf <;> rw [hf]
    exact hD.lock_contents _
  · rcases hinert.unchanged with hf | hf <;> rw [hf]
    · exact hops
    · rw [hD.lock_ops, hops]
  · rcases hinert.unchanged with hf | hf <;> rw [hf]
    · exact hreset
    · exact hD.lock_locked _
  · rcases hinert.outs _ ((hemitted _).mp ((run_asks h).sent id data r hr)) with he | ⟨bytes, he⟩
    · cases he
    · exact (Event.send.inj he).1

/-- A page is selected, then the time runs out; the controller answers `cnCANInit` with
zeros. -/
def selectInputs : List Input :=
  List.replicate 14 (.spi 0) ++ List.replicate 4 (.main fun _ => 0) ++
    [0, 0, 0x40, 0, 0, 0, 0x54, 0x8B, 0x01, 0x28, 4, 0x80, 0, 0, 0, 0].map .spi ++
    [.main fun _ => 0] ++ List.replicate 23 (.spi 0) ++ [.expire, .irq] ++
    List.replicate 2 (.main fun _ => 0)

theorem never_programmed_selects : ∃ tr s, Run (step 42) (boot 42 Pump.avrFresh) tr s ∧
    s.dev.pc = .jump ∧ s.dev.selPage.addr.toNat = 0x80 ∧
    .sent (cnCANDevMask cnCanMsgPageSelected 42) [0x80, 0, 0, 0] 8 ∈ outputs tr ∧
    .event .onTimeout ∈ outputs tr ∧
    avr.flash.contents s.dev.flash = avr.flash.contents Pump.avrFresh.val := by
  obtain ⟨tr, s, hrun, hp⟩ := Mealy.run_of_exec_any (M := step 42) (s := boot 42 Pump.avrFresh)
    (p := fun r => decide (r.2.dev.pc = .jump ∧ r.2.dev.selPage.addr.toNat = 0x80 ∧
      Output.sent (cnCANDevMask cnCanMsgPageSelected 42) [0x80, 0, 0, 0] 8 ∈ outputs r.1))
    selectInputs (by decide +kernel)
  obtain ⟨hpc, haddr, hsent⟩ := of_decide_eq_true hp
  obtain ⟨_, _, _, hcontents, _, _, htimeout, _⟩ := never_programmed hrun
  exact ⟨tr, s, hrun, hpc, haddr, hsent, htimeout (.inr hpc), hcontents⟩

end CANnuccia.AvrNode

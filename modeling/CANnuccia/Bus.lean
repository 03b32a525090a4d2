import CANnuccia.Session

/-!
# Devices on one bus

Every frame on the bus, from the master or from a device, is put before the filters of
all devices. A device takes the frames built for its own id and no others.
-/
namespace CANnuccia.Pump

open Util CanMsgs
open Mealy (Machine Transition Run Unwinding inputs outputs)

/-- What the master sends. -/
inductive Command where
  | progReq | progDone | unlock | selectPage | seek | write | checkWrites | commitWrites
  deriving DecidableEq, Repr

def Command.kind : Command → U32
  | .progReq => cnCanMsgProgReq
  | .progDone => cnCanMsgProgDone
  | .unlock => cnCanMsgUnlock
  | .selectPage => cnCanMsgSelectPage
  | .seek => cnCanMsgSeek
  | .write => cnCanMsgWrite
  | .checkWrites => cnCanMsgCheckWrites
  | .commitWrites => cnCanMsgCommitWrites

/-- Where the handler of a command starts. -/
def Command.entry : Command → List U8 → Pc
  | .progReq, _ => .progReqTest
  | .progDone, _ => .progDone
  | .unlock, _ => .unlockTest
  | .selectPage, data => .selectPage data
  | .seek, data => .seek data
  | .write, data => .write data
  | .checkWrites, _ => .checkWrites
  | .commitWrites, _ => .commitTest

/-- What a device sends. -/
inductive Answer where
  | progReqResp | progDoneAck | unlocked | pageSelected | writesChecked | writesCommitted
  deriving DecidableEq, Repr

def Answer.kind : Answer → U32
  | .progReqResp => cnCanMsgProgReqResp
  | .progDoneAck => cnCanMsgProgDoneAck
  | .unlocked => cnCanMsgUnlocked
  | .pageSelected => cnCanMsgPageSelected
  | .writesChecked => cnCanMsgWritesChecked
  | .writesCommitted => cnCanMsgWritesCommitted

/-- The frame of a `cnCANSend`; a frame carries at most eight bytes. -/
def frame (id : U32) (data : List U8) : Msg := ⟨id, data.take 8, by simp⟩

/-- The filter `main` gives to `cnCANInit`. -/
def accepts (devId : U8) (f : Msg) : Bool :=
  f.id &&& cnCanTxFilterMask = cnCANDevMask cnCanTxFilterId devId &&& cnCanTxFilterMask

/-- The device id in a masked identifier. -/
theorem masked_dev (devId : U8) (kind : U32) (hk : ∀ i < 8, kind.getLsbD (i + 4) = false) :
    ((cnCANDevMask kind devId &&& cnCanTxFilterMask) >>> 4).setWidth 8 = devId := by
  apply BitVec.eq_of_getLsbD_eq
  intro i hi
  have hbit := hk i hi
  interval_cases i <;> simp at hbit <;> simp [cnCANDevMask, cnCanTxFilterMask, hbit]

theorem masked_or (kind : U32) (devId : U8) : cnCANDevMask kind devId &&& cnCanTxFilterMask =
    ((kind ||| 4#32) &&& cnCanTxFilterMask) ||| (devId.setWidth 32 <<< 4 &&& cnCanTxFilterMask) := by
  rw [cnCANDevMask, BitVec.or_assoc, BitVec.or_comm (devId.setWidth 32 <<< 4), ← BitVec.or_assoc,
    BitVec.and_or_distrib_right]

/-- A command gets through the filter of the device it is built for and of no other. -/
theorem accepts_command (devId e : U8) (k : Command) (data : List U8) :
    accepts devId (frame (cnCANDevMask k.kind e) data) = decide (e = devId) := by
  have hfilter := masked_dev devId cnCanTxFilterId (by decide)
  have hkind := masked_dev e k.kind (by cases k <;> decide)
  rw [accepts, decide_eq_decide]
  constructor
  · intro h
    have hdev : cnCANDevMask k.kind e &&& cnCanTxFilterMask = _ := h
    rw [← hkind, hdev, hfilter]
  · rintro rfl
    have hbase : (k.kind ||| 4#32) &&& cnCanTxFilterMask =
        (cnCanTxFilterId ||| 4#32) &&& cnCanTxFilterMask := by cases k <;> rfl
    have hdev : cnCANDevMask k.kind e &&& cnCanTxFilterMask = _ := masked_or _ _
    rw [hbase, ← masked_or] at hdev
    exact hdev

/-- No frame is for two devices. -/
theorem accepts_one {devId e : U8} {f : Msg} (h : accepts devId f = true) (hne : e ≠ devId) :
    accepts e f = false := by
  have hdev := masked_dev devId cnCanTxFilterId (by decide)
  have hdev' := masked_dev e cnCanTxFilterId (by decide)
  rw [accepts, decide_eq_false_iff_not, of_decide_eq_true h]
  intro hsame
  rw [hsame, hdev'] at hdev
  exact hne hdev

/-- No device takes what a device sends. -/
theorem accepts_answer (devId e : U8) (k : Answer) (data : List U8) :
    accepts devId (frame (cnCANDevMask k.kind e) data) = false := by
  rw [accepts, decide_eq_false_iff_not]
  intro h
  have hbit := congrArg (fun v => v.getLsbD 24) h
  cases k <;> simp [frame, cnCANDevMask, cnCanTxFilterMask, cnCanTxFilterId, Answer.kind,
    cnCanMsgProgReqResp, cnCanMsgUnlocked, cnCanMsgPageSelected, cnCanMsgWritesChecked,
    cnCanMsgWritesCommitted, cnCanMsgProgDoneAck] at hbit

/-- A command is handled as what it is. -/
theorem dispatch_command (devId : U8) (k : Command) (data : List U8) :
    dispatch (frame (cnCANDevMask k.kind devId) data) = k.entry (data.take 8) := by
  have hall := dispatch_master devId (data.take 8) (by simp)
  obtain ⟨hprogReq, hunlock, hselect, hseek, hwrite, hcheck, hcommit, hdone⟩ := hall
  cases k <;> assumption

variable {ι : Type}

/-- A device and what its controller has taken from the bus and not yet given to it. -/
structure Node (B : Backend) where
  dev : Dev B
  inbox : List Msg

/-- Someone sends a frame, or something happens in a device. -/
inductive BusInput (ι : Type) where
  | command (k : Command) (e : U8) (data : List U8)
  | answer (k : Answer) (e : U8) (data : List U8)
  | node (i : ι) (input : Input)
  deriving DecidableEq

abbrev Net (target : ι → Target) := (i : ι) → Node (target i).backend

/-- `cnCANRecv` gives the oldest message, or finds none. -/
def fetch : Input → List Msg → Option (List Msg)
  | .recv (some m), m' :: inbox => if m = m' then some inbox else none
  | .recv (some _), [] => none
  | .recv none, [] => some []
  | .recv none, _ :: _ => none
  | _, inbox => some inbox

variable {target : ι → Target}

/-- A frame is put before all filters. -/
def deliver (ids : ι → U8) (f : Msg) (net : Net target) : Net target :=
  fun i => if accepts (ids i) f then { net i with inbox := (net i).inbox ++ [f] } else net i

/-- What a device sends comes onto the bus. -/
def broadcast (ids : ι → U8) : List Event → Net target → Net target
  | [], net => net
  | .send id data :: outs, net => broadcast ids outs (deliver ids (frame id data) net)
  | _ :: outs, net => broadcast ids outs net

def busStep [DecidableEq ι] (target : ι → Target) (ids : ι → U8) :
    Machine (Net target) (BusInput ι) (ι × Event)
  | net, .command k e data => some (deliver ids (frame (cnCANDevMask k.kind e) data) net, [])
  | net, .answer k e data => some (deliver ids (frame (cnCANDevMask k.kind e) data) net, [])
  | net, .node i input => do
    let inbox ← fetch input (net i).inbox
    let (dev, outs) ← step (target i).backend (ids i) (net i).dev input
    some (broadcast ids outs (Function.update net i ⟨dev, inbox⟩), outs.map fun e => (i, e))

/-- All devices right before they start their timers. -/
def busBoot (target : ι → Target) (flash : ∀ i, ResetFlash (target i).backend) : Net target :=
  fun i => ⟨boot (flash i), []⟩

/-- A device sends nothing but answers under its own id. -/
theorem step_sends {B : Backend} {devId : U8} {d d' : Dev B} {i : Input} {outs : List Event}
    (h : step B devId d i = some (d', outs)) {id : U32} {data : List U8}
    (hs : .send id data ∈ outs) : ∃ k : Answer, id = cnCANDevMask k.kind devId := by
  have hreply : ∀ (k : Answer) bytes, Event.send id data = reply devId k.kind bytes →
      ∃ k : Answer, id = cnCANDevMask k.kind devId := by
    intro k bytes he
    rw [reply, Event.send.injEq] at he
    exact ⟨k, he.1⟩
  cases step_moved h with
  | main hm _ =>
    cases hm with
    | progReqResp _ => exact hreply .progReqResp _ (List.mem_singleton.mp hs)
    | unlockReply _ => exact hreply .unlocked _ (List.mem_singleton.mp hs)
    | selectPage data' _ =>
      obtain ⟨bytes, hb⟩ := selectPage_outs hs
      exact hreply .pageSelected bytes hb
    | checkWrites _ => exact hreply .writesChecked _ (List.mem_singleton.mp hs)
    | commitWrites _ _ _ hc =>
      rcases commitWrites_outs hc with rfl | rfl
      · cases hs
      · exact hreply .writesCommitted _ (List.mem_singleton.mp hs)
    | progDone _ => exact hreply .progDoneAck _ (List.mem_singleton.mp hs)
    | _ => simp at hs
  | _ => simp at hs

variable {ids : ι → U8} {net : Net target}

theorem deliver_answer (k : Answer) (e : U8) (data : List U8) :
    deliver ids (frame (cnCANDevMask k.kind e) data) net = net := by
  funext i
  rw [deliver, accepts_answer]
  rfl

theorem deliver_command (k : Command) (e : U8) (data : List U8) (i : ι) :
    deliver ids (frame (cnCANDevMask k.kind e) data) net i =
      if e = ids i then { net i with
        inbox := (net i).inbox ++ [frame (cnCANDevMask k.kind e) data] } else net i := by
  rw [deliver, accepts_command]
  by_cases he : e = ids i <;> simp [he]

/-- No device notices what a device sends. -/
theorem broadcast_answers {devId : U8} {outs : List Event}
    (h : ∀ id data, .send id data ∈ outs → ∃ k : Answer, id = cnCANDevMask k.kind devId) :
    broadcast ids outs net = net := by
  induction outs generalizing net with
  | nil => rfl
  | cons e outs ih =>
    have hrest : broadcast ids outs net = net :=
      ih fun id data hm => h id data (List.mem_cons_of_mem e hm)
    cases e with
    | send id data =>
      obtain ⟨k, rfl⟩ := h id data (List.mem_cons_self ..)
      rw [broadcast, deliver_answer, hrest]
    | _ => exact hrest

variable [DecidableEq ι]

/-- A step of a device changes that device only. -/
theorem busStep_node {i : ι} {input : Input} {net' : Net target} {outs : List (ι × Event)} :
    busStep target ids net (.node i input) = some (net', outs) ↔
      ∃ inbox dev o, fetch input (net i).inbox = some inbox ∧
        step (target i).backend (ids i) (net i).dev input = some (dev, o) ∧
        net' = Function.update net i ⟨dev, inbox⟩ ∧ outs = o.map fun e => (i, e) := by
  have hquiet : ∀ inbox dev o, step (target i).backend (ids i) (net i).dev input = some (dev, o) →
      broadcast ids o (Function.update net i ⟨dev, inbox⟩) = Function.update net i ⟨dev, inbox⟩ :=
    fun inbox dev o hs => broadcast_answers fun id data hm => step_sends hs hm
  simp only [busStep, Option.bind_eq_bind, Option.bind_eq_some_iff, Prod.exists, Option.some.injEq,
    Prod.mk.injEq]
  constructor
  · rintro ⟨inbox, hf, dev, o, hs, rfl, rfl⟩
    exact ⟨inbox, dev, o, hf, hs, hquiet inbox dev o hs, rfl⟩
  · rintro ⟨inbox, dev, o, hf, hs, rfl, rfl⟩
    exact ⟨inbox, hf, dev, o, hs, hquiet inbox dev o hs, rfl⟩

/-- The frames built for a device's id, and its own steps. -/
def isFor (ids : ι → U8) (i : ι) : BusInput ι → Bool
  | .command _ e _ => e = ids i
  | .answer _ _ _ => false
  | .node j _ => j = i

/-- What device `i` emits. -/
def isFrom (i : ι) (e : ι × Event) : Bool := e.1 = i

theorem isolating (target : ι → Target) (ids : ι → U8) (i : ι) :
    Unwinding (busStep target ids) (fun net => net i) (isFor ids i) (isFrom i) where
  respects := by
    intro net net' x outs hv hstep
    cases x with
    | command k e data =>
      cases hstep
      have hne : e ≠ ids i := of_decide_eq_false hv
      exact ⟨by rw [deliver_command, if_neg hne], rfl⟩
    | answer k e data =>
      cases hstep
      exact ⟨by rw [deliver_answer], rfl⟩
    | node j input =>
      have hne : j ≠ i := of_decide_eq_false hv
      obtain ⟨inbox, dev, o, _, _, rfl, rfl⟩ := busStep_node.mp hstep
      refine ⟨Function.update_of_ne hne.symm _ _, ?_⟩
      simp [isFrom, List.filter_map, Function.comp_def, hne]
  consistent := by
    intro net net' net₁ x outs hv hstep hsame
    cases x with
    | command k e data =>
      cases hstep
      refine ⟨_, _, rfl, ?_, rfl⟩
      rw [deliver_command, deliver_command, hsame]
    | answer k e data => cases hv
    | node j input =>
      obtain rfl : j = i := of_decide_eq_true hv
      obtain ⟨inbox, dev, o, hf, hs, rfl, rfl⟩ := busStep_node.mp hstep
      rw [← hsame] at hf hs
      refine ⟨_, _, busStep_node.mpr ⟨inbox, dev, o, hf, hs, rfl, rfl⟩, ?_, rfl⟩
      rw [Function.update_self, Function.update_self]

/-- What one step on the bus does to device `i`. -/
structure Isolated (target : ι → Target) (ids : ι → U8) (i : ι)
    (x : Transition (Net target) (BusInput ι) (ι × Event)) : Prop where
  untouched : isFor ids i x.input = false → x.post i = x.pre i
  own : ∀ input, x.input = .node i input → fetch input (x.pre i).inbox = some (x.post i).inbox ∧
    ∃ outs, step (target i).backend (ids i) (x.pre i).dev input = some ((x.post i).dev, outs) ∧
      x.outs = outs.map fun e => (i, e)
  delivered : ∀ k data, x.input = .command k (ids i) data →
    ∃ f, x.post i = { x.pre i with inbox := (x.pre i).inbox ++ [f] } ∧
      dispatch f = k.entry (data.take 8)

theorem busStep_isolated {x : Transition (Net target) (BusInput ι) (ι × Event)} (i : ι)
    (h : busStep target ids x.pre x.input = some (x.post, x.outs)) : Isolated target ids i x where
  untouched hv := ((isolating target ids i).respects hv h).1
  own := by
    intro input hi
    rw [hi] at h
    obtain ⟨inbox, dev, o, hf, hs, hpost, houts⟩ := busStep_node.mp h
    rw [hpost, Function.update_self]
    exact ⟨hf, o, hs, houts⟩
  delivered := by
    intro k data hi
    rw [hi] at h
    simp only [busStep, Option.some.injEq, Prod.mk.injEq] at h
    refine ⟨frame (cnCANDevMask k.kind (ids i)) data, ?_, dispatch_command _ k data⟩
    rw [← h.1, deliver_command, if_pos rfl]

/-- On a bus with any devices and any frames of the master and of devices, a device ends
as it would with the frames built for its own id alone, and sends the same. No step but
its own and no frame but these changes it, and each of these is delivered and handled as
what it is. -/
theorem isolation (target : ι → Target) (ids : ι → U8)
    (flash : ∀ i, ResetFlash (target i).backend)
    {tr : List (Transition (Net target) (BusInput ι) (ι × Event))} {net : Net target}
    (h : Run (busStep target ids) (busBoot target flash) tr net) (i : ι) :
    (∃ tr' net', Run (busStep target ids) (busBoot target flash) tr' net' ∧
      inputs tr' = (inputs tr).filter (isFor ids i) ∧ net' i = net i ∧
      (outputs tr').filter (isFrom i) = (outputs tr).filter (isFrom i)) ∧
    ∀ x ∈ tr, Isolated target ids i x := by
  refine ⟨(isolating target ids i).purge h rfl, fun x hx => ?_⟩
  obtain ⟨_, _, _, _, hstep⟩ := h.of_mem hx
  exact busStep_isolated i hstep

section Two

/-- An STM32 with the id 1 and an AVR with the id 2. -/
def two : Bool → Target
  | false => .stm32
  | true => .avr

def twoIds : Bool → U8
  | false => 1
  | true => 2

def twoFlash : (i : Bool) → ResetFlash (two i).backend
  | false => stm32Fresh
  | true => avrFresh

/-- A PROG_REQ for the first device, amid frames for the second and from it. -/
def twoInputs : List (BusInput Bool) :=
  [.node false .main, .node false .main, .node true .main, .node true .main,
    .command .progReq 1 [], .command .unlock 2 [], .answer .unlocked 2 [],
    .node true .main, .node true (.recv (some (frame (cnCANDevMask cnCanMsgUnlock 2) []))),
    .node false .main, .node false (.recv (some (frame (cnCANDevMask cnCanMsgProgReq 1) []))),
    .node true .main] ++ List.replicate 4 (.node false .main)

theorem isolation_two : ∃ tr net, Run (busStep two twoIds) (busBoot two twoFlash) tr net ∧
    (net false).dev.state = .locked ∧ (net true).dev.state = .idle ∧
    ∃ tr' net', Run (busStep two twoIds) (busBoot two twoFlash) tr' net' ∧
      inputs tr' = (inputs tr).filter (isFor twoIds false) ∧ net' false = net false := by
  obtain ⟨tr, net, hrun, hp⟩ := Mealy.run_of_exec_any (M := busStep two twoIds)
    (s := busBoot two twoFlash)
    (p := fun r => decide ((r.2 false).dev.state = .locked ∧ (r.2 true).dev.state = .idle))
    twoInputs (by decide +kernel)
  obtain ⟨hlocked, hidle⟩ := of_decide_eq_true hp
  obtain ⟨⟨tr', net', hrun', hin, hsame, _⟩, _⟩ := isolation two twoIds twoFlash hrun false
  exact ⟨tr, net, hrun, hlocked, hidle, tr', net', hrun', hin, hsame⟩

end Two

end CANnuccia.Pump

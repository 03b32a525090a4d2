import CANnuccia.NodeSession
import CANnuccia.Parallel

/-!
# STM32 devices on one bus

Every device runs its driver access by access. What the master sends arrives at all of
them, what one of them transmits at all others. Each device is programmed with what is
sent for it, whatever else happens on the bus.
-/
namespace CANnuccia.NodeBus

open Util CanMsgs
open BxCan (Controller Setup Call requested)
open Stm32Can (Mailbox onBus)
open Stm32Node (Node Input Out Trans Stepped Driving Listening Resting Starting TimelyProgReq
  answered boot messageOf overruns pending placed ready step step_stepped stored)
open Pump (Answer ResetFlash accepts frame session answers Programmed Job)
open Observed (Output emitted)
open Mealy (Machine Transition Run Wiring component components outputs parallel reaction)

variable {ι : Type}

/-- The master sends a frame, or something happens in a device. -/
inductive BusInput (ι : Type) where
  | master (m : Mailbox)
  | node (i : ι) (x : Input)

/-- The frame that a device transmits. -/
def frameOf (s : Node) : Input → Option Mailbox
  | .move (.complete n) => some (onBus (s.can.outbox n))
  | _ => none

def isArrival : Input → Bool
  | .move (.arrive _) => true
  | _ => false

section

variable [DecidableEq ι]

/-- A frame arrives at a device if it is on the bus, and only then. -/
def wiring (ids : ι → U8) : Wiring ι Node Input (BusInput ι) Mailbox where
  input net x i :=
    match x with
    | .master m => some (.move (.arrive m))
    | .node j y => if j = i then some y else (frameOf (net j) y).map fun m => .move (.arrive m)
  takes net x :=
    match x with
    | .master _ => true
    | .node j y => !isArrival y && (step (ids j) (net j) y).isSome
  outs net x :=
    match x with
    | .master m => [m]
    | .node j y => (frameOf (net j) y).toList

def busStep (ids : ι → U8) : Machine (ι → Node) (BusInput ι) Mailbox :=
  parallel (fun i => step (ids i)) (wiring ids)

end

/-- What is in a device before `cnCANInit`. -/
structure Reset where
  flash : ResetFlash stm32
  filter : Nat → U32 × U32
  ports : BxCan.Port → U32
  inMsgData : Nat → U8

def busBoot (ids : ι → U8) (resets : ι → Reset) : ι → Node :=
  fun i => boot (ids i) (resets i).flash (resets i).filter (resets i).ports (resets i).inMsgData

abbrev BusTrans (ι : Type) := Transition (ι → Node) (BusInput ι) Mailbox

/-- The run of one device. -/
def runOf [DecidableEq ι] (ids : ι → U8) (i : ι) (tr : List (BusTrans ι)) : List Trans :=
  components (fun i => step (ids i)) (wiring ids) i tr

def sentBy (x : BusTrans ι) : Option Msg :=
  match x.input with
  | .master m => some (messageOf m)
  | .node _ _ => none

/-- What the master has sent. -/
def mastered (tr : List (BusTrans ι)) : List Msg := tr.filterMap sentBy

theorem mastered_snoc (tr : List (BusTrans ι)) (x : BusTrans ι) :
    mastered (tr ++ [x]) = mastered tr ++ (sentBy x).toList := by
  rw [mastered, List.filterMap_append]
  cases hx : sentBy x <;> simp [mastered, hx]

/-- What happens to one device, on the bus. -/
def onlyTo (i : ι) : Input → BusInput ι
  | .move (.arrive m) => .master m
  | x => .node i x

variable {i : ι} {x : Input}

theorem isArrival_move (h : isArrival x = true) : ∃ m, x = .move (.arrive m) := by
  cases x with
  | move y =>
    cases y with
    | arrive m => exact ⟨m, rfl⟩
    | _ => cases h
  | _ => cases h

theorem onlyTo_master {m : Mailbox} (h : onlyTo i x = .master m) : x = .move (.arrive m) := by
  cases x with
  | move y =>
    cases y with
    | arrive m' =>
      cases h
      rfl
    | _ => cases h
  | _ => cases h

theorem onlyTo_node (h : isArrival x = false) : onlyTo i x = .node i x := by
  cases x with
  | move y =>
    cases y with
    | arrive m => cases h
    | _ => rfl
  | _ => rfl

variable [DecidableEq ι] {ids : ι → U8} {resets : ι → Reset} {tr : List (BusTrans ι)}
variable {net : ι → Node}

theorem runOf_run (h : Run (busStep ids) (busBoot ids resets) tr net) (i : ι) :
    Run (step (ids i)) (busBoot ids resets i) (runOf ids i tr) (net i) :=
  Mealy.components_run h i

/-- In `cnCANInit` the controller comes to leave initialization mode, after it it has. -/
structure Waking (k : Setup) (devId : U8) (s : Node) : Prop where
  init : ∀ p, s.running = .init p → p.returned = none ∧
    Mmio.Meets BxCan.device BxCan.Moves
      (BxCan.Configures (Stm32Node.filterOf devId).id (Stm32Node.filterOf devId).mask)
      (fun r s => r = (1, true) ∧ BxCan.Awake k s) p s.can
  awake : Listening s → s.can.inak = false

variable {k : Setup} {devId : U8} {s s' : Node} {outs : List Out}

theorem driving_setup (h : Driving k devId s.running s.can) (hl : Listening s) :
    s.can.setup = k := by
  generalize hr : s.running = r at h
  cases h with
  | init _ _ _ => exact absurd hr (hl _)
  | idle hk | poll hk | fetch hk _ _ | free hk _ | test hk | choose hk _ | fill hk _ _ => exact hk

/-- Nothing changes but in `cnCANInit` and by the controller itself. -/
theorem waking_quiet (h : Waking k devId s) (hl : Listening s) (hl' : Listening s')
    (hinak : s'.can.inak = s.can.inak) : Waking k devId s' :=
  ⟨fun p hp => absurd hp (hl' p), fun _ => hinak.trans (h.awake hl)⟩

theorem waking_step (hk : k.mcr &&& BxCan.canMcrInrq = 0) (hd : Driving k devId s.running s.can)
    (h : Waking k devId s) (hs : Stepped devId s x s' outs) : Waking k devId s' := by
  cases hs with
  | main hrun _ _ =>
    exact waking_quiet h (by simp [Listening, hrun]) (Stm32Node.calls_listening _) rfl
  | recv hrun _ => exact waking_quiet h (by simp [Listening, hrun]) (by simp [Listening]) rfl
  | initGoes hrun hnot =>
    obtain ⟨hgoes, hmeets⟩ := h.init _ hrun
    refine ⟨?_, fun hl => absurd rfl (hl _)⟩
    rintro p hp
    cases hp
    exact ⟨hnot, (hmeets.step hgoes).2⟩
  | initReturns hrun hr =>
    obtain ⟨hgoes, hmeets⟩ := h.init _ hrun
    exact ⟨by simp, fun _ => ((hmeets.step hgoes).2.ended hr).2.2⟩
  | recvGoes hrun _ | recvReturns hrun _ _ | sendGoes hrun _ | sendReturns hrun _ =>
    exact waking_quiet h (by simp [Listening, hrun]) (by simp [Listening])
      (Stm32Node.access_inak _ _)
  | timer _ _ => exact ⟨h.init, h.awake⟩
  | @move x can hmove =>
    have hmoves := BxCan.move_moves hmove
    refine ⟨fun p hp => ?_, fun hl => ?_⟩
    · obtain ⟨hgoes, hmeets⟩ := h.init p hp
      exact ⟨hgoes, hmeets.moved hgoes hmoves⟩
    · exact (BxCan.awake_stable hk _ _ ⟨driving_setup hd hl, h.awake hl⟩ hmoves).2

variable {flash : ResetFlash stm32} {filter : Nat → U32 × U32} {ports : BxCan.Port → U32}
variable {inMsgData : Nat → U8} {l : List Trans}

theorem waking_run (h : Run (step devId) (boot devId flash filter ports inMsgData) l s) :
    Waking (ready devId filter ports) devId s := by
  refine h.invariant (I := fun _ s => Waking (ready devId filter ports) devId s) ?_ ?_
  · refine ⟨?_, fun hl => absurd rfl (hl _)⟩
    rintro p hp
    cases hp
    exact ⟨rfl, BxCan.first_awake rfl⟩
  · intro l s i s' outs hrun hI hstep
    have hready : (ready devId filter ports).mcr &&& BxCan.canMcrInrq = 0 := by
      simp [ready, BxCan.configured, BxCan.canMcrInrq]
    exact waking_step hready (Stm32Node.traffics_run hrun).driving hI (step_stepped hstep)

/-- What arrives at a device that listens. -/
theorem arrive_moves (h : Run (step devId) (boot devId flash filter ports inMsgData) l s)
    (hl : Listening s) (m : Mailbox) : s.can.move (.arrive m) = some (s.can.arrive m) ∧
      s.can.setup.accepts m.ir = accepts devId (messageOf m) := by
  have hinak := (waking_run h).awake hl
  have hsetup := driving_setup (Stm32Node.traffics_run h).driving hl
  constructor
  · rw [Controller.move, if_pos]
    rw [hsetup, Stm32Node.ready_finit]
    exact ⟨hinak, rfl⟩
  · rw [hsetup]
    simp [Setup.accepts, ready, BxCan.configured, Stm32Node.filterOf, accepts, messageOf, frame]
    rfl

/-- Once it listens, a device stores the frames that pass its filter. -/
theorem arrive_listening (h : Run (step devId) (boot devId flash filter ports inMsgData) l s)
    (hl : Listening s) (m : Mailbox) : ∃ s' outs,
      step devId s (.move (.arrive m)) = some (s', outs) ∧
      outs.filterMap Out.stored = if accepts devId (messageOf m) then [m] else [] := by
  obtain ⟨hmove, hfilter⟩ := arrive_moves h hl m
  refine ⟨_, _, by rw [step, hmove]; rfl, ?_⟩
  rw [Controller.traffic, hfilter]
  cases accepts devId (messageOf m) with
  | false => rfl
  | true => cases s.can.fifo.isFull <;> rfl

/-- The other frames do nothing to it. -/
theorem arrive_foreign (h : Run (step devId) (boot devId flash filter ports inMsgData) l s)
    (hl : Listening s) {m : Mailbox} (hm : accepts devId (messageOf m) = false) :
    step devId s (.move (.arrive m)) = some (s, []) := by
  obtain ⟨hmove, hfilter⟩ := arrive_moves h hl m
  have hrejects : ¬ s.can.setup.accepts m.ir = true := by
    rw [hfilter, hm]
    exact Bool.false_ne_true
  rw [step, hmove, Controller.traffic, if_neg hrejects, Controller.arrive, if_neg hrejects]
  rfl

theorem stored_events (outs : List Pump.Event) :
    (outs.map Output.event).filterMap Out.stored = [] := by
  induction outs with
  | nil => rfl
  | cons e outs ih => exact ih

/-- What is stored has arrived. -/
theorem stepped_stored (h : Stepped devId s x s' outs) {m : Mailbox}
    (hm : m ∈ outs.filterMap Out.stored) : x = .move (.arrive m) := by
  cases h with
  | main _ _ _ | timer _ _ =>
    rw [stored_events] at hm
    cases hm
  | recvReturns _ _ _ =>
    rw [List.filterMap_cons_none rfl, stored_events] at hm
    cases hm
  | @move x can hmove =>
    cases x with
    | arrive m' =>
      rw [Controller.traffic] at hm
      split at hm
      · cases hfull : s.can.fifo.isFull <;> simp_all [Out.stored]
      · cases hm
    | complete n => cases hm
    | ack => cases hm
  | _ => cases hm

/-- What is stored passes the filter, also while `cnCANInit` runs. -/
theorem stored_accepted (h : Run (step devId) (boot devId flash filter ports inMsgData) l s)
    (hstep : step devId s x = some (s', outs)) {m : Mailbox}
    (hm : m ∈ outs.filterMap Out.stored) : accepts devId (messageOf m) = true := by
  have hdriving := (Stm32Node.traffics_run h).driving
  have hmoved := (Stm32Node.driving_step hdriving (step_stepped hstep)).2
  exact Stm32Node.driving_accepts hdriving (Stm32Node.stored_moved hmoved hm)

/-- Whatever is pending is an answer under the device's own id. -/
theorem pending_answer (h : Run (step devId) (boot devId flash filter ports inMsgData) l s)
    {m : Mailbox} (hm : m ∈ pending s.can) :
    ∃ (k : Answer) (data : List U8),
      messageOf (onBus m) = frame (cnCANDevMask k.kind devId) data := by
  have hI := Stm32Node.traffics_run h
  have hplaced : m ∈ placed l := hI.kept.mem_iff.mpr (List.mem_append_right _ hm)
  have hanswered : messageOf (onBus m) ∈ answered l := by
    rw [Stm32Node.answered_placed hI]
    exact List.mem_map_of_mem hplaced
  obtain ⟨o, ho, he⟩ := List.mem_filterMap.mp hanswered
  cases o with
  | sent id data r =>
    have hsends : (id, data) ∈ (emitted l).filterMap Stm32Node.sends := by
      rw [← hI.calls]
      exact List.mem_append_left _ (List.mem_filterMap.mpr ⟨_, ho, rfl⟩)
    obtain ⟨e, hemitted, hsend⟩ := List.mem_filterMap.mp hsends
    obtain ⟨tr', hrun, _, houtputs⟩ := Stm32Node.runs_pump h
    rw [← houtputs] at hemitted
    obtain ⟨t, ht, het⟩ := List.mem_flatMap.mp hemitted
    obtain ⟨_, _, _, _, hstep⟩ := hrun.of_mem ht
    cases e with
    | send id' data' =>
      cases hsend
      obtain ⟨k, rfl⟩ := Pump.step_sends hstep het
      refine ⟨k, data, ?_⟩
      by_cases hr : 0 ≤ r
      · exact (Option.some.inj ((if_pos hr).symm.trans he)).symm
      · cases (if_neg hr).symm.trans he
    | _ => cases hsend
  | _ => cases he

/-- No device stores what another one transmits. -/
theorem frameOf_rejected (h : Run (step devId) (boot devId flash filter ports inMsgData) l s)
    (hstep : step devId s x = some (s', outs)) {m : Mailbox} (hm : frameOf s x = some m) (e : U8) :
    accepts e (messageOf m) = false := by
  cases x with
  | move y =>
    cases y with
    | complete n =>
      cases hm
      obtain ⟨can, hmove, _⟩ := Option.map_eq_some_iff.mp hstep
      rw [Controller.move, Option.ite_none_right_eq_some] at hmove
      have hpending : s.can.outbox n ∈ pending s.can :=
        List.mem_filterMap.mpr ⟨n, List.mem_finRange n, if_pos hmove.1⟩
      obtain ⟨k, data, hanswer⟩ := pending_answer h hpending
      rw [hanswer]
      exact Pump.accepts_answer e devId k data
    | _ => cases hm
  | _ => cases hm

variable {net' : ι → Node} {y : BusInput ι} {frames : List Mailbox}

/-- What the master sends for device `i` comes when that listens. -/
def Heard (ids : ι → U8) (i : ι) (t : BusTrans ι) : Prop :=
  ∀ m, t.input = .master m → accepts (ids i) (messageOf m) = true → Listening (t.pre i)

theorem component_stored {t : BusTrans ι} {m : Mailbox}
    (hm : m ∈ stored (component (fun i => step (ids i)) (wiring ids) i t)) :
    ∃ x s' outs, (wiring ids).input t.pre t.input i = some x ∧
      step (ids i) (t.pre i) x = some (s', outs) ∧ m ∈ outs.filterMap Out.stored := by
  rw [component] at hm
  cases hr : reaction (fun i => step (ids i)) (wiring ids) t.pre t.input i with
  | none =>
    rw [hr] at hm
    cases hm
  | some r =>
    obtain ⟨x, s', outs⟩ := r
    rw [hr] at hm
    obtain ⟨hinput, hstep⟩ := Mealy.reaction_step hr
    refine ⟨x, s', outs, hinput, hstep, ?_⟩
    rw [stored, Mealy.outputs_singleton] at hm
    exact hm

/-- Nothing that is stored came from a device. -/
theorem stored_master (h : Run (busStep ids) (busBoot ids resets) tr net)
    (hstep : busStep ids net y = some (net', frames)) {m : Mailbox}
    (hm : m ∈ stored (component (fun i => step (ids i)) (wiring ids) i ⟨net, y, frames, net'⟩)) :
    y = .master m ∧ accepts (ids i) (messageOf m) = true := by
  obtain ⟨x, s', outs, hinput, hx, hstored⟩ := component_stored hm
  have harrives := stepped_stored (step_stepped hx) hstored
  have haccepts := stored_accepted (runOf_run h i) hx hstored
  subst harrives
  refine ⟨?_, haccepts⟩
  cases y with
  | master m' =>
    cases hinput
    rfl
  | node j y =>
    obtain ⟨htakes, _, _⟩ := Mealy.parallel_takes hstep
    simp only [wiring, Bool.and_eq_true, Bool.not_eq_true'] at htakes
    obtain ⟨hnot, hsome⟩ := htakes
    simp only [wiring] at hinput
    split at hinput
    · cases hinput
      cases hnot
    · obtain ⟨m', hm', he⟩ := Option.map_eq_some_iff.mp hinput
      cases he
      obtain ⟨r, hr⟩ := Option.isSome_iff_exists.mp hsome
      have hrejected := frameOf_rejected (runOf_run h j) hr hm' (ids i)
      rw [haccepts] at hrejected
      cases hrejected

theorem master_stored (h : Run (busStep ids) (busBoot ids resets) tr net)
    (hheard : Heard ids i ⟨net, y, frames, net'⟩)
    (hstep : busStep ids net y = some (net', frames)) :
    (stored (component (fun i => step (ids i)) (wiring ids) i
        ⟨net, y, frames, net'⟩)).map messageOf =
      (sentBy ⟨net, y, frames, net'⟩).toList.filter (accepts (ids i)) := by
  have hnone : (∀ m, y = .master m → accepts (ids i) (messageOf m) = false) →
      stored (component (fun i => step (ids i)) (wiring ids) i ⟨net, y, frames, net'⟩) = [] := by
    intro hrejects
    refine List.eq_nil_iff_forall_not_mem.mpr fun m hm => ?_
    obtain ⟨hy, haccepts⟩ := stored_master h hstep hm
    rw [hrejects m hy] at haccepts
    cases haccepts
  cases y with
  | node j x =>
    rw [hnone (by simp)]
    rfl
  | master m =>
    cases hacc : accepts (ids i) (messageOf m) with
    | false =>
      rw [hnone (by rintro m' he; cases he; exact hacc)]
      simp [sentBy, hacc]
    | true =>
      obtain ⟨s', outs, hx, houts⟩ := arrive_listening (runOf_run h i) (hheard m rfl hacc) m
      have hreaction : reaction (fun i => step (ids i)) (wiring ids) net (.master m) i =
          some (.move (.arrive m), s', outs) := by
        rw [reaction]
        exact congrArg (Option.map _) hx
      rw [hacc] at houts
      rw [component, hreaction, stored, Mealy.outputs_singleton, houts]
      simp [sentBy, hacc]

/-- A device stores exactly what the master sends for it. -/
theorem stored_mastered (h : Run (busStep ids) (busBoot ids resets) tr net)
    (hheard : ∀ x ∈ tr, Heard ids i x) :
    (stored (runOf ids i tr)).map messageOf = (mastered tr).filter (accepts (ids i)) := by
  refine h.invariant_where (I := fun tr _ =>
    (stored (runOf ids i tr)).map messageOf = (mastered tr).filter (accepts (ids i))) hheard rfl ?_
  intro tr net y net' frames hrun hI hstep hx
  have hlast := master_stored hrun hx hstep
  have hsplit : stored (runOf ids i (tr ++ [⟨net, y, frames, net'⟩])) = stored (runOf ids i tr) ++
      stored (component (fun i => step (ids i)) (wiring ids) i ⟨net, y, frames, net'⟩) := by
    rw [runOf, Mealy.components_snoc, stored, Mealy.outputs_append, List.filterMap_append]
    rfl
  rw [hsplit, List.map_append, hI, hlast, mastered_snoc, List.filter_append]

/-- Any number of devices on one bus, their drivers cut at every access, with frames of the
master for all of them in any order: a device with a working key lock for which the master
sent the frames of a session, once it listened, that overran none and did not time out
before PROG_REQ answers the session and nothing else, and when it jumps to the program its
flash holds the pages of its own session and is locked. -/
theorem bus_programs (ids : ι → U8) (resets : ι → Reset)
    (h : Run (busStep ids) (busBoot ids resets) tr net) (i : ι)
    (hlock : (resets i).flash.1.lock = .locked) (jobs : List Job)
    (hsent : (mastered tr).filter (accepts (ids i)) = session (ids i) jobs)
    (hheard : ∀ x ∈ tr, Heard ids i x) (hover : overruns (runOf ids i tr) = 0)
    (htimely : TimelyProgReq (runOf ids i tr)) (hpc : (net i).dev.pc = .jump) :
    emitted (runOf ids i tr) = answers (ids i) jobs ∧
    Programmed jobs (stm32.flash.contents (resets i).flash.1)
      (stm32.flash.contents (net i).dev.flash) ∧
    (net i).dev.flash.lock = .locked := by
  have hframes := (stored_mastered h hheard).trans hsent
  obtain ⟨_, tr', hrun, hmessages, houtputs, hno⟩ :=
    Stm32Node.session_handled jobs (runOf_run h i) hframes hover htimely hpc
  obtain ⟨houts, hprogrammed, hlocked, _⟩ :=
    Stm32Node.session_jump hlock jobs hrun hpc hno hmessages
  exact ⟨houtputs.symm.trans houts, hprogrammed, hlocked⟩

/-- The frame that is on the bus in a step of a device, its own or the master's. -/
def airs (t : Trans) : Option Mailbox :=
  match t.input with
  | .move (.arrive m) => some m
  | x => frameOf t.pre x

theorem airs_node {t : Trans} (h : isArrival t.input = false) : airs t = frameOf t.pre t.input := by
  obtain ⟨pre, x, outs, post⟩ := t
  cases x with
  | move y =>
    cases y with
    | arrive m => cases h
    | _ => rfl
  | _ => rfl

/-- A frame does nothing to a device, as it does not listen or the frame is not for it. -/
def Ignores (devId : U8) (s : Node) (m : Mailbox) : Prop :=
  ∀ r, step devId s (.move (.arrive m)) = some r → r = (s, [])

variable {net₀ : ι → Node}

theorem onlyTo_step
    (hignore : ∀ j ≠ i, ∀ m, airs ⟨net i, x, outs, s'⟩ = some m → Ignores (ids j) (net j) m)
    (h : step (ids i) (net i) x = some (s', outs)) :
    reaction (fun i => step (ids i)) (wiring ids) net (onlyTo i x) i = some (x, s', outs) ∧
    (∀ j ≠ i, ∀ r, reaction (fun i => step (ids i)) (wiring ids) net (onlyTo i x) j = some r →
      r.2 = (net j, [])) ∧
    ∃ frames, busStep ids net (onlyTo i x) = some (Function.update net i s', frames) := by
  have hreacts : ∀ (y : BusInput ι), (wiring ids).input net y i = some x →
      reaction (fun i => step (ids i)) (wiring ids) net y i = some (x, s', outs) := by
    intro y hy
    rw [reaction, hy, Option.bind_some, h]
    rfl
  have hsilent : ∀ (y : BusInput ι), (∀ j ≠ i, ∀ z, (wiring ids).input net y j = some z →
      ∃ m, z = .move (.arrive m) ∧ airs ⟨net i, x, outs, s'⟩ = some m) →
      ∀ j ≠ i, ∀ r, reaction (fun i => step (ids i)) (wiring ids) net y j = some r →
        r.2 = (net j, []) := by
    rintro y hy j hj ⟨z, r⟩ hr
    obtain ⟨hz, hstep⟩ := Mealy.reaction_step hr
    obtain ⟨m, rfl, hm⟩ := hy j hj z hz
    exact hignore j hj m hm r hstep
  have htake : ∀ (y : BusInput ι), (wiring ids).takes net y = true →
      (wiring ids).input net y i = some x → (∀ j ≠ i, ∀ z, (wiring ids).input net y j = some z →
        ∃ m, z = .move (.arrive m) ∧ airs ⟨net i, x, outs, s'⟩ = some m) →
      reaction (fun i => step (ids i)) (wiring ids) net y i = some (x, s', outs) ∧
      (∀ j ≠ i, ∀ r, reaction (fun i => step (ids i)) (wiring ids) net y j = some r →
        r.2 = (net j, [])) ∧
      ∃ frames, busStep ids net y = some (Function.update net i s', frames) := by
    intro y htakes hy hothers
    refine ⟨hreacts y hy, hsilent y hothers, _, Mealy.parallel_alone htakes (hreacts y hy) ?_⟩
    intro j hj r hr
    rw [hsilent y hothers j hj r hr]
  cases harrival : isArrival x with
  | true =>
    obtain ⟨m, rfl⟩ := isArrival_move harrival
    refine htake (.master m) rfl rfl fun j _ z hz => ?_
    cases hz
    exact ⟨m, rfl, rfl⟩
  | false =>
    rw [onlyTo_node harrival]
    refine htake (.node i x) (by simp [wiring, harrival, h]) (if_pos rfl) fun j hj z hz => ?_
    have hz' := (if_neg fun he => hj he.symm).symm.trans hz
    obtain ⟨m, hm, rfl⟩ := Option.map_eq_some_iff.mp hz'
    exact ⟨m, rfl, (airs_node harrival).trans hm⟩

/-- If the others ignore its frames, a run of one device is a run of the bus. -/
theorem onlyTo_run
    (hignore : ∀ j ≠ i, ∀ t ∈ l, ∀ m, airs t = some m → Ignores (ids j) (net₀ j) m)
    (h : Run (step (ids i)) (net₀ i) l s) :
    ∃ tr, Run (busStep ids) net₀ tr (Function.update net₀ i s) ∧ runOf ids i tr = l ∧
      (∀ j ≠ i, outputs (runOf ids j tr) = []) ∧
      ∀ x ∈ tr, ∃ t ∈ l, x.input = onlyTo i t.input ∧ x.pre = Function.update net₀ i t.pre := by
  induction h with
  | nil => exact ⟨[], by simp, rfl, fun _ _ => rfl, by simp⟩
  | @snoc l s s' x outs hl hstep ih =>
    obtain ⟨tr, hrun, hl', hsilent, hall⟩ :=
      ih fun j hj t ht => hignore j hj t (List.mem_append_left _ ht)
    have hstep' : step (ids i) (Function.update net₀ i s i) x = some (s', outs) := by
      rw [Function.update_self]
      exact hstep
    have hignore' : ∀ j ≠ i, ∀ m, airs ⟨Function.update net₀ i s i, x, outs, s'⟩ = some m →
        Ignores (ids j) (Function.update net₀ i s j) m := by
      intro j hj m hm
      rw [Function.update_self] at hm
      rw [Function.update_of_ne hj]
      exact hignore j hj _ (List.mem_append_right _ (List.mem_singleton_self _)) m hm
    obtain ⟨hi, hothers, frames, hbus⟩ := onlyTo_step hignore' hstep'
    rw [Function.update_idem] at hbus
    refine ⟨_, hrun.snoc hbus, ?_, ?_, ?_⟩
    · simp only [runOf, Mealy.components_snoc, component, hi, Function.update_self]
      exact congrArg (· ++ _) hl'
    · intro j hj
      rw [runOf, Mealy.components_snoc, Mealy.outputs_append, component]
      have hbefore : outputs (components (fun i => step (ids i)) (wiring ids) j tr) = [] :=
        hsilent j hj
      rw [hbefore, List.nil_append]
      cases hr : reaction (fun i => step (ids i)) (wiring ids) (Function.update net₀ i s)
          (onlyTo i x) j with
      | none => rfl
      | some r =>
        obtain ⟨z, u, o⟩ := r
        cases hothers j hj _ hr
        rfl
    · intro y hy
      rcases List.mem_append.mp hy with hy | hy
      · obtain ⟨t, ht, hsame⟩ := hall y hy
        exact ⟨t, List.mem_append_left _ ht, hsame⟩
      · cases List.mem_singleton.mp hy
        exact ⟨_, List.mem_append_right _ (List.mem_singleton_self _), rfl, rfl⟩

theorem starting_silent {t : Trans} (h : Starting t = true) : airs t = none := by
  obtain ⟨pre, x, outs, post⟩ := t
  cases x with
  | move y => cases y <;> first | rfl | simp [Starting] at h
  | _ => rfl

omit [DecidableEq ι] in
theorem starting_ignored (h : ∀ t ∈ l, Starting t = true) {net : ι → Node} :
    ∀ j ≠ i, ∀ t ∈ l, ∀ m, airs t = some m → Ignores (ids j) (net j) m := by
  intro j _ t ht m hm
  rw [starting_silent (h t ht)] at hm
  cases hm

theorem starting_heard (h : ∀ t ∈ l, Starting t = true) {net : ι → Node} : ∀ t ∈ l, ∀ m,
    t.input = .move (.arrive m) → ∀ j, Listening (Function.update net i t.pre j) := by
  intro t ht m hm
  have hstart := h t ht
  simp [Starting, hm] at hstart

/-- A session alone on the bus: all that is seen there is for the device or from it. -/
theorem session_apart {up : List Trans}
    (hup : Run (step devId) (boot devId flash filter ports inMsgData) up s)
    (hrest : Resting (ready devId filter ports) s) (hdev : s.dev = Pump.boot flash)
    (hlock : flash.1.lock = .locked) (jobs : List Job) :
    ∃ l s', Run (step devId) s l s' ∧ (stored l).map messageOf = session devId jobs ∧
      overruns l = 0 ∧ emitted l = answers devId jobs ∧ s'.dev.pc = .jump ∧
      ∀ t ∈ l, ∀ m, airs t = some m → ∀ e ≠ devId, accepts e (messageOf m) = false := by
  have hlisten : Listening s := by simp [Listening, hrest.idle]
  obtain ⟨ptr, d, hptr, hpc, hms, hanswers⟩ := Stm32Node.session_run devId flash hlock jobs
  rw [← hdev] at hptr
  obtain ⟨l, s', hreplays, _, rfl⟩ := Stm32Node.replay_run hrest hptr fun m hm =>
    Stm32Node.session_accepts devId jobs m (hms ▸ hm)
  let p : Trans → Bool := fun t =>
    match t.input with
    | .move (.arrive m) => accepts devId (messageOf m)
    | _ => true
  have hidle : ∀ t ∈ l, p t = false → t.post = t.pre ∧ t.outs = [] := by
    rintro ⟨pre, x, outs, post⟩ ht hp
    obtain ⟨_, _, _, hbefore, hstep⟩ := hreplays.run.of_mem ht
    cases x with
    | move y =>
      cases y with
      | arrive m =>
        have hnone := arrive_foreign (hup.append hbefore)
          (Stm32Node.listening_end hbefore hlisten) hp
        cases hnone.symm.trans hstep
        exact ⟨rfl, rfl⟩
      | _ => cases hp
    | _ => cases hp
  obtain ⟨hrun, houts⟩ := hreplays.run.filter hidle
  refine ⟨l.filter p, s', hrun, ?_, ?_, ?_, hpc, ?_⟩
  · rw [stored, houts]
    exact hreplays.stored.trans hms
  · rw [overruns, houts]
    exact hreplays.overruns
  · rw [emitted, houts]
    exact hreplays.emitted.trans hanswers
  · rintro ⟨pre, x, outs, post⟩ ht m hm e he
    obtain ⟨_, _, _, hbefore, hstep⟩ := hrun.of_mem ht
    cases harrival : isArrival x with
    | true =>
      obtain ⟨m', rfl⟩ := isArrival_move harrival
      cases hm
      exact Pump.accepts_one (List.mem_filter.mp ht).2 he
    | false =>
      exact frameOf_rejected (hup.append hbefore) hstep ((airs_node harrival).symm.trans hm) e

theorem runOf_append {tr' : List (BusTrans ι)} :
    runOf ids i (tr ++ tr') = runOf ids i tr ++ runOf ids i tr' := by
  rw [runOf, components, List.flatMap_append]
  rfl

/-- A run of the bus goes on with a run of one device. -/
theorem onlyTo_after {net₀ : ι → Node} (h : Run (busStep ids) net₀ tr net)
    (hheard : ∀ x ∈ tr, ∀ j, Heard ids j x) (hl : Run (step (ids i)) (net i) l s)
    (hignore : ∀ j ≠ i, ∀ t ∈ l, ∀ m, airs t = some m → Ignores (ids j) (net j) m)
    (hlisten : ∀ t ∈ l, ∀ m, t.input = .move (.arrive m) →
      ∀ j, Listening (Function.update net i t.pre j)) :
    ∃ tr', Run (busStep ids) net₀ tr' (Function.update net i s) ∧
      (∀ x ∈ tr', ∀ j, Heard ids j x) ∧
      outputs (runOf ids i tr') = outputs (runOf ids i tr) ++ outputs l ∧
      ∀ j ≠ i, outputs (runOf ids j tr') = outputs (runOf ids j tr) := by
  obtain ⟨tr', hrun, hown, hsilent, hall⟩ := onlyTo_run hignore hl
  refine ⟨tr ++ tr', h.append hrun, ?_, ?_, ?_⟩
  · intro x hx j
    rcases List.mem_append.mp hx with hx | hx
    · exact hheard x hx j
    · obtain ⟨t, ht, hinput, hpre⟩ := hall x hx
      intro m hm _
      rw [hpre]
      exact hlisten t ht m (onlyTo_master (hinput.symm.trans hm)) j
  · rw [runOf_append, Mealy.outputs_append, hown]
  · intro j hj
    rw [runOf_append, Mealy.outputs_append, hsilent j hj, List.append_nil]

/-- The reset of a device with an empty flash. -/
def freshReset : Reset := ⟨Pump.stm32Fresh, fun _ => (0, 0), fun _ => 0, fun _ => 0⟩

def twoIds (b : Bool) : U8 := if b then 42 else 7

/-- Two devices start one after the other and are sent a session each. -/
theorem two_sessions : ∃ (tr : List (BusTrans Bool)) (net : Bool → Node),
    Run (busStep twoIds) (busBoot twoIds fun _ => freshReset) tr net ∧
    ∀ i, (∀ x ∈ tr, Heard twoIds i x) ∧
      (stored (runOf twoIds i tr)).map messageOf =
        session (twoIds i) [Pump.uniformJob (twoIds i)] ∧
      overruns (runOf twoIds i tr) = 0 ∧
      emitted (runOf twoIds i tr) = answers (twoIds i) [Pump.uniformJob (twoIds i)] ∧
      (net i).dev.pc = .jump := by
  obtain ⟨up, s, hup, hnone, hrest, hdev, hstarting⟩ := Stm32Node.starts 42 (by decide +kernel)
  obtain ⟨up', s', hup', hnone', hrest', hdev', hstarting'⟩ :=
    Stm32Node.starts 7 (by decide +kernel)
  obtain ⟨l, u, hl, hstored, hover, hemitted, hpc, hairs⟩ :=
    session_apart hup hrest hdev rfl [Pump.uniformJob 42]
  obtain ⟨l', u', hl', hstored', hover', hemitted', hpc', hairs'⟩ :=
    session_apart hup' hrest' hdev' rfl [Pump.uniformJob 7]
  have hlisten : Listening s := by simp [Listening, hrest.idle]
  have hlisten' : Listening s' := by simp [Listening, hrest'.idle]
  have hend' : Listening u' := Stm32Node.listening_end hl' hlisten'
  -- nothing is on the bus while they start, and then both listen
  have hbegin : Run (busStep twoIds) (busBoot twoIds fun _ => freshReset) [] _ := .nil
  obtain ⟨tr₁, hrun₁, hheard₁, hown₁, hother₁⟩ := onlyTo_after (i := true) hbegin (by simp) hup
    (starting_ignored hstarting) (starting_heard hstarting)
  obtain ⟨tr₂, hrun₂, hheard₂, hown₂, hother₂⟩ := onlyTo_after (i := false) (l := up') (s := s')
    hrun₁ hheard₁ hup' (starting_ignored hstarting') (starting_heard hstarting')
  obtain ⟨tr₃, hrun₃, hheard₃, hown₃, hother₃⟩ := onlyTo_after (i := false) (l := l') (s := u')
    hrun₂ hheard₂ hl'
    (by
      intro j hj t ht m hm r hr
      obtain rfl : j = true := by simpa using hj
      have hforeign := arrive_foreign hup hlisten (hairs' t ht m hm 42 (by decide))
      exact Option.some.inj (hr.symm.trans hforeign))
    (by
      intro t ht m _ j
      cases j with
      | false => exact Stm32Node.listening_run hl' hlisten' t ht
      | true => exact hlisten)
  obtain ⟨tr₄, hrun₄, hheard₄, hown₄, hother₄⟩ := onlyTo_after (i := true) (l := l) (s := u)
    hrun₃ hheard₃ hl
    (by
      intro j hj t ht m hm r hr
      obtain rfl : j = false := by simpa using hj
      have hforeign := arrive_foreign (hup'.append hl') hend' (hairs t ht m hm 7 (by decide))
      exact Option.some.inj (hr.symm.trans hforeign))
    (by
      intro t ht m _ j
      cases j with
      | false => exact hend'
      | true => exact Stm32Node.listening_run hl hlisten t ht)
  have houts : outputs (runOf twoIds true tr₄) = outputs l := by
    rw [hown₄, hother₃ true (by decide), hother₂ true (by decide), hown₁, hnone]
    rfl
  have houts' : outputs (runOf twoIds false tr₄) = outputs l' := by
    rw [hother₄ false (by decide), hown₃, hown₂, hother₁ false (by decide), hnone']
    rfl
  refine ⟨tr₄, _, hrun₄, fun i => ⟨fun x hx => hheard₄ x hx i, ?_⟩⟩
  rw [stored, overruns, emitted]
  cases i with
  | false =>
    rw [houts']
    exact ⟨hstored', hover', hemitted', hpc'⟩
  | true =>
    rw [houts]
    exact ⟨hstored, hover, hemitted, hpc⟩

/-- Each is programmed with what was sent for it. -/
theorem bus_programs_two : ∃ (ids : Bool → U8) (resets : Bool → Reset) (tr : List (BusTrans Bool))
    (net : Bool → Node), Run (busStep ids) (busBoot ids resets) tr net ∧ ids false ≠ ids true ∧
    ∀ i, (mastered tr).filter (accepts (ids i)) = session (ids i) [Pump.uniformJob (ids i)] ∧
      emitted (runOf ids i tr) = answers (ids i) [Pump.uniformJob (ids i)] ∧
      Programmed [Pump.uniformJob (ids i)] (fun _ => 0xFF#8)
        (stm32.flash.contents (net i).dev.flash) ∧
      (net i).dev.flash.lock = .locked := by
  obtain ⟨tr, net, hrun, hall⟩ := two_sessions
  refine ⟨twoIds, fun _ => freshReset, tr, net, hrun, by decide, fun i => ?_⟩
  obtain ⟨hheard, hstored, hover, hemitted, hpc⟩ := hall i
  have hsent := (stored_mastered hrun hheard).symm.trans hstored
  have htimely : TimelyProgReq (runOf twoIds i tr) := by
    refine Stm32Node.timely_never fun hout => ?_
    rw [← Stm32Node.mem_emitted, hemitted] at hout
    simp [answers, Pump.Job.replies, Pump.reply] at hout
  exact ⟨hsent, bus_programs twoIds (fun _ => freshReset) hrun i rfl _ hsent hheard hover htimely
    hpc⟩

end CANnuccia.NodeBus

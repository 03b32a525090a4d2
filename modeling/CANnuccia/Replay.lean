import CANnuccia.Stm32Traffic

/-!
# Every run of the pump is one of the device

Where the bus waits for the device, each message can come when `main` asks for it and
each answer can leave before the next one. The device then does what the pump did.
-/
namespace CANnuccia.Stm32Node

open Util CanMsgs BxCan
open Stm32Can (Mailbox canDtrDlc)
open Pump (Dev Event ResetFlash frame)
open Observed (Output handled emitted)
open Mealy (Machine Transition Run outputs)
open Relation (ReflTransGen)

variable {k : Setup} {devId : U8}

/-- The frame of a message. -/
def mailboxOf (m : Msg) : Mailbox :=
  Stm32Can.packFrom (pointer m.data) m.data.length ⟨m.id, BitVec.ofNat 32 m.data.length, 0, 0⟩

theorem mailboxOf_message (m : Msg) : messageOf (mailboxOf m) = m := by
  obtain ⟨id, data, hlen⟩ := m
  have hframe := Stm32Can.packFrom_frame (pointer data) data.length
    ⟨id, BitVec.ofNat 32 data.length, 0, 0⟩
  have hcount : (BitVec.ofNat 32 data.length &&& canDtrDlc).toNat = data.length := by
    have hdlc : canDtrDlc.toNat = 2 ^ 4 - 1 := rfl
    rw [BitVec.toNat_and, hdlc, Nat.and_two_pow_sub_one_eq_mod, BitVec.toNat_ofNat]
    omega
  have hpayload : payload (mailboxOf ⟨id, data, hlen⟩) = data := by
    rw [payload, mailboxOf, hframe.2, hcount]
    refine List.ext_getElem (by simp) fun i hi hi' => ?_
    simp only [List.getElem_map, List.getElem_range]
    rw [Stm32Can.packFrom_byte _ hlen (by omega), if_pos hi']
    simp [Mailbox.byte, pointer, hi']
  rw [messageOf, hpayload, mailboxOf, hframe.1]
  simp [frame, List.take_of_length_le hlen]

/-- The filter of `main` and the one that the controller is given take the same. -/
theorem ready_accepts (filter : Nat → U32 × U32) (ports : Port → U32) (m : Msg) :
    (ready devId filter ports).accepts (mailboxOf m).ir = Pump.accepts devId m := by
  have hir : (mailboxOf m).ir = m.id := (Stm32Can.packFrom_frame _ _ _).1
  rw [hir]
  simp [Setup.accepts, ready, configured, filterOf, Pump.accepts]

theorem ready_finit (devId : U8) (filter : Nat → U32 × U32) (ports : Port → U32) :
    (ready devId filter ports).finit = false := by
  simp [Setup.finit, ready, configured, canFmrFinit]

theorem unpackFrom_straight (n : Nat) : (unpackFrom n).Straight := by
  induction n with
  | zero => trivial
  | succ n ih =>
    have hcase : (unpackCase (n + 1)).Straight := by
      unfold unpackCase
      split <;> first | trivial | exact fun _ => trivial
    exact hcase.bind fun first => ih.bind fun _ => trivial

theorem recv_straight (maxLen : U32) : (cnCANRecv maxLen).Straight := by
  refine Mmio.Straight.bind (fun _ => trivial) fun rf0r => ?_
  split
  · trivial
  · have hfetch : (fetch maxLen).Straight := fun ir dtr =>
      (unpackFrom_straight _).bind fun _ => trivial
    exact hfetch.bind fun r _ => trivial

theorem packFrom_straight (n : Nat) (data : Nat → U8) (i : Nat) : (packFrom n data i).Straight := by
  induction i with
  | zero => trivial
  | succ i ih =>
    have hcase : (packCase n data (i + 1)).Straight := by
      unfold packCase
      split <;> first | trivial | exact fun _ => trivial
    exact hcase.bind fun _ => ih

theorem send_straight (id len : U32) (data : Nat → U8) : (cnCANSend id len data).Straight := by
  refine Mmio.Straight.bind (fun _ => trivial) fun tsr => ?_
  split
  · trivial
  · refine Mmio.Straight.bind (fun _ => trivial) fun tsr => ?_
    exact (packFrom_straight ..).bind fun _ _ => trivial

theorem access_inak {α : Type} (p : Mmio Reg α) (s : Controller) :
    (p.step device s).2.inak = s.inak := by
  cases p with
  | write reg v next =>
    cases reg with
    | outbox n f =>
      simp only [Mmio.step, device, Controller.write]
      split_ifs <;> rfl
    | _ => rfl
  | _ => rfl

/-- What accesses that are not the last one of a call do. -/
theorem path_run {α : Type} {wrap : Mmio Reg α → Running} {I : Mmio Reg α → Controller → Prop}
    (hwrap : ∀ (s : Node) p, s.running = wrap p → (p.step device s.can).1.returned = none →
      step devId s .access = some ({ s with
        running := wrap (p.step device s.can).1, can := (p.step device s.can).2 }, []))
    (hkeep : ∀ p s, I p s → (p.step device s).1.returned = none →
      I (p.step device s).1 (p.step device s).2)
    {x y : Mmio Reg α × Controller} (h : ReflTransGen (Mmio.Goes device) x y) (start : I x.1 x.2)
    {s : Node} (hrun : s.running = wrap x.1) (hcan : s.can = x.2) :
    I y.1 y.2 ∧ ∃ tr, Run (step devId) s tr { s with running := wrap y.1, can := y.2 } ∧
      outputs tr = [] := by
  induction h with
  | refl =>
    refine ⟨start, [], ?_, rfl⟩
    rw [← hrun, ← hcan]
    exact .nil
  | @tail y z _ hgoes ih =>
    obtain ⟨hI, tr, htr, houts⟩ := ih
    obtain ⟨rfl, hnot⟩ := hgoes
    refine ⟨hkeep _ _ hI hnot, _, htr.snoc (hwrap _ _ rfl hnot), ?_⟩
    rw [Mealy.outputs_append, houts]
    rfl

/-- Of a device in which `cnCANInit` has returned. -/
def Listening (s : Node) : Prop := ∀ p, s.running ≠ .init p

theorem calls_listening (outs : List Event) (p : Mmio Reg (Int × Bool)) : calls outs ≠ .init p := by
  induction outs with
  | nil => simp [calls]
  | cons e outs ih =>
    cases e with
    | send id data => simp [calls]
    | _ => exact ih

theorem listening_step {s s' : Node} {x : Input} {outs : List Out}
    (h : Stepped devId s x s' outs) (hl : Listening s) : Listening s' := by
  cases h with
  | main _ _ _ => exact calls_listening _
  | initGoes hrun _ => exact absurd hrun (hl _)
  | timer _ _ | move _ => exact hl
  | _ => simp [Listening]

theorem listening_end {s' : Node} {l : List Trans} (h : Run (step devId) s l s')
    (hl : Listening s) : Listening s' := by
  refine h.invariant (I := fun _ s => Listening s) hl ?_
  intro l s i s' outs _ hI hstep
  exact listening_step (step_stepped hstep) hI

theorem listening_run {s' : Node} {l : List Trans} (h : Run (step devId) s l s')
    (hl : Listening s) : ∀ x ∈ l, Listening x.pre := by
  intro x hx
  obtain ⟨_, _, _, hbefore, _⟩ := h.of_mem hx
  exact listening_end hbefore hl

/-- A device between two calls, with nothing on its way. -/
structure Resting (k : Setup) (s : Node) : Prop where
  idle : s.running = .idle
  setup : s.can.setup = k
  inak : s.can.inak = false
  fifo : s.can.fifo.items = []
  pending : pending s.can = []

theorem recv_ends (devId : U8) {s : Node} (hpc : s.dev.pc = .recv)
    (hrun : s.running = .recv (cnCANRecv 8)) (hk : s.can.setup = k) : ∃ tr s', Run (step devId) s tr s' ∧
      outputs tr = [.received (s.can.inbox.map messageOf)] ∧ s'.running = .idle ∧
      Pump.step stm32 devId s.dev (.recv (s.can.inbox.map messageOf)) = some (s'.dev, []) ∧
      s'.can.setup = k ∧ s'.can.inak = s.can.inak ∧ s'.can.fifo = s.can.fifo.pop ∧
      pending s'.can = pending s.can := by
  obtain ⟨q, u, a, hpath, hlast⟩ := (recv_straight 8).ends device rfl s.can
  let I (p : Mmio Reg Fetched) (c : Controller) := Driving k devId (.recv p) c ∧ c = s.can
  have hwrap : ∀ (s : Node) p, s.running = .recv p → (p.step device s.can).1.returned = none →
      step devId s .access = some ({ s with
        running := .recv (p.step device s.can).1, can := (p.step device s.can).2 }, []) := by
    intro s p hrun hnot
    simp only [step, hrun, hnot]
  obtain ⟨⟨hdriving, rfl⟩, tr, htr, houts⟩ := path_run (I := I) hwrap
    (fun p c hI hnot => ⟨(recv_goes hI.1 hnot).1, (recv_goes hI.1 hnot).2.trans hI.2⟩) hpath
    ⟨.poll hk, rfl⟩ hrun rfl
  have hpop : ∀ c : Controller, c.inbox = none → c.fifo = c.fifo.pop := by
    intro c hnone
    have hitems : c.fifo.items = [] := List.head?_eq_none_iff.mp hnone
    simp [Fifo.pop, Fifo.ext_iff, hitems]
  obtain ⟨d, hgiven⟩ : ∃ d, Pump.step stm32 devId s.dev (.recv (s.can.inbox.map messageOf)) =
      some (d, []) := by
    simp only [Pump.step, if_pos hpc]
    cases s.can.inbox.map messageOf <;> exact ⟨_, rfl⟩
  have hend : message a (written a.data s.inMsgData) = s.can.inbox.map messageOf →
      step devId { s with running := .recv q, can := s.can } .access =
        some (⟨d, written a.data s.inMsgData, .idle, (q.step device s.can).2⟩,
          [.received (s.can.inbox.map messageOf)]) := by
    intro hm
    simp only [step, hlast, hm, hgiven]
    rfl
  obtain ⟨hk', ⟨rfl, hnone, hsame⟩ | ⟨m, v, hin, rfl, hsame⟩⟩ := recv_returns hdriving hlast
  · have hm : message ⟨-1, none, []⟩ (written [] s.inMsgData) = s.can.inbox.map messageOf := by
      rw [hnone]
      rfl
    refine ⟨_, _, htr.snoc (hend hm), ?_, rfl, hgiven, hk', access_inak .., ?_, ?_⟩
    · rw [Mealy.outputs_append, houts]
      rfl
    · exact (congrArg Controller.fifo hsame).trans (hpop s.can hnone)
    · exact congrArg pending hsame
  · have hm : message (fetched 8 m) (written (fetched 8 m).data s.inMsgData) =
        s.can.inbox.map messageOf := by
      rw [hin]
      exact fetched_message m _
    refine ⟨_, _, htr.snoc (hend hm), ?_, rfl, hgiven, hk', access_inak .., ?_, ?_⟩
    · rw [Mealy.outputs_append, houts]
      rfl
    · rw [← release_fifo v]
      exact congrArg Controller.fifo hsame
    · have houtbox := congrArg Controller.outbox hsame
      exact pending_outbox houtbox

theorem pending_nil {s : Controller} : pending s = [] ↔ ∀ n, requested (s.outbox n) = false := by
  rw [pending, List.filterMap_eq_nil_iff]
  refine ⟨fun h n => ?_, fun h n _ => by simp [h n]⟩
  have hn := h n (List.mem_finRange n)
  cases hr : requested (s.outbox n) with
  | false => rfl
  | true => simp [hr] at hn

/-- An answer is sent, and leaves at once. -/
theorem send_ends (devId : U8) {s : Node} {id : U32} {data : List U8}
    (hrun : s.running = .send id data (sending id data)) (hk : s.can.setup = k)
    (hinak : s.can.inak = false) (hfifo : s.can.fifo.items = []) (hnone : pending s.can = []) :
    ∃ tr s' r m, Run (step devId) s tr s' ∧
      outputs tr = [.sent id data r, .traffic (.transmitted m)] ∧ 0 ≤ r ∧ s'.dev = s.dev ∧
      Resting k s' := by
  obtain ⟨q, u, a, hpath, hlast⟩ := (send_straight id (lengthOf data) (pointer data)).ends device
    rfl s.can
  let I (p : Mmio Reg Int) (c : Controller) := Driving k devId (.send id data p) c ∧
    c.fifo = s.can.fifo ∧ pending c = [] ∧ c.inak = false
  have hwrap : ∀ (s : Node) p, s.running = .send id data p →
      (p.step device s.can).1.returned = none → step devId s .access = some ({ s with
        running := .send id data (p.step device s.can).1, can := (p.step device s.can).2 }, []) := by
    intro s p hrun hnot
    simp only [step, hrun, hnot]
  have hkeep : ∀ p c, I p c → (p.step device c).1.returned = none →
      I (p.step device c).1 (p.step device c).2 := by
    intro p c hI hnot
    obtain ⟨hdriving, hfifo, hnone, hinak⟩ := hI
    obtain ⟨hnext, hfifo', hpending⟩ := send_goes hdriving hnot
    exact ⟨hnext, hfifo'.trans hfifo, hpending.trans hnone, (access_inak ..).trans hinak⟩
  obtain ⟨⟨hdriving, hfifo', hnone', hinak'⟩, tr, htr, houts⟩ := path_run (I := I)
    hwrap hkeep hpath ⟨.test hk, rfl, hnone, hinak⟩ hrun rfl
  have hend : step devId { s with running := .send id data q, can := u } .access =
      some ({ s with running := .idle, can := (q.step device u).2 }, [.sent id data a]) := by
    simp only [step, hlast]
  obtain ⟨hk', ⟨rfl, _, hfull⟩ | ⟨n, hload, rfl, himage⟩⟩ := send_returns hdriving hlast
  · have hfree := pending_nil.mp hnone' 0
    rw [hfull 0] at hfree
    cases hfree
  · let can := (q.step device u).2
    have hwaits : requested (can.outbox n) = true := by
      rw [himage]
      exact loaded_requested ..
    have hleaves : step devId { s with running := .idle, can := can } (.move (.complete n)) =
        some ({ s with running := .idle, can := can.complete n },
          [.traffic (.transmitted (can.outbox n))]) := by
      simp [step, Controller.move, Controller.traffic, hwaits]
    have hlast' : pending (can.complete n) = [] := by
      have hplaced := pending_places hload.empty (loaded_requested ..) himage hload.outbox
      have hgone := pending_complete hwaits
      rw [hnone'] at hplaced
      have hlen := (hgone.symm.trans hplaced).length_eq
      simpa using hlen
    have hpos := sentLen_nonneg (lengthOf data)
    refine ⟨_, _, _, can.outbox n, (htr.snoc hend).snoc hleaves, ?_, hpos, rfl, rfl, hk', ?_, ?_,
      hlast'⟩
    · rw [Mealy.outputs_append, Mealy.outputs_append, houts]
      rfl
    · exact (access_inak q u).trans hinak'
    · have hfifo'' := (loading_fifo hload).trans hfifo'
      exact (congrArg Fifo.items hfifo'').trans hfifo

/-- The frames of the messages come, none is overrun and no call fails. -/
structure Replays (devId : U8) (s : Node) (ms : List Msg) (outs : List Event) (tr : List Trans)
    (s' : Node) : Prop where
  run : Run (step devId) s tr s'
  stored : (stored tr).map messageOf = ms
  overruns : overruns tr = 0
  emitted : emitted tr = outs
  sent : ∀ id data r, .sent id data r ∈ outputs tr → 0 ≤ r

theorem Replays.nil (s : Node) : Replays devId s [] [] [] s := by
  refine ⟨.nil, rfl, rfl, rfl, ?_⟩
  intro id data r hr
  cases hr

theorem Replays.append {s u s' : Node} {ms ms' : List Msg} {outs outs' : List Event}
    {tr tr' : List Trans} (h : Replays devId s ms outs tr u)
    (h' : Replays devId u ms' outs' tr' s') :
    Replays devId s (ms ++ ms') (outs ++ outs') (tr ++ tr') s' where
  run := h.run.append h'.run
  stored := by
    rw [← h.stored, ← h'.stored, Stm32Node.stored, Stm32Node.stored, Stm32Node.stored,
      Mealy.outputs_append, List.filterMap_append, List.map_append]
  overruns := by
    have hadd : Stm32Node.overruns (tr ++ tr') =
        Stm32Node.overruns tr + Stm32Node.overruns tr' := by
      rw [Stm32Node.overruns, Mealy.outputs_append, List.count_append]
      rfl
    rw [hadd, h.overruns, h'.overruns]
  emitted := by
    rw [← h.emitted, ← h'.emitted, Observed.emitted, Observed.emitted, Observed.emitted,
      Mealy.outputs_append, List.filterMap_append]
  sent id data r hr := by
    rw [Mealy.outputs_append, List.mem_append] at hr
    exact hr.elim (h.sent id data r) (h'.sent id data r)

/-- A run with nothing else in it. -/
theorem Replays.of_outputs {s s' : Node} {tr : List Trans} {l : List Out} {ms : List Msg}
    {outs : List Event} (h : Run (step devId) s tr s') (hl : outputs tr = l)
    (hstored : (l.filterMap Out.stored).map messageOf = ms)
    (hover : l.count (.traffic .overrun) = 0) (hemitted : l.filterMap Output.emitted = outs)
    (hsent : ∀ id data r, .sent id data r ∈ l → 0 ≤ r) : Replays devId s ms outs tr s' := by
  subst hl
  exact ⟨h, hstored, hover, hemitted, hsent⟩

section Steps

variable {filter : Nat → U32 × U32} {ports : Port → U32} {s : Node} {d : Dev stm32}

/-- `cnCANRecv` with what is there. -/
theorem replay_read {m : Option Msg} (hrun : s.running = .recv (cnCANRecv 8))
    (hk : s.can.setup = k) (hinak : s.can.inak = false) (hnone : pending s.can = [])
    (hfifo : s.can.fifo.items = (m.map mailboxOf).toList)
    (h : Pump.step stm32 devId s.dev (.recv m) = some (d, [])) :
    ∃ tr s', Replays devId s [] [] tr s' ∧ Resting k s' ∧ s'.dev = d := by
  have hpc : s.dev.pc = .recv := by
    cases Pump.step_moved h <;> assumption
  have hm : s.can.inbox.map messageOf = m := by
    rw [Controller.inbox, hfifo]
    cases m with
    | none => rfl
    | some m => exact congrArg some (mailboxOf_message m)
  obtain ⟨tr, s', htr, houts, hidle, hgiven, hk', hinak', hfifo', hpending⟩ :=
    recv_ends devId hpc hrun hk
  rw [hm] at houts hgiven
  have hd : s'.dev = d := by
    rw [h] at hgiven
    cases hgiven
    rfl
  have hempty : s'.can.fifo.items = [] := by
    have htail : s'.can.fifo.items = s.can.fifo.items.tail := congrArg Fifo.items hfifo'
    rw [htail, hfifo]
    cases m <;> rfl
  refine ⟨tr, s', .of_outputs htr houts rfl (by simp) rfl (by simp), ?_, hd⟩
  exact ⟨hidle, hk', hinak'.trans hinak, hempty, hpending.trans hnone⟩

/-- `main` asks for a message, which comes or does not. -/
theorem replay_recv {m : Option Msg} (hrest : Resting (ready devId filter ports) s)
    (hpass : ∀ m', m = some m' → Pump.accepts devId m' = true)
    (h : Pump.step stm32 devId s.dev (.recv m) = some (d, [])) :
    ∃ tr s', Replays devId s m.toList [] tr s' ∧ Resting (ready devId filter ports) s' ∧
      s'.dev = d := by
  have hpc : s.dev.pc = .recv := by
    cases Pump.step_moved h <;> assumption
  have hasks : step devId s .main = some ({ s with running := .recv (cnCANRecv 8) }, []) := by
    simp only [step, hrest.idle, if_pos hpc]
  have hfirst : Replays devId s [] [] _ _ :=
    .of_outputs (Run.single hasks) (Mealy.outputs_singleton _) rfl (by simp) rfl (by simp)
  cases m with
  | none =>
    obtain ⟨tr, s', hreplays, hrest', hd⟩ := replay_read
      (s := { s with running := .recv (cnCANRecv 8) }) (m := none) rfl hrest.setup hrest.inak
      hrest.pending hrest.fifo h
    exact ⟨_, s', hfirst.append hreplays, hrest', hd⟩
  | some m =>
    have haccepts : s.can.setup.accepts (mailboxOf m).ir = true := by
      rw [hrest.setup, ready_accepts]
      exact hpass m rfl
    have hfinit : s.can.setup.finit = false := by
      rw [hrest.setup]
      exact ready_finit ..
    have hroom : s.can.fifo.isFull = false := by
      simp [Fifo.isFull, hrest.fifo]
    have hcomes : step devId { s with running := .recv (cnCANRecv 8) }
        (.move (.arrive (mailboxOf m))) =
        some ({ s with running := .recv (cnCANRecv 8), can := s.can.arrive (mailboxOf m) },
          [.traffic (.stored (mailboxOf m))]) := by
      simp [step, Controller.move, Controller.traffic, hrest.inak, hfinit, haccepts, hroom]
    have hsecond : Replays devId { s with running := .recv (cnCANRecv 8) } [m] [] _ _ :=
      .of_outputs (Run.single hcomes) (Mealy.outputs_singleton _)
        (congrArg (fun m => [m]) (mailboxOf_message m)) (by simp) rfl (by simp)
    have hfifo : (s.can.arrive (mailboxOf m)).fifo.items = [mailboxOf m] := by
      have hpush : (s.can.arrive (mailboxOf m)).fifo = s.can.fifo.push (mailboxOf m) := by
        rw [Controller.arrive, if_pos haccepts]
      rw [hpush, Fifo.push_room hroom, hrest.fifo]
      rfl
    have hsame : (s.can.arrive (mailboxOf m)).setup = s.can.setup ∧
        (s.can.arrive (mailboxOf m)).inak = s.can.inak ∧
        (s.can.arrive (mailboxOf m)).outbox = s.can.outbox := by
      rw [Controller.arrive, if_pos haccepts]
      exact ⟨rfl, rfl, rfl⟩
    obtain ⟨tr, s', hreplays, hrest', hd⟩ := replay_read
      (s := { s with running := .recv (cnCANRecv 8), can := s.can.arrive (mailboxOf m) })
      (m := some m) rfl (hsame.1.trans hrest.setup) (hsame.2.1.trans hrest.inak)
      ((pending_outbox hsame.2.2).trans hrest.pending) hfifo h
    exact ⟨_, s', (hfirst.append hsecond).append hreplays, hrest', hd⟩

/-- `main` makes a step, and sends the answer that comes with it. -/
theorem replay_main {outs : List Event} (hrest : Resting (ready devId filter ports) s)
    (h : Pump.step stm32 devId s.dev .main = some (d, outs)) :
    ∃ tr s', Replays devId s [] outs tr s' ∧ Resting (ready devId filter ports) s' ∧
      s'.dev = d := by
  have hpc : s.dev.pc ≠ .recv := by
    intro hpc
    cases Pump.step_moved h with
    | main hmove _ => cases hmove <;> simp_all
  have hstep : step devId s .main =
      some ({ s with dev := d, running := calls outs }, outs.map .event) := by
    simp only [step, hrest.idle, if_neg hpc, h]
    rfl
  have hfirst : Replays devId s [] outs _ _ :=
    .of_outputs (Run.single hstep) (Mealy.outputs_singleton _)
      (by
        have hnone : (outs.map Output.event).filterMap Out.stored = [] :=
          plain_none (plain_events outs) plain_stored
        rw [hnone]
        rfl)
      (plain_overrun (plain_events outs)) (emitted_events outs) (by simp)
  cases hcalls : calls outs with
  | idle =>
    rw [hcalls] at hfirst
    exact ⟨_, _, hfirst, ⟨rfl, hrest.setup, hrest.inak, hrest.fifo, hrest.pending⟩, rfl⟩
  | send id data p =>
    have hp : p = sending id data := by
      obtain rfl | ⟨e, rfl⟩ := main_one h
      · cases hcalls
      · cases e with
        | send id' data' =>
          cases hcalls
          rfl
        | _ => cases hcalls
    subst hp
    rw [hcalls] at hfirst
    obtain ⟨tr, s', r, m, htr, houts, hpos, hdev, hrest'⟩ := send_ends devId
      (s := { s with dev := d, running := .send id data (sending id data) }) rfl hrest.setup
      hrest.inak hrest.fifo hrest.pending
    have hsecond : Replays devId { s with dev := d, running := .send id data (sending id data) }
        [] [] tr s' := by
      refine .of_outputs htr houts rfl (by simp) rfl fun id data r hr => ?_
      obtain ⟨rfl, rfl, rfl⟩ : id = _ ∧ data = _ ∧ r = _ := by simpa using hr
      exact hpos
    have hall := hfirst.append hsecond
    rw [List.append_nil, List.append_nil] at hall
    exact ⟨_, s', hall, hrest', hdev⟩
  | init p | recv p =>
    obtain rfl | ⟨e, rfl⟩ := main_one h
    · cases hcalls
    · cases e <;> cases hcalls

theorem replay_timer {i : Pump.Input} {x : Input} {outs : List Event}
    (hi : (x, i) = (.expire, .expire) ∨ (x, i) = (.irq, .irq))
    (hrest : Resting (ready devId filter ports) s)
    (h : Pump.step stm32 devId s.dev i = some (d, outs)) :
    ∃ tr s', Replays devId s [] outs tr s' ∧ Resting (ready devId filter ports) s' ∧
      s'.dev = d := by
  have hstep : step devId s x = some ({ s with dev := d }, outs.map .event) := by
    rcases hi with hi | hi <;> cases hi <;> simp only [step, h] <;> rfl
  have hnone : (outs.map Output.event).filterMap Out.stored = [] :=
    plain_none (plain_events outs) plain_stored
  refine ⟨_, _, .of_outputs (Run.single hstep) (Mealy.outputs_singleton _) (by rw [hnone]; rfl)
    (plain_overrun (plain_events outs)) (emitted_events outs) (by simp), ?_, rfl⟩
  exact ⟨hrest.idle, hrest.setup, hrest.inak, hrest.fifo, hrest.pending⟩

theorem replay_step (hrest : Resting (ready devId filter ports) s) {i : Pump.Input}
    {outs : List Event} (h : Pump.step stm32 devId s.dev i = some (d, outs))
    (hpass : ∀ m, i.message = some m → Pump.accepts devId m = true) :
    ∃ tr s', Replays devId s i.message.toList outs tr s' ∧
      Resting (ready devId filter ports) s' ∧ s'.dev = d := by
  cases i with
  | main => exact replay_main hrest h
  | recv m =>
    obtain rfl := recv_quiet h
    exact replay_recv hrest hpass h
  | expire => exact replay_timer (.inl rfl) hrest h
  | irq => exact replay_timer (.inr rfl) hrest h

theorem replay_run (hrest : Resting (ready devId filter ports) s)
    {tr : List (Pump.Trans stm32)} (h : Run (Pump.step stm32 devId) s.dev tr d)
    (hpass : ∀ m ∈ Pump.received tr, Pump.accepts devId m = true) :
    ∃ tr' s', Replays devId s (Pump.received tr) (outputs tr) tr' s' ∧
      Resting (ready devId filter ports) s' ∧ s'.dev = d := by
  induction h with
  | nil => exact ⟨[], s, .nil s, hrest, rfl⟩
  | @snoc tr u d i outs _ hstep ih =>
    rw [Pump.received_snoc] at hpass
    obtain ⟨tr', s', hreplays, hrest', rfl⟩ := ih fun m hm => hpass m (List.mem_append_left _ hm)
    obtain ⟨tr'', s'', hreplays', hrest'', hd⟩ := replay_step hrest' hstep fun m hm =>
      hpass m (List.mem_append_right _ (by simp [hm]))
    refine ⟨tr' ++ tr'', s'', ?_, hrest'', hd⟩
    rw [Pump.received_snoc, Mealy.outputs_append, Mealy.outputs_singleton]
    exact hreplays.append hreplays'

/-- A run of the pump is one of the device, from between two calls on: with a frame for
each message, none of them overrun and no call failed. -/
theorem pump_replayed (hrest : Resting (ready devId filter ports) s)
    {tr : List (Pump.Trans stm32)} (h : Run (Pump.step stm32 devId) s.dev tr d)
    (hpass : ∀ m ∈ Pump.received tr, Pump.accepts devId m = true) :
    ∃ tr' s', Run (step devId) s tr' s' ∧ s'.dev = d ∧
      (stored tr').map messageOf = Pump.received tr ∧ overruns tr' = 0 ∧
      emitted tr' = outputs tr ∧ (∀ id data r, .sent id data r ∈ outputs tr' → 0 ≤ r) ∧
      Resting (ready devId filter ports) s' := by
  obtain ⟨tr', s', hreplays, hrest', hd⟩ := replay_run hrest h hpass
  exact ⟨tr', s', hreplays.run, hd, hreplays.stored, hreplays.overruns, hreplays.emitted,
    hreplays.sent, hrest'⟩

end Steps

/-- The messages of a session get through the filter of the device they are for. -/
theorem session_accepts (devId : U8) (jobs : List Pump.Job) :
    ∀ m ∈ Pump.session devId jobs, Pump.accepts devId m = true := by
  have hcommand : ∀ (c : Pump.Command) data h,
      Pump.accepts devId (master c.kind devId data h) = true := by
    intro c data h
    exact (Pump.accepts_command devId devId c []).trans (by simp)
  intro m hm
  simp only [Pump.session, List.mem_append, List.mem_cons, List.not_mem_nil, or_false,
    List.mem_flatMap] at hm
  rcases hm with ((rfl | rfl) | ⟨j, _, hm⟩) | rfl
  · exact hcommand .progReq ..
  · exact hcommand .unlock ..
  · simp only [Pump.Job.messages, List.mem_append, List.mem_cons, List.not_mem_nil, or_false,
      List.mem_map] at hm
    rcases hm with ((rfl | rfl) | ⟨c, _, rfl⟩) | (rfl | rfl)
    · exact hcommand .selectPage ..
    · exact hcommand .seek ..
    · exact hcommand .write ..
    · exact hcommand .checkWrites ..
    · exact hcommand .commitWrites ..
  · exact hcommand .progDone ..

section Started

/-- What a run of `cnCANInit` consists of. -/
def Starting (x : Trans) : Bool :=
  match x.pre.running, x.input with
  | .init _, .access => true
  | _, .move .ack => true
  | _, _ => false

theorem starting_dev {s s' : Node} {x : Input} {outs : List Out} (h : Stepped devId s x s' outs)
    (hx : Starting ⟨s, x, outs, s'⟩ = true) : s'.dev = s.dev := by
  cases h with
  | initGoes _ _ | initReturns _ _ | move _ => rfl
  | recvGoes hrun _ | recvReturns hrun _ _ | sendGoes hrun _ | sendReturns hrun _ =>
    simp [Starting, hrun] at hx
  | main hrun _ _ | recv hrun _ => simp [Starting, hrun] at hx
  | timer hi _ =>
    rcases hi with hi | hi <;> cases hi <;> simp [Starting] at hx

def Running.isIdle : Running → Bool
  | .idle => true
  | _ => false

theorem isIdle_eq {r : Running} (h : r.isIdle = true) : r = .idle := by
  cases r with
  | idle => rfl
  | _ => cases h

/-- A device that has not started, with an empty flash. -/
def freshNode (devId : U8) : Node :=
  boot devId Pump.stm32Fresh (fun _ => (0, 0)) (fun _ => 0) fun _ => 0

def Started (r : List Trans × Node) : Prop :=
  outputs r.1 = [] ∧ r.1.all Starting = true ∧ r.2.running.isIdle = true ∧
    r.2.can.inak = false ∧ r.2.can.fifo.items = [] ∧ pending r.2.can = []

instance (r : List Trans × Node) : Decidable (Started r) :=
  inferInstanceAs (Decidable (_ ∧ _))

theorem starts (devId : U8) (h : ((Mealy.exec (step devId) (freshNode devId) initInputs).any
    fun r => decide (Started r)) = true) :
    ∃ tr s, Run (step devId) (freshNode devId) tr s ∧ outputs tr = [] ∧
      Resting (ready devId (fun _ => (0, 0)) fun _ => 0) s ∧
      s.dev = Pump.boot Pump.stm32Fresh ∧ ∀ x ∈ tr, Starting x = true := by
  obtain ⟨tr, s, hrun, hp⟩ := Mealy.run_of_exec_any initInputs h
  obtain ⟨houts, hstarting, hidle, hinak, hfifo, hpending⟩ := of_decide_eq_true hp
  have hdriving := (traffics_run hrun).driving
  rw [isIdle_eq hidle] at hdriving
  have hdev : s.dev = (freshNode devId).dev := by
    refine hrun.invariant_where (C := fun x => Starting x = true)
      (I := fun _ s => s.dev = (freshNode devId).dev) (List.all_eq_true.mp hstarting) rfl ?_
    intro tr s x s' outs _ hI hstep hx
    exact (starting_dev (step_stepped hstep) hx).trans hI
  cases hdriving with
  | idle hk =>
    exact ⟨tr, s, hrun, houts, ⟨isIdle_eq hidle, hk, hinak, hfifo, hpending⟩, hdev,
      List.all_eq_true.mp hstarting⟩

theorem started : ∃ tr s, Run (step 42) nodeStart tr s ∧ outputs tr = [] ∧
    Resting (ready 42 (fun _ => (0, 0)) fun _ => 0) s ∧ s.dev = Pump.boot Pump.stm32Fresh ∧
    ∀ x ∈ tr, Starting x = true :=
  starts 42 (by decide +kernel)

/-- A run of the pump over a session. -/
theorem session_run (devId : U8) (flash : ResetFlash stm32) (hlock : flash.1.lock = .locked)
    (jobs : List Pump.Job) : ∃ tr d, Run (Pump.step stm32 devId) (Pump.boot flash) tr d ∧
      d.pc = .jump ∧ Pump.received tr = Pump.session devId jobs ∧
      outputs tr = Pump.answers devId jobs := by
  obtain ⟨page, f, hserve, _⟩ := Pump.serve_session devId flash hlock jobs
  obtain ⟨tr, t, hquietly⟩ := Pump.run_left hserve rfl (Pump.session_alive flash jobs)
  exact ⟨tr, _, hquietly.run, rfl, hquietly.messages, hquietly.emits⟩

/-- A page is programmed, frame by frame. -/
theorem pump_replayed_session : ∃ tr s tr' s', Run (step 42) nodeStart tr s ∧
    Run (step 42) s tr' s' ∧ s'.dev.pc = .jump ∧
    (stored tr').map messageOf = Pump.session 42 [Pump.uniformJob 0xA5] ∧
    emitted tr' = Pump.answers 42 [Pump.uniformJob 0xA5] := by
  obtain ⟨tr, s, hrun, _, hrest, hdev, _⟩ := started
  obtain ⟨tr', d, hrun', hpc, hms, hanswers⟩ :=
    session_run 42 Pump.stm32Fresh rfl [Pump.uniformJob 0xA5]
  rw [← hdev] at hrun'
  obtain ⟨tr'', s', hrun'', rfl, hstored, _, hemitted, _⟩ := pump_replayed hrest hrun' fun m hm =>
    session_accepts 42 [Pump.uniformJob 0xA5] m (hms ▸ hm)
  exact ⟨tr, s, tr'', s', hrun, hrun'', hpc, hstored.trans hms, hemitted.trans hanswers⟩

end Started

end CANnuccia.Stm32Node

import CANnuccia.Mailboxes
import CANnuccia.Stm32Node

/-!
# The frames of an STM32 device

What an STM32 device handles are the frames that passed its filter, in their order, less
those that were overrun in a full FIFO. What it answers is transmitted once or dropped.
-/
namespace CANnuccia.Stm32Node

open Util CanMsgs BxCan
open Stm32Can (Mailbox canDtrDlc canTsrCode canRfrRfom canRfrFmp canTsrTme0 canTsrTme1 canTsrTme2)
open Pump (Dev Event ResetFlash frame)
open Observed (Output handled emitted)
open Mealy (Machine Transition Run outputs)

theorem written_range (g buffer : Nat → U8) (n : Nat) {i : Nat} (hi : i < n) :
    written ((List.range n).reverse.map fun i => (i, g i)) buffer i = g i := by
  induction n generalizing buffer with
  | zero => omega
  | succ n ih =>
    rw [List.range_succ, List.reverse_append, List.reverse_singleton, List.singleton_append,
      List.map_cons]
    by_cases he : i < n
    · exact ih _ he
    · have hin : i = n := by omega
      subst hin
      have hlater : ∀ (l : List Nat) (b : Nat → U8), (∀ k ∈ l, k ≠ i) →
          written (l.map fun i => (i, g i)) b i = b i := by
        intro l
        induction l with
        | nil => exact fun b _ => rfl
        | cons k l ihl =>
          intro b hk
          have hrest := ihl (Function.update b k (g k)) fun j hj => hk j (List.mem_cons_of_mem k hj)
          exact hrest.trans (Function.update_of_ne (hk k (List.mem_cons_self ..)).symm ..)
      have hkept := hlater (List.range i).reverse (Function.update buffer i (g i)) (by simp; omega)
      exact hkept.trans (Function.update_self ..)

/-- What is read of a frame is the message it is, whatever the buffer held. -/
theorem fetched_message (m : Mailbox) (buffer : Nat → U8) :
    message (fetched 8 m) (written (fetched 8 m).data buffer) = some (messageOf m) := by
  let s : Stm32Can.Can := ⟨0, 1, fun _ => m, m⟩
  have hfull : s.rf0r &&& canRfrFmp ≠ 0 := (by decide : 1#32 &&& canRfrFmp ≠ 0)
  have hfetched : fetched 8 m = ⟨(Stm32Can.cnCANRecv 8 s).ret, (Stm32Can.cnCANRecv 8 s).recvId,
      (Stm32Can.cnCANRecv 8 s).data⟩ := by
    rw [Stm32Can.cnCANRecv, if_neg hfull]
    rfl
  obtain ⟨hret, hid, hdata⟩ := Stm32Can.recv_eq 8 hfull
  have hlen : min (8 : U32).toNat s.dlc = min 8 s.dlc := rfl
  have hinbox : s.inbox = m := rfl
  rw [hlen] at hret hdata
  rw [hinbox] at hid hdata
  rw [hfetched, hret, hid, hdata, Nat.min_eq_left (Nat.min_le_left 8 s.dlc)]
  have hbytes : (List.range (min 8 s.dlc)).map (written
      ((List.range (min 8 s.dlc)).reverse.map fun i => (i, m.byte i)) buffer) =
      (payload m).take 8 := by
    rw [payload, ← List.map_take, List.take_range]
    exact List.map_congr_left fun i hi => written_range _ _ _ (List.mem_range.mp hi)
  have hpos : ¬ ((min 8 s.dlc : Nat) : Int) < 0 := by omega
  rw [message, if_neg hpos]
  refine congrArg some ?_
  rw [Int.toNat_natCast]
  simp only [messageOf, frame, hbytes, List.take_take, Nat.min_self]

/-- The setup after `cnCANInit`. -/
def ready (devId : U8) (filter : Nat → U32 × U32) (ports : Port → U32) : Setup :=
  configured filter ports (filterOf devId).id (filterOf devId).mask

def lengthOf (data : List U8) : U32 := BitVec.ofNat 32 data.length

/-- The mailbox that a call of `cnCANSend` loads. -/
def imageOf (id : U32) (data : List U8) : Mailbox := loaded (pointer data) id (lengthOf data)

/-- The second part of `cnCANSend`. -/
def chooses (id : U32) (data : List U8) : Mmio Reg Int :=
  .read .tsr fun tsr => fill ((tsr &&& canTsrCode) >>> 24).toNat (pointer data) id (lengthOf data)

/-- The end of `cnCANRecv`. -/
def releases (m : Mailbox) (v : U32) : Mmio Reg Fetched :=
  .write .rf0r (v ||| canRfrRfom) (.pure (fetched 8 m))

inductive Driving (k : Setup) (devId : U8) : Running → Controller → Prop where
  | idle {s : Controller} : s.setup = k → Driving k devId .idle s
  | init {p : Mmio Reg (Int × Bool)} {s : Controller} : p.returned = none →
      Mmio.Meets device Moves (Configures (filterOf devId).id (filterOf devId).mask)
        (fun r s => r = (1, true) ∧ s.setup = k) p s →
      (s.setup.active = true → s.setup.filter 0 = ((filterOf devId).id, (filterOf devId).mask)) →
      Driving k devId (.init p) s
  | poll {s : Controller} : s.setup = k → Driving k devId (.recv (cnCANRecv 8)) s
  | fetch {q : Mmio Reg Fetched} {m : Mailbox} {s : Controller} : s.setup = k →
      s.inbox = some m →
      Mmio.Meets device Moves (Fetching m) (fun r s => r = fetched 8 m ∧ s.inbox = some m) q s →
      Driving k devId (.recv (q >>= release)) s
  | free {m : Mailbox} {v : U32} {s : Controller} : s.setup = k → s.inbox = some m →
      Driving k devId (.recv (releases m v)) s
  | test {id : U32} {data : List U8} {s : Controller} : s.setup = k →
      Driving k devId (.send id data (sending id data)) s
  | choose {id : U32} {data : List U8} {s : Controller} : s.setup = k →
      (∃ n, requested (s.outbox n) = false) → Driving k devId (.send id data (chooses id data)) s
  | fill {id : U32} {data : List U8} {n : Fin 3} {p : Mmio Reg Int} {s : Controller} :
      s.setup = k → p.returned = none →
      Mmio.Meets device Moves (Loading n) (fun r s => r = (sentLen (lengthOf data)).toInt ∧
        s.outbox n = imageOf id data) p s → Driving k devId (.send id data p) s

variable {k : Setup} {devId : U8} {r : Running} {s s' : Controller}

theorem driving_moves (h : Driving k devId r s) (hm : Moves s s') : Driving k devId r s' := by
  have hsetup := moves_setup hm
  cases h with
  | idle hk => exact .idle (hsetup.trans hk)
  | init hnot hmeets hfilter =>
    refine .init hnot (hmeets.moved hnot hm) ?_
    rw [hsetup]
    exact hfilter
  | poll hk => exact .poll (hsetup.trans hk)
  | @fetch q m _ hk hin hmeets =>
    have hin' : s'.inbox = some m := inbox_stable s s' hin hm
    refine .fetch (hsetup.trans hk) hin' ?_
    cases hq : q.returned with
    | none => exact hmeets.moved hq hm
    | some a =>
      have hend := hmeets.ended hq
      rw [Mmio.returned_eq hq]
      exact ⟨hend.1, hin'⟩
  | free hk hin => exact .free (hsetup.trans hk) (inbox_stable s s' hin hm)
  | test hk => exact .test (hsetup.trans hk)
  | choose hk hfree =>
    obtain ⟨n, hn⟩ := hfree
    refine .choose (hsetup.trans hk) ⟨n, ?_⟩
    rw [outbox_stable hn s s' rfl hm]
    exact hn
  | fill hk hnot hmeets => exact .fill (hsetup.trans hk) hnot (hmeets.moved hnot hm)

/-- What waits for the bus. -/
def pending (s : Controller) : List Mailbox :=
  (List.finRange 3).filterMap fun n => if requested (s.outbox n) then some (s.outbox n) else none

/-- Nothing that concerns a frame. -/
def Out.plain : Out → Prop
  | .event _ | .received none => True
  | _ => False

inductive Moved (s s' : Node) : List Out → Prop where
  | plain {outs : List Out} : s'.can.fifo = s.can.fifo → pending s'.can = pending s.can →
      (∀ o ∈ outs, o.plain) → Moved s s' outs
  | takes {m : Mailbox} {outs : List Out} : s.can.inbox = some m →
      s'.can.fifo = s.can.fifo.pop → pending s'.can = pending s.can → (∀ o ∈ outs, o.plain) →
      Moved s s' (.received (some (messageOf m)) :: outs)
  | drops {id : U32} {data : List U8} : s'.can = s.can →
      (∀ n, requested (s.can.outbox n) = true) → Moved s s' [.sent id data (-1)]
  | places {id : U32} {data : List U8} {n : Fin 3} : s'.can.fifo = s.can.fifo →
      requested (s.can.outbox n) = false → s'.can.outbox n = imageOf id data →
      (∀ k ≠ n, s'.can.outbox k = s.can.outbox k) →
      Moved s s' [.sent id data (sentLen (lengthOf data)).toInt]
  | stores {m : Mailbox} : s'.can.fifo = s.can.fifo.push m → pending s'.can = pending s.can →
      s.can.setup.accepts m.ir = true →
      Moved s s' ((s.can.traffic (.arrive m)).map .traffic)
  | transmits {n : Fin 3} : s'.can = s.can.complete n → requested (s.can.outbox n) = true →
      Moved s s' [.traffic (.transmitted (s.can.outbox n))]

theorem pending_outbox (h : s'.outbox = s.outbox) : pending s' = pending s := by
  rw [pending, h]
  rfl

/-- Loading an empty mailbox changes nothing that waits. -/
theorem pending_loading {n : Fin 3} (h : BxCan.Loading n s s')
    (hn : requested (s'.outbox n) = false) : pending s' = pending s := by
  refine List.filterMap_congr fun i _ => ?_
  by_cases hi : i = n
  · subst hi
    rw [hn, h.empty]
    rfl
  · rw [h.outbox i hi]

theorem loading_setup {n : Fin 3} (h : BxCan.Loading n s s') : s'.setup = s.setup := by
  have hsame := congrArg Controller.setup h.others
  exact hsame

theorem loading_fifo {n : Fin 3} (h : BxCan.Loading n s s') : s'.fifo = s.fifo := by
  have hsame := congrArg Controller.fifo h.others
  exact hsame

theorem poll_step : (cnCANRecv 8).step device s =
    (if s.rf0r &&& canRfrFmp = 0 then .pure ⟨-1, none, []⟩ else fetch 8 >>= release, s) := rfl

theorem release_unreturned (q : Mmio Reg Fetched) : (q >>= release).returned = none := by
  cases q <;> rfl

/-- Until the last access nothing changes. -/
theorem recv_goes {p : Mmio Reg Fetched} (h : Driving k devId (.recv p) s)
    (hnot : (p.step device s).1.returned = none) :
    Driving k devId (.recv (p.step device s).1) (p.step device s).2 ∧ (p.step device s).2 = s := by
  cases h with
  | poll hk =>
    rw [poll_step] at hnot ⊢
    split at hnot
    · cases hnot
    · rename_i hfull
      obtain ⟨m, hm⟩ := Option.ne_none_iff_exists'.mp (mt (rf0r_empty s).mpr hfull)
      rw [if_neg hfull]
      exact ⟨.fetch hk hm (fetch_meets 8 hm), rfl⟩
  | @fetch q m _ hk hin hmeets =>
    cases hq : q.returned with
    | none =>
      obtain ⟨⟨hsame, _⟩, hmeets'⟩ := hmeets.step hq
      rw [Mmio.step_bind device release s hq]
      refine ⟨?_, hsame⟩
      rw [hsame] at hmeets' ⊢
      exact .fetch hk hin hmeets'
    | some r =>
      obtain ⟨rfl, _⟩ := hmeets.ended hq
      rw [Mmio.returned_eq hq]
      exact ⟨.free hk hin, rfl⟩
  | free hk hin => cases hnot

theorem recv_returns {p : Mmio Reg Fetched} {r : Fetched} (h : Driving k devId (.recv p) s)
    (hr : (p.step device s).1.returned = some r) :
    (p.step device s).2.setup = k ∧
    ((r = ⟨-1, none, []⟩ ∧ s.inbox = none ∧ (p.step device s).2 = s) ∨
      ∃ m v, s.inbox = some m ∧ r = fetched 8 m ∧
        (p.step device s).2 = s.release (v ||| canRfrRfom)) := by
  cases h with
  | poll hk =>
    rw [poll_step] at hr ⊢
    split at hr
    · rename_i hempty
      cases hr
      exact ⟨hk, .inl ⟨rfl, (rf0r_empty s).mp hempty, rfl⟩⟩
    · rw [release_unreturned] at hr
      cases hr
  | @fetch q m _ hk hin hmeets =>
    cases hq : q.returned with
    | none =>
      rw [Mmio.step_bind device release s hq, release_unreturned] at hr
      cases hr
    | some a =>
      rw [Mmio.returned_eq hq] at hr
      cases hr
  | @free m v _ hk hin =>
    cases hr
    exact ⟨hk, .inr ⟨m, v, hin, rfl, rfl⟩⟩

theorem test_step (id : U32) (data : List U8) : (sending id data).step device s =
    (if s.tsr &&& (canTsrTme0 ||| canTsrTme1 ||| canTsrTme2) = 0 then .pure (-1)
      else chooses id data, s) := rfl

theorem fill_unreturned (n : Nat) (id : U32) (data : List U8) :
    (fill n (pointer data) id (lengthOf data)).returned = none := rfl

theorem choose_step (id : U32) (data : List U8) : (chooses id data).step device s =
    (fill s.code.val (pointer data) id (lengthOf data), s) := by
  rw [← tsr_code]
  rfl

/-- Until the last access the mailbox that is loaded stays empty. -/
theorem send_goes {id : U32} {data : List U8} {p : Mmio Reg Int}
    (h : Driving k devId (.send id data p) s) (hnot : (p.step device s).1.returned = none) :
    Driving k devId (.send id data (p.step device s).1) (p.step device s).2 ∧
      (p.step device s).2.fifo = s.fifo ∧ pending (p.step device s).2 = pending s := by
  cases h with
  | test hk =>
    rw [test_step] at hnot ⊢
    split at hnot
    · cases hnot
    · rename_i hfree
      rw [if_neg hfree]
      exact ⟨.choose hk ((tsr_free s).mp hfree), rfl, rfl⟩
  | choose hk hfree =>
    rw [choose_step]
    exact ⟨.fill hk (fill_unreturned ..) (fill_meets _ _ _ (code_free hfree) rfl), rfl, rfl⟩
  | @fill _ _ n _ _ hk hp hmeets =>
    obtain ⟨hload, hmeets'⟩ := hmeets.step hp
    have hempty := (hmeets'.step hnot).1.empty
    exact ⟨.fill ((loading_setup hload).trans hk) hnot hmeets', loading_fifo hload,
      pending_loading hload hempty⟩

theorem send_returns {id : U32} {data : List U8} {p : Mmio Reg Int} {r : Int}
    (h : Driving k devId (.send id data p) s) (hr : (p.step device s).1.returned = some r) :
    (p.step device s).2.setup = k ∧
    ((r = -1 ∧ (p.step device s).2 = s ∧ ∀ n, requested (s.outbox n) = true) ∨
      ∃ n, BxCan.Loading n s (p.step device s).2 ∧ r = (sentLen (lengthOf data)).toInt ∧
        (p.step device s).2.outbox n = imageOf id data) := by
  cases h with
  | test hk =>
    rw [test_step] at hr ⊢
    split at hr
    · rename_i hfull
      cases hr
      refine ⟨hk, .inl ⟨rfl, rfl, fun n => ?_⟩⟩
      cases hn : requested (s.outbox n) with
      | true => rfl
      | false => exact absurd hfull ((tsr_free s).mpr ⟨n, hn⟩)
    · cases hr
  | choose hk hfree =>
    rw [choose_step, fill_unreturned] at hr
    cases hr
  | @fill _ _ n _ _ hk hp hmeets =>
    obtain ⟨hload, hmeets'⟩ := hmeets.step hp
    obtain ⟨hret, himage⟩ := hmeets'.ended hr
    exact ⟨(loading_setup hload).trans hk, .inr ⟨n, hload, hret, himage⟩⟩

/-- The setup changes, and nothing else. -/
theorem init_access {p : Mmio Reg (Int × Bool)} (h : Driving k devId (.init p) s) :
    (p.step device s).2.fifo = s.fifo ∧ (p.step device s).2.outbox = s.outbox ∧
    match (p.step device s).1.returned with
    | none => Driving k devId (.init (p.step device s).1) (p.step device s).2
    | some _ => (p.step device s).2.setup = k := by
  cases h with
  | init hp hmeets hfilter =>
    obtain ⟨hconf, hmeets'⟩ := hmeets.step hp
    have hfifo := congrArg Controller.fifo hconf.others
    have houtbox := congrArg Controller.outbox hconf.others
    refine ⟨hfifo, houtbox, ?_⟩
    split
    · refine .init ‹_› hmeets' fun hactive => ?_
      obtain ⟨hbefore, hsame⟩ | hnew := hconf.edits.whole hactive
      · exact hsame.trans (hfilter hbefore)
      · exact hnew
    · exact (hmeets'.ended ‹_›).2

/-- Whenever bank 0 is active it has the filter of `main`. -/
theorem driving_accepts {filter : Nat → U32 × U32} {ports : Port → U32} {m : Mailbox}
    (h : Driving (ready devId filter ports) devId r s) (hm : s.setup.accepts m.ir = true) :
    Pump.accepts devId (messageOf m) = true := by
  simp only [Setup.accepts, Bool.and_eq_true, decide_eq_true_eq] at hm
  have hready : s.setup = ready devId filter ports →
      s.setup.filter 0 = ((filterOf devId).id, (filterOf devId).mask) := by
    intro hk
    simp [hk, ready, configured]
  have hfilter : s.setup.filter 0 = ((filterOf devId).id, (filterOf devId).mask) := by
    cases h with
    | init _ _ hfilter => exact hfilter hm.1.1.1.1
    | idle hk | poll hk | fetch hk _ _ | free hk _ | test hk | choose hk _ | fill hk _ _ =>
      exact hready hk
  rw [hfilter] at hm
  exact decide_eq_true hm.2

theorem driving_calls (hk : s.setup = k) (outs : List Event) : Driving k devId (calls outs) s := by
  induction outs with
  | nil => exact .idle hk
  | cons e outs ih =>
    cases e with
    | send id data => exact .test hk
    | _ => exact ih

theorem plain_events (outs : List Event) : ∀ o ∈ outs.map (Output.event : Event → Out), Out.plain o := by
  intro o ho
  obtain ⟨e, _, rfl⟩ := List.mem_map.mp ho
  trivial

/-- The pump emits nothing when it is given a message. -/
theorem recv_quiet {d d' : Dev stm32} {m : Option Msg} {outs : List Event}
    (h : Pump.step stm32 devId d (.recv m) = some (d', outs)) : outs = [] := by
  simp only [Pump.step] at h
  split at h
  · split at h <;> cases h <;> rfl
  · cases h

theorem arrive_moved {s s' : Node} {m : Mailbox} (h : s'.can = s.can.arrive m) :
    Moved s s' ((s.can.traffic (.arrive m)).map .traffic) := by
  by_cases haccepts : s.can.setup.accepts m.ir = true
  · refine .stores ?_ ?_ haccepts
    · rw [h, Controller.arrive, if_pos haccepts]
    · rw [h, Controller.arrive, if_pos haccepts]
      rfl
  · have hsame : s.can.arrive m = s.can := if_neg haccepts
    have hquiet : s.can.traffic (.arrive m) = [] := if_neg haccepts
    rw [hquiet]
    refine .plain ?_ ?_ (by simp)
    · rw [h, hsame]
    · rw [h, hsame]

theorem driving_step {s s' : Node} {x : Input} {outs : List Out}
    (h : Driving k devId s.running s.can) (hs : Stepped devId s x s' outs) :
    Driving k devId s'.running s'.can ∧ Moved s s' outs := by
  cases hs with
  | @main d outs hrun _ _ =>
    rw [hrun] at h
    cases h with
    | idle hk => exact ⟨driving_calls hk outs, .plain rfl rfl (plain_events outs)⟩
  | recv hrun _ =>
    rw [hrun] at h
    cases h with
    | idle hk => exact ⟨.poll hk, .plain rfl rfl (by simp)⟩
  | @initGoes p hrun hnot =>
    rw [hrun] at h
    obtain ⟨hfifo, houtbox, hnext⟩ := init_access h
    rw [hnot] at hnext
    exact ⟨hnext, .plain hfifo (pending_outbox houtbox) (by simp)⟩
  | @initReturns p r hrun hr =>
    rw [hrun] at h
    obtain ⟨hfifo, houtbox, hnext⟩ := init_access h
    rw [hr] at hnext
    exact ⟨.idle hnext, .plain hfifo (pending_outbox houtbox) (by simp)⟩
  | @recvGoes p hrun hnot =>
    rw [hrun] at h
    obtain ⟨hnext, hsame⟩ := recv_goes h hnot
    refine ⟨hnext, .plain ?_ ?_ (by simp)⟩
    · exact congrArg Controller.fifo hsame
    · exact congrArg pending hsame
  | @recvReturns p r d outs hrun hr hstep =>
    rw [hrun] at h
    obtain rfl := recv_quiet hstep
    obtain ⟨hk, ⟨rfl, _, hsame⟩ | ⟨m, v, hin, rfl, hsame⟩⟩ := recv_returns h hr
    · refine ⟨.idle hk, .plain ?_ ?_ ?_⟩
      · exact congrArg Controller.fifo hsame
      · exact congrArg pending hsame
      · intro o ho
        cases List.mem_singleton.mp ho
        trivial
    · refine ⟨.idle hk, ?_⟩
      rw [fetched_message]
      refine .takes hin ?_ ?_ (by simp)
      · rw [← release_fifo v]
        exact congrArg Controller.fifo hsame
      · have houtbox := congrArg Controller.outbox hsame
        exact pending_outbox houtbox
  | @sendGoes id data p hrun hnot =>
    rw [hrun] at h
    obtain ⟨hnext, hfifo, hpending⟩ := send_goes h hnot
    exact ⟨hnext, .plain hfifo hpending (by simp)⟩
  | @sendReturns id data p r hrun hr =>
    rw [hrun] at h
    obtain ⟨hk, ⟨rfl, hsame, hfull⟩ | ⟨n, hload, rfl, himage⟩⟩ := send_returns h hr
    · exact ⟨.idle hk, .drops hsame hfull⟩
    · exact ⟨.idle hk, .places (loading_fifo hload) hload.empty himage hload.outbox⟩
  | timer _ _ => exact ⟨h, .plain rfl rfl (plain_events _)⟩
  | @move x can hmove =>
    have hmoves := move_moves hmove
    refine ⟨driving_moves h hmoves, ?_⟩
    cases x with
    | arrive m =>
      rw [Controller.move, Option.ite_none_right_eq_some, Option.some.injEq] at hmove
      exact arrive_moved hmove.2.symm
    | complete n =>
      rw [Controller.move, Option.ite_none_right_eq_some, Option.some.injEq] at hmove
      exact .transmits hmove.2.symm hmove.1
    | ack =>
      cases hmove
      exact .plain rfl rfl (by simp [Controller.traffic])

theorem driving_boot (devId : U8) (flash : ResetFlash stm32) (filter : Nat → U32 × U32)
    (ports : Port → U32) (inMsgData : Nat → U8) : Driving (ready devId filter ports) devId
      (boot devId flash filter ports inMsgData).running (resetController filter ports) := by
  refine .init rfl (first_meets rfl) fun hactive => ?_
  simp [Setup.active, resetController, resetSetup] at hactive

def Out.stored : Out → Option Mailbox
  | .traffic (.stored m) => some m
  | _ => none

/-- The frames that pass the filter, from the bus. -/
def stored (tr : List Trans) : List Mailbox := (outputs tr).filterMap Out.stored

def overruns (tr : List Trans) : Nat := (outputs tr).count (.traffic .overrun)

/-- The frames that were read are those stored, in their order, less the overrun ones. -/
def Received (tr : List Trans) (s : Node) : Prop :=
  ∃ left : List Mailbox, left.map messageOf = handled tr ∧
    Fifo.Accounts (stored tr) left s.can.fifo (overruns tr)

theorem plain_none {α : Type} {f : Out → Option α} {outs : List Out}
    (h : ∀ o ∈ outs, o.plain) (hf : ∀ o : Out, o.plain → f o = none) :
    outs.filterMap f = [] :=
  List.filterMap_eq_nil_iff.mpr fun o ho => hf o (h o ho)

theorem plain_handled (o : Out) (h : o.plain) : o.handled = none := by
  cases o with
  | received m =>
    cases m with
    | none => rfl
    | some m => exact h.elim
  | _ => rfl

theorem plain_stored (o : Out) (h : o.plain) : o.stored = none := by
  cases o with
  | traffic e => exact h.elim
  | _ => rfl

theorem plain_overrun {outs : List Out} (h : ∀ o ∈ outs, o.plain) :
    outs.count (.traffic .overrun) = 0 :=
  List.count_eq_zero.mpr fun hmem => h _ hmem

section Received

variable {tr : List Trans} {s s' : Node} {x : Input} {outs : List Out}

theorem handled_snoc : handled (tr ++ [⟨s, x, outs, s'⟩]) =
    handled tr ++ outs.filterMap Output.handled := by
  rw [handled, handled, Mealy.outputs_append, Mealy.outputs_singleton, List.filterMap_append]

theorem stored_snoc : stored (tr ++ [⟨s, x, outs, s'⟩]) =
    stored tr ++ outs.filterMap Out.stored := by
  rw [stored, stored, Mealy.outputs_append, Mealy.outputs_singleton, List.filterMap_append]

theorem overruns_snoc : overruns (tr ++ [⟨s, x, outs, s'⟩]) =
    overruns tr + outs.count (.traffic .overrun) := by
  rw [overruns, overruns, Mealy.outputs_append, Mealy.outputs_singleton, List.count_append]

/-- Outputs that say nothing of the frames received. -/
theorem received_quiet (h : Received tr s) (hfifo : s'.can.fifo = s.can.fifo)
    (hhandled : outs.filterMap Output.handled = []) (hstored : outs.filterMap Out.stored = [])
    (hover : outs.count (.traffic .overrun) = 0) : Received (tr ++ [⟨s, x, outs, s'⟩]) s' := by
  obtain ⟨left, hleft, haccounts⟩ := h
  refine ⟨left, ?_, ?_⟩
  · rw [handled_snoc, hhandled, List.append_nil]
    exact hleft
  · rw [stored_snoc, overruns_snoc, hstored, hover, hfifo, List.append_nil]
    exact haccounts

theorem received_moved (h : Received tr s) (hm : Moved s s' outs) :
    Received (tr ++ [⟨s, x, outs, s'⟩]) s' := by
  cases hm with
  | plain hfifo _ hplain =>
    exact received_quiet h hfifo (plain_none hplain plain_handled) (plain_none hplain plain_stored)
      (plain_overrun hplain)
  | drops hcan _ => exact received_quiet h (by rw [hcan]) rfl rfl (by simp)
  | places hfifo _ _ _ => exact received_quiet h hfifo rfl rfl (by simp)
  | transmits hcan _ => exact received_quiet h (by rw [hcan]; rfl) rfl rfl (by simp)
  | @takes m outs hin hfifo _ hplain =>
    obtain ⟨left, hleft, haccounts⟩ := h
    have hhandled : (.received (some (messageOf m)) :: outs).filterMap Output.handled =
        [messageOf m] := congrArg (messageOf m :: ·) (plain_none hplain plain_handled)
    have hstored : (.received (some (messageOf m)) :: outs).filterMap Out.stored = [] := by
      rw [List.filterMap_cons_none rfl, plain_none hplain plain_stored]
    have hover : (.received (some (messageOf m)) :: outs).count (.traffic .overrun) = 0 := by
      rw [List.count_cons_of_ne (by simp), plain_overrun hplain]
    refine ⟨left ++ [m], ?_, ?_⟩
    · rw [handled_snoc, hhandled, List.map_append, hleft]
      rfl
    · rw [stored_snoc, overruns_snoc, hstored, hover, hfifo, List.append_nil]
      exact haccounts.pop hin
  | @stores m hfifo _ haccepts =>
    obtain ⟨left, hleft, haccounts⟩ := h
    have htraffic : s.can.traffic (.arrive m) =
        .stored m :: if s.can.fifo.isFull then [.overrun] else [] := if_pos haccepts
    have hpush := haccounts.push m
    rw [htraffic]
    refine ⟨left, ?_, ?_⟩
    · rw [handled_snoc, hleft]
      cases s.can.fifo.isFull <;> simp [Output.handled]
    · rw [stored_snoc, overruns_snoc, hfifo]
      cases hfull : s.can.fifo.isFull with
      | true =>
        rw [hfull] at hpush
        exact hpush
      | false =>
        rw [hfull] at hpush
        exact hpush

end Received

theorem stored_moved {s s' : Node} {outs : List Out} {m : Mailbox} (h : Moved s s' outs)
    (hm : m ∈ outs.filterMap Out.stored) : s.can.setup.accepts m.ir = true := by
  cases h with
  | plain _ _ hplain =>
    rw [plain_none hplain plain_stored] at hm
    cases hm
  | takes _ _ _ hplain =>
    rw [List.filterMap_cons_none rfl, plain_none hplain plain_stored] at hm
    cases hm
  | drops _ _ | places _ _ _ _ | transmits _ _ => cases hm
  | @stores m' _ _ haccepts =>
    have htraffic : s.can.traffic (.arrive m') =
        .stored m' :: if s.can.fifo.isFull then [.overrun] else [] := if_pos haccepts
    rw [htraffic] at hm
    obtain rfl : m = m' := by
      cases hfull : s.can.fifo.isFull <;> simpa [hfull, Out.stored] using hm
    exact haccepts

/-- The mailbox of a call that did not return a negative value. -/
def Out.placed : Out → Option Mailbox
  | .sent id data r => if 0 ≤ r then some (imageOf id data) else none
  | _ => none

def Out.transmitted : Out → Option Mailbox
  | .traffic (.transmitted m) => some m
  | _ => none

def placed (tr : List Trans) : List Mailbox := (outputs tr).filterMap Out.placed
def transmitted (tr : List Trans) : List Mailbox := (outputs tr).filterMap Out.transmitted

/-- A frame that was placed is pending or was transmitted, and it is there once. -/
def Kept (tr : List Trans) (s : Node) : Prop :=
  (placed tr).Perm (transmitted tr ++ pending s.can)

theorem plain_placed (o : Out) (h : o.plain) : o.placed = none := by
  cases o with
  | sent id data r => exact h.elim
  | _ => rfl

theorem plain_transmitted (o : Out) (h : o.plain) : o.transmitted = none := by
  cases o with
  | traffic e => exact h.elim
  | _ => rfl

theorem sentLen_nonneg (len : U32) : 0 ≤ (sentLen len).toInt := by
  have hle : (sentLen len).toNat ≤ 8 := by
    rw [sentLen]
    split
    · exact BitVec.le_def.mp ‹_›
    · decide
  rw [BitVec.toInt_eq_toNat_of_lt (by omega)]
  omega

theorem pending_places {m : Mailbox} {n : Fin 3} (hn : requested (s.outbox n) = false)
    (hm : requested m = true) (hloaded : s'.outbox n = m)
    (hothers : ∀ i ≠ n, s'.outbox i = s.outbox i) : (pending s').Perm (m :: pending s) := by
  refine AvrCan.filterMap_perm (List.nodup_finRange 3) (List.mem_finRange n) (by simp [hn])
    (by simp [hloaded, hm]) ?_
  intro i hi
  rw [hothers i hi]

theorem pending_complete {n : Fin 3} (hn : requested (s.outbox n) = true) :
    (pending s).Perm (s.outbox n :: pending (s.complete n)) := by
  have hempty : requested ((s.complete n).outbox n) = false := by
    have hbit : ∀ v : U32, v &&& ~~~Stm32Can.canTirTxrq &&& Stm32Can.canTirTxrq = 0 := by
      intro v
      apply BitVec.eq_of_getLsbD_eq
      intro i hi
      interval_cases i <;> simp [Stm32Can.canTirTxrq]
    simp [Controller.complete, requested, hbit]
  refine pending_places hempty hn rfl fun i hi => ?_
  simp [Controller.complete, Function.update_of_ne hi]

section Kept

variable {tr : List Trans} {s s' : Node} {x : Input} {outs : List Out}

theorem placed_snoc : placed (tr ++ [⟨s, x, outs, s'⟩]) =
    placed tr ++ outs.filterMap Out.placed := by
  rw [placed, placed, Mealy.outputs_append, Mealy.outputs_singleton, List.filterMap_append]

theorem transmitted_snoc : transmitted (tr ++ [⟨s, x, outs, s'⟩]) =
    transmitted tr ++ outs.filterMap Out.transmitted := by
  rw [transmitted, transmitted, Mealy.outputs_append, Mealy.outputs_singleton,
    List.filterMap_append]

/-- Outputs that say nothing of the frames sent. -/
theorem kept_quiet (h : Kept tr s) (hpending : pending s'.can = pending s.can)
    (hplaced : outs.filterMap Out.placed = [])
    (htransmitted : outs.filterMap Out.transmitted = []) :
    Kept (tr ++ [⟨s, x, outs, s'⟩]) s' := by
  rw [Kept, placed_snoc, transmitted_snoc, hplaced, htransmitted, hpending, List.append_nil,
    List.append_nil]
  exact h

theorem kept_moved (h : Kept tr s) (hm : Moved s s' outs) :
    Kept (tr ++ [⟨s, x, outs, s'⟩]) s' := by
  cases hm with
  | plain _ hpending hplain =>
    exact kept_quiet h hpending (plain_none hplain plain_placed)
      (plain_none hplain plain_transmitted)
  | takes _ _ hpending hplain =>
    refine kept_quiet h hpending ?_ ?_
    · rw [List.filterMap_cons_none rfl, plain_none hplain plain_placed]
    · rw [List.filterMap_cons_none rfl, plain_none hplain plain_transmitted]
  | drops hcan _ => exact kept_quiet h (by rw [hcan]) rfl rfl
  | @stores m _ hpending haccepts =>
    have htraffic : s.can.traffic (.arrive m) =
        .stored m :: if s.can.fifo.isFull then [.overrun] else [] := if_pos haccepts
    rw [htraffic]
    refine kept_quiet h hpending ?_ ?_ <;> cases s.can.fifo.isFull <;> rfl
  | @places id data n _ hn hloaded hothers =>
    have hplaced : [Output.sent id data (sentLen (lengthOf data)).toInt].filterMap Out.placed =
        [imageOf id data] := by
      simp [Out.placed, sentLen_nonneg]
    have hsent : [Output.sent id data (sentLen (lengthOf data)).toInt].filterMap
        Out.transmitted = [] := rfl
    rw [Kept, placed_snoc, transmitted_snoc, hplaced, hsent, List.append_nil]
    have hpending := pending_places hn (loaded_requested ..) hloaded hothers
    have hlast : (pending s.can ++ [imageOf id data]).Perm (pending s'.can) :=
      List.perm_append_comm.trans hpending.symm
    have hnew := h.append_right [imageOf id data]
    rw [List.append_assoc] at hnew
    exact hnew.trans (hlast.append_left (transmitted tr))
  | @transmits n hcan hn =>
    have hpending := pending_complete hn
    rw [← hcan] at hpending
    have hsent : [Output.traffic (.transmitted (s.can.outbox n))].filterMap Out.transmitted =
        [s.can.outbox n] := rfl
    have hplaced : [Output.traffic (.transmitted (s.can.outbox n))].filterMap Out.placed = [] :=
      rfl
    rw [Kept, placed_snoc, transmitted_snoc, hplaced, hsent, List.append_nil]
    have hold : (placed tr).Perm (transmitted tr ++ (s.can.outbox n :: pending s'.can)) :=
      h.trans (hpending.append_left _)
    simpa using hold

end Kept

/-- The arguments of a call that has returned. -/
def Out.call : Out → Option (U32 × List U8)
  | .sent id data _ => some (id, data)
  | _ => none

def Running.call : Running → List (U32 × List U8)
  | .send id data _ => [(id, data)]
  | _ => []

def sends : Event → Option (U32 × List U8)
  | .send id data => some (id, data)
  | _ => none

/-- The calls that were made and the one that runs. -/
def Calls (tr : List Trans) (s : Node) : Prop :=
  (outputs tr).filterMap Out.call ++ s.running.call = (emitted tr).filterMap sends

theorem main_one {d d' : Dev stm32} {outs : List Event}
    (h : Pump.step stm32 devId d .main = some (d', outs)) : outs = [] ∨ ∃ e, outs = [e] := by
  cases Pump.step_moved h with
  | main hmove _ =>
    cases hmove with
    | selectPage data _ =>
      unfold Pump.selectPage
      dsimp only
      split_ifs <;> simp
    | commitWrites _ _ _ hcommit => cases Pump.commitWrites_cases hcommit <;> simp
    | _ => simp [Pump.checkWrites]

theorem timer_silent {d d' : Dev stm32} {i : Pump.Input} {outs : List Event}
    (hi : i = .expire ∨ i = .irq) (h : Pump.step stm32 devId d i = some (d', outs)) :
    outs.filterMap sends = [] := by
  cases Pump.step_moved h with
  | main _ _ | silence _ | receive _ _ => simp at hi
  | _ => rfl

theorem emitted_snoc {tr : List Trans} {s s' : Node} {x : Input} {outs : List Out} :
    emitted (tr ++ [⟨s, x, outs, s'⟩]) = emitted tr ++ outs.filterMap Output.emitted := by
  rw [emitted, emitted, Mealy.outputs_append, Mealy.outputs_singleton, List.filterMap_append]

theorem emitted_events (outs : List Event) :
    (outs.map (Output.event : Event → Out)).filterMap Output.emitted = outs := by
  induction outs with
  | nil => rfl
  | cons e outs ih => exact congrArg (e :: ·) ih

theorem call_events (outs : List Event) : (outs.map Output.event).filterMap Out.call = [] := by
  induction outs with
  | nil => rfl
  | cons e outs ih => exact ih

theorem call_traffic (l : List Traffic) : (l.map Output.traffic).filterMap Out.call = [] := by
  induction l with
  | nil => rfl
  | cons e l ih => exact ih

theorem emitted_traffic (l : List Traffic) :
    (l.map (Output.traffic : Traffic → Out)).filterMap Output.emitted = [] := by
  induction l with
  | nil => rfl
  | cons e l ih => exact ih

theorem calls_quiet {tr : List Trans} {s s' : Node} {x : Input} {outs : List Out}
    (h : Calls tr s) (hrun : s'.running.call = s.running.call)
    (hcall : outs.filterMap Out.call = [])
    (hsends : (outs.filterMap Output.emitted).filterMap sends = []) :
    Calls (tr ++ [⟨s, x, outs, s'⟩]) s' := by
  rw [Calls, Mealy.outputs_append, Mealy.outputs_singleton, List.filterMap_append, hcall,
    emitted_snoc, List.filterMap_append, hsends, List.append_nil, List.append_nil, hrun]
  exact h

theorem calls_stepped {tr : List Trans} {s s' : Node} {x : Input} {outs : List Out}
    (h : Calls tr s) (hs : Stepped devId s x s' outs) : Calls (tr ++ [⟨s, x, outs, s'⟩]) s' := by
  cases hs with
  | @main d outs hrun _ hstep =>
    have hnone : s.running.call = [] := by rw [hrun]; rfl
    rw [Calls, hnone, List.append_nil] at h
    rw [Calls, Mealy.outputs_append, Mealy.outputs_singleton, List.filterMap_append, call_events,
      emitted_snoc, emitted_events, List.filterMap_append, List.append_nil, h]
    refine congrArg (_ ++ ·) ?_
    obtain rfl | ⟨e, rfl⟩ := main_one hstep
    · rfl
    · cases e <;> rfl
  | recv hrun _ => exact calls_quiet h (by rw [hrun]; rfl) rfl rfl
  | initGoes hrun _ | initReturns hrun _ | recvGoes hrun _ =>
    exact calls_quiet h (by rw [hrun]; rfl) rfl rfl
  | recvReturns hrun _ hstep =>
    obtain rfl := recv_quiet hstep
    exact calls_quiet h (by rw [hrun]; rfl) rfl rfl
  | sendGoes hrun _ => exact calls_quiet h (by rw [hrun]; rfl) rfl rfl
  | @sendReturns id data p r hrun _ =>
    have hone : s.running.call = [(id, data)] := by rw [hrun]; rfl
    rw [Calls, hone] at h
    rw [Calls, Mealy.outputs_append, Mealy.outputs_singleton, List.filterMap_append, emitted_snoc,
      List.filterMap_append, ← h]
    simp [Out.call, Output.emitted, Running.call]
  | timer hi hstep =>
    have hsilent :=
      timer_silent (hi.imp (fun h => (Prod.mk.inj h).2) fun h => (Prod.mk.inj h).2) hstep
    exact calls_quiet h rfl (call_events _) (by rw [emitted_events]; exact hsilent)
  | move _ => exact calls_quiet h rfl (call_traffic _) (by rw [emitted_traffic]; rfl)

/-- Every answer is short, and its identifier leaves TXRQ alone. -/
theorem main_answers {d d' : Dev stm32} {outs : List Event} {id : U32} {data : List U8}
    (h : Pump.step stm32 devId d .main = some (d', outs)) (he : .send id data ∈ outs) :
    id.getLsbD 0 = false ∧ data.length ≤ 8 := by
  have hbit : ∀ kind : U32, kind.getLsbD 0 = false →
      (cnCANDevMask kind devId).getLsbD 0 = false := by
    intro kind hkind
    simpa [cnCANDevMask] using hkind
  cases Pump.step_moved h with
  | main hmove _ =>
    cases hmove with
    | selectPage data _ =>
      unfold Pump.selectPage at he
      dsimp only at he
      split_ifs at he
      · cases List.mem_singleton.mp he
        exact ⟨hbit _ (by decide), by simp [cnWriteU32LE]⟩
      all_goals cases he
    | commitWrites _ _ _ hcommit =>
      rcases Pump.commitWrites_outs hcommit with rfl | rfl
      · cases he
      · cases List.mem_singleton.mp he
        exact ⟨hbit _ (by decide), by simp [cnWriteU32LE]⟩
    | progReqResp _ | unlockReply _ | checkWrites _ | progDone _ =>
      cases List.mem_singleton.mp he
      exact ⟨hbit _ (by decide), by simp [Pump.progReqStats, cnWriteU16LE]⟩
    | _ => simp at he

/-- What arrives of a loaded mailbox. -/
theorem image_message {id : U32} {data : List U8} (hid : id.getLsbD 0 = false)
    (hlen : data.length ≤ 8) : messageOf (Stm32Can.onBus (imageOf id data)) = frame id data := by
  obtain ⟨m, hm, hir, hdlc, hbytes⟩ :=
    Stm32Can.send_outbox id (lengthOf data) (pointer data) (c := Stm32Can.idleCan) (by decide)
  have himage : m = imageOf id data := by
    rw [← hm, Stm32Can.cnCANSend, if_neg (by decide)]
    dsimp only
    rw [Function.update_self]
    rfl
  have hcount : (lengthOf data).toNat = data.length := by
    rw [lengthOf, BitVec.toNat_ofNat]
    omega
  rw [himage, hcount, Nat.min_eq_left hlen] at hdlc
  rw [himage, hcount, Nat.min_eq_left hlen] at hbytes
  rw [himage] at hir
  have hpayload : payload (Stm32Can.onBus (imageOf id data)) = data := by
    rw [payload, Stm32Can.onBus, hdlc]
    refine List.ext_getElem (by simp) fun i hi hi' => ?_
    have hbyte := hbytes i hi'
    simp only [List.getElem_map, List.getElem_range]
    refine hbyte.trans ?_
    simp [pointer, hi']
  have hclear : (Stm32Can.onBus (imageOf id data)).ir = id := by
    rw [Stm32Can.onBus, hir]
    apply BitVec.eq_of_getLsbD_eq
    intro i hi
    by_cases hzero : i = 0
    · subst hzero
      rw [hid]
      simp [Stm32Can.canTirTxrq]
    · have hother : Stm32Can.canTirTxrq.getLsbD i = false := by
        simp [Stm32Can.canTirTxrq, hzero]
      rw [BitVec.getLsbD_and, BitVec.getLsbD_or, BitVec.getLsbD_and, BitVec.getLsbD_not, hother]
      simp [hi]
  rw [messageOf, hpayload, hclear]

/-- The answer of a call that did not return a negative value. -/
def Out.answered : Out → Option Msg
  | .sent id data r => if 0 ≤ r then some (frame id data) else none
  | _ => none

def answered (tr : List Trans) : List Msg := (outputs tr).filterMap Out.answered

/-- What a call that returns says of the mailboxes. -/
def Refuses (x : Trans) : Prop :=
  ∀ id data r, .sent id data r ∈ x.outs → (r < 0 ↔ ∀ n, requested (x.pre.can.outbox n) = true)

theorem moved_refuses {s s' : Node} {x : Input} {outs : List Out} (h : Moved s s' outs) :
    Refuses ⟨s, x, outs, s'⟩ := by
  intro id data r hr
  cases h with
  | plain _ _ hplain => exact (hplain _ hr).elim
  | takes _ _ _ hplain =>
    rcases List.mem_cons.mp hr with he | hr
    · cases he
    · exact (hplain _ hr).elim
  | drops _ hfull =>
    cases List.mem_singleton.mp hr
    exact iff_of_true (by decide) hfull
  | @places _ _ n _ hn _ _ =>
    cases List.mem_singleton.mp hr
    refine iff_of_false (by have hpos := sentLen_nonneg (lengthOf data); omega) fun hall => ?_
    rw [hall n] at hn
    cases hn
  | stores _ _ _ =>
    obtain ⟨e, _, he⟩ := List.mem_map.mp hr
    cases he
  | transmits _ _ => cases List.mem_singleton.mp hr

section Runs

variable {devId : U8} {flash : ResetFlash stm32} {filter : Nat → U32 × U32} {ports : Port → U32}
variable {inMsgData : Nat → U8} {tr : List Trans} {s : Node}

/-- What holds after every run. -/
structure Traffics (k : Setup) (devId : U8) (tr : List Trans) (s : Node) : Prop where
  driving : Driving k devId s.running s.can
  accepted : ∀ m ∈ stored tr, Pump.accepts devId (messageOf m) = true
  received : Received tr s
  kept : Kept tr s
  calls : Calls tr s
  answers : ∀ e ∈ emitted tr, ∀ id data, e = .send id data → id.getLsbD 0 = false ∧ data.length ≤ 8

theorem stepped_answers {s s' : Node} {x : Input} {outs : List Out} {id : U32} {data : List U8}
    (h : Stepped devId s x s' outs) (he : .send id data ∈ outs.filterMap Output.emitted) :
    id.getLsbD 0 = false ∧ data.length ≤ 8 := by
  cases h with
  | main _ _ hstep =>
    rw [emitted_events] at he
    exact main_answers hstep he
  | recvReturns _ _ hstep =>
    obtain rfl := recv_quiet hstep
    simp [Output.emitted] at he
  | @timer i x d outs hi hstep =>
    rw [emitted_events] at he
    have hsilent :=
      timer_silent (hi.imp (fun h => (Prod.mk.inj h).2) fun h => (Prod.mk.inj h).2) hstep
    have hnone := List.filterMap_eq_nil_iff.mp hsilent _ he
    cases hnone
  | move _ =>
    rw [emitted_traffic] at he
    cases he
  | _ => simp [Output.emitted] at he

theorem traffics_run (h : Run (step devId) (boot devId flash filter ports inMsgData) tr s) :
    Traffics (ready devId filter ports) devId tr s := by
  refine h.invariant (I := Traffics (ready devId filter ports) devId) ?_ ?_
  · have hnone : pending (boot devId flash filter ports inMsgData).can = [] :=
      List.filterMap_eq_nil_iff.mpr fun n _ => by simp [boot, resetController, requested]
    have hkept : Kept [] (boot devId flash filter ports inMsgData) := by
      rw [Kept, hnone]
      exact .refl _
    exact ⟨driving_boot devId flash filter ports inMsgData, by simp [stored],
      ⟨[], rfl, Fifo.accounts_empty⟩, hkept, rfl, by simp [emitted]⟩
  · intro tr s i s' outs _ hI hstep
    have hstepped := step_stepped hstep
    obtain ⟨hdriving, hmoved⟩ := driving_step hI.driving hstepped
    refine ⟨hdriving, fun m hm => ?_, received_moved hI.received hmoved, kept_moved hI.kept hmoved,
      calls_stepped hI.calls hstepped, fun e he id data heq => ?_⟩
    · rw [stored_snoc, List.mem_append] at hm
      rcases hm with hm | hm
      · exact hI.accepted m hm
      · exact driving_accepts hI.driving (stored_moved hmoved hm)
    · rw [emitted_snoc, List.mem_append] at he
      subst heq
      rcases he with he | he
      · exact hI.answers _ he id data rfl
      · exact stepped_answers hstepped he

/-- From a reset on, whatever the bus and the timer do between two accesses of the driver:
`main` does what the pump does that is given the frames which passed the filter, each as
it was sent and in their order, less the ones that were overrun and the ones that wait. -/
theorem frames_handled (h : Run (step devId) (boot devId flash filter ports inMsgData) tr s) :
    ∃ tr' left, Run (Pump.step stm32 devId) (Pump.boot flash) tr' s.dev ∧
      Pump.received tr' = left.map messageOf ∧ outputs tr' = emitted tr ∧
      Fifo.Accounts (stored tr) left s.can.fifo (overruns tr) ∧
      ∀ m ∈ stored tr, Pump.accepts devId (messageOf m) = true := by
  have hI := traffics_run h
  obtain ⟨tr', hrun, hreceived, houtputs⟩ := runs_pump h
  obtain ⟨left, hleft, haccounts⟩ := hI.received
  exact ⟨tr', left, hrun, hreceived.trans hleft.symm, houtputs, haccounts, hI.accepted⟩

theorem answered_placed (hI : Traffics (ready devId filter ports) devId tr s) :
    answered tr = (placed tr).map fun m => messageOf (Stm32Can.onBus m) := by
  rw [answered, placed, List.map_filterMap]
  refine List.filterMap_congr fun o ho => ?_
  cases o with
  | sent id data r =>
    have hcall : (id, data) ∈ (outputs tr).filterMap Out.call :=
      List.mem_filterMap.mpr ⟨_, ho, rfl⟩
    have hsends : (id, data) ∈ (emitted tr).filterMap sends := by
      rw [← hI.calls]
      exact List.mem_append_left _ hcall
    obtain ⟨e, he, heq⟩ := List.mem_filterMap.mp hsends
    cases e with
    | send id' data' =>
      cases heq
      obtain ⟨hid, hlen⟩ := hI.answers _ he id data rfl
      by_cases hr : 0 ≤ r
      · simp only [Out.answered, Out.placed, if_pos hr, Option.map_some,
          image_message hid hlen]
      · simp only [Out.answered, Out.placed, if_neg hr, Option.map_none]
    | _ => cases heq
  | _ => rfl

/-- The answers of the pump are sent one after the other. A call fails only if all
mailboxes are pending, and every other answer is pending or was transmitted once, as the
message it is. -/
theorem answers_sent (h : Run (step devId) (boot devId flash filter ports inMsgData) tr s) :
    (outputs tr).filterMap Out.call ++ s.running.call = (emitted tr).filterMap sends ∧
    (∀ x ∈ tr, Refuses x) ∧
    (answered tr).Perm
      ((transmitted tr ++ pending s.can).map fun m => messageOf (Stm32Can.onBus m)) := by
  have hI := traffics_run h
  refine ⟨hI.calls, fun x hx => ?_, ?_⟩
  · obtain ⟨l, r, _, hl, hstep⟩ := h.of_mem hx
    have hbefore := traffics_run hl
    obtain ⟨s₀, i, outs, s₁⟩ := x
    exact moved_refuses (driving_step hbefore.driving (step_stepped hstep)).2
  · rw [answered_placed hI]
    exact hI.kept.map _

end Runs

section Overrun

def nodeStart : Node := boot 42 Pump.stm32Fresh (fun _ => (0, 0)) (fun _ => 0) fun _ => 0

/-- `cnCANInit`, with the two modes acknowledged. -/
def initInputs : List Input :=
  List.replicate 11 .access ++ [.move .ack] ++ List.replicate 22 .access ++ [.move .ack] ++
    List.replicate 3 .access

/-- A PROG_REQ comes, with three others and one for another device behind it. -/
def overrunInputs : List Input :=
  initInputs ++ List.replicate 4 .main ++
    [.move (.arrive progReq), .access, .move (.arrive progReqOther), .access, .access] ++
    List.replicate 3 (.move (.arrive progReq)) ++ [.access, .access] ++ List.replicate 4 .main ++
    List.replicate 18 .access

theorem frames_handled_overrun : ∃ tr s tr', ∃ left : List Mailbox, Run (step 42) nodeStart tr s ∧
    (stored tr).length = 4 ∧ overruns tr = 1 ∧ left.length = 1 ∧
    Run (Pump.step stm32 42) (Pump.boot Pump.stm32Fresh) tr' s.dev ∧
    Pump.received tr' = left.map messageOf := by
  obtain ⟨tr, s, hrun, hp⟩ := Mealy.run_of_exec_any (M := step 42) (s := nodeStart)
    (p := fun r => decide ((stored r.1).length = 4 ∧ overruns r.1 = 1 ∧
      r.2.can.fifo.items.length = 2)) overrunInputs (by decide +kernel)
  obtain ⟨hstored, hover, hfifo⟩ := of_decide_eq_true hp
  obtain ⟨tr', left, hrun', hreceived, _, haccounts, _⟩ := frames_handled hrun
  have hcount := haccounts.count
  rw [hstored, hover, hfifo] at hcount
  exact ⟨tr, s, tr', left, hrun, hstored, hover, by omega, hrun', hreceived⟩

theorem answers_sent_overrun : ∃ tr s, Run (step 42) nodeStart tr s ∧ (transmitted tr).length = 1 ∧
    (∀ x ∈ tr, Refuses x) ∧ (answered tr).Perm
      ((transmitted tr ++ pending s.can).map fun m => messageOf (Stm32Can.onBus m)) := by
  obtain ⟨tr, s, hrun, hp⟩ := Mealy.run_of_exec_any (M := step 42) (s := nodeStart)
    (p := fun r => decide ((transmitted r.1).length = 1))
    (overrunInputs ++ [.move (.complete 0)]) (by decide +kernel)
  obtain ⟨_, hrefuses, hperm⟩ := answers_sent hrun
  exact ⟨tr, s, hrun, of_decide_eq_true hp, hrefuses, hperm⟩

end Overrun

end CANnuccia.Stm32Node

import CANnuccia.Latency
import CANnuccia.Retry

/-!
# Frames that come at their pace

The FIFO has room for three frames and `main` reads one in every round. Frames that come no
faster, or three of them at once, are never overrun, also while a page is written, and a
session that comes so is carried out in time.
-/
namespace CANnuccia.Stm32Node

open Util CanMsgs BxCan
open Stm32Can (Mailbox)
open Pump (Dev Event ResetFlash session answers Programmed Job)
open Observed (Output handled emitted)
open Mealy (Machine Transition Run Paced Queueing TimedInput clock outputs timeless total untimed)

variable {devId : U8} {k : Setup} {s s' : Node} {x : Input} {outs : List Out}

/-- How many frames a step stores. -/
def arrivals (t : Trans) : Nat := (t.outs.filterMap Out.stored).length

theorem total_arrivals (tr : List Trans) : total arrivals tr = (stored tr).length := by
  induction tr with
  | nil => rfl
  | cons t tr ih =>
    rw [total, ih, stored, stored, Mealy.outputs_cons, List.filterMap_append, List.length_append]
    rfl

/-- What a step does to the FIFO. -/
inductive Queued (t : Trans) : Prop where
  | leaves : t.pre.dev.pc = .recv → returns t = 1 → arrivals t = 0 →
      t.post.can.fifo = t.pre.can.fifo.pop → Queued t
  | stays : returns t = 0 → arrivals t = 0 → t.post.can.fifo = t.pre.can.fifo → Queued t
  | comes {m : Mailbox} : returns t = 0 → arrivals t = 1 →
      t.post.can.fifo = t.pre.can.fifo.push m → Queued t

theorem queued_quiet (hm : Moved s s' outs) (hreturns : returns ⟨s, x, outs, s'⟩ = 0) :
    Queued ⟨s, x, outs, s'⟩ := by
  have hnone : ∀ {outs : List Out}, (∀ o ∈ outs, o.plain) →
      (outs.filterMap Out.stored).length = 0 := by
    intro outs hplain
    rw [plain_none hplain plain_stored]
    rfl
  cases hm with
  | plain hfifo _ hplain => exact .stays hreturns (hnone hplain) hfifo
  | takes _ _ _ _ => simp [returns, Out.isReceived] at hreturns
  | drops hcan _ => exact .stays hreturns rfl (congrArg Controller.fifo hcan)
  | places hfifo _ _ _ => exact .stays hreturns rfl hfifo
  | transmits hcan _ =>
    have hfifo := congrArg Controller.fifo hcan
    exact .stays hreturns rfl hfifo
  | @stores m hfifo _ haccepts =>
    refine .comes hreturns ?_ hfifo
    have htraffic : s.can.traffic (.arrive m) =
        .stored m :: if s.can.fifo.isFull then [.overrun] else [] := if_pos haccepts
    rw [arrivals, htraffic]
    cases s.can.fifo.isFull <;> rfl

variable {n : Nat}

/-- A device after `cnCANInit`. -/
structure Polling (k : Setup) (devId : U8) (n : Nat) (s : Node) : Prop where
  due : Due n s
  driving : Driving k devId s.running s.can

theorem queue_step (h : Polling k devId n s) (hs : Stepped devId s x s' outs) :
    Queued ⟨s, x, outs, s'⟩ := by
  have hmoved := (driving_step h.driving hs).2
  cases hs with
  | main _ _ _ | timer _ _ => exact queued_quiet hmoved (returns_events _)
  | move _ => exact queued_quiet hmoved (returns_traffic _)
  | recv _ _ | initGoes _ _ | initReturns _ _ | recvGoes _ _ | sendGoes _ _ | sendReturns _ _ =>
    exact queued_quiet hmoved rfl
  | @recvReturns p r d o hrun hret hstep =>
    obtain rfl := recv_quiet hstep
    have hdriving := h.driving
    rw [hrun] at hdriving
    refine .leaves (h.due.receiving hrun) rfl rfl ?_
    obtain ⟨_, ⟨_, hempty, hsame⟩ | ⟨m, v, _, _, hsame⟩⟩ := recv_returns hdriving hret
    · have hitems : s.can.fifo.items = [] := List.head?_eq_none_iff.mp hempty
      rw [Fifo.pop_nil hitems]
      exact congrArg Controller.fifo hsame
    · rw [← release_fifo v]
      exact congrArg Controller.fifo hsame

theorem queued_moves (h : Queued ⟨s, x, outs, s'⟩) : s'.can.fifo.items.length ≤
      s.can.fifo.items.length - returns ⟨s, x, outs, s'⟩ + arrivals ⟨s, x, outs, s'⟩ ∧
    (arrivals ⟨s, x, outs, s'⟩ = 0 ∨ returns ⟨s, x, outs, s'⟩ = 0) := by
  cases h with
  | leaves _ hreturns harrivals hfifo =>
    have hpop : s'.can.fifo.items = s.can.fifo.items.tail := congrArg Fifo.items hfifo
    rw [hreturns, harrivals, hpop, List.length_tail]
    exact ⟨le_rfl, .inl rfl⟩
  | stays hreturns harrivals hfifo =>
    have hsame : s'.can.fifo = s.can.fifo := hfifo
    rw [hreturns, harrivals, hsame]
    exact ⟨le_rfl, .inl rfl⟩
  | @comes m hreturns harrivals hfifo =>
    have hpush : s'.can.fifo = s.can.fifo.push m := hfifo
    rw [hreturns, harrivals, hpush]
    exact ⟨Fifo.push_length, .inr rfl⟩

theorem queued_waits (h : Queued ⟨s, x, outs, s'⟩) (hx : arrivals ⟨s, x, outs, s'⟩ ≠ 0) :
    s'.can.fifo.items ≠ [] := by
  cases h with
  | leaves _ _ hnone _ | stays _ hnone _ => exact absurd hnone hx
  | @comes m _ _ hfifo =>
    have hpush : s'.can.fifo = s.can.fifo.push m := hfifo
    rw [hpush]
    exact List.ne_nil_of_mem Fifo.mem_push

variable {v : Speed} {t t' t₀ : Node × Nat}

/-- The same device in time. -/
structure PollingIn (v : Speed) (k : Setup) (devId : U8) (n : Nat) (t : Node × Nat) : Prop where
  due : DueIn v n t
  driving : Driving k devId t.1.running t.1.can

theorem PollingIn.polling (h : PollingIn v k devId n t) : ∃ m, Polling k devId m t.1 := by
  obtain ⟨m, hdue, _⟩ := h.due
  exact ⟨_, hdue, h.driving⟩

theorem polling_step {i : TimedInput Input} (h : PollingIn v k devId n t) (hn : n ≤ v.round)
    (hs : timedStep v devId t i = some (t', outs)) : ∃ n' ≤ v.round, PollingIn v k devId n' t' ∧
      clock Input.own ⟨t, i, outs, t'⟩ + n' ≤
        n + v.round * timeless returns ⟨t, i, outs, t'⟩ := by
  obtain ⟨n', hn', hdue, hpaid⟩ := dueIn_step h.due hn hs
  refine ⟨n', hn', ⟨hdue, ?_⟩, hpaid⟩
  cases Mealy.timed_ticked hs with
  | tick s left => exact h.driving
  | own _ _ hstep | other _ hstep => exact (driving_step h.driving (step_stepped hstep)).1

/-- The FIFO as a queue, with the time that the program takes. -/
theorem fifo_queueing (v : Speed) (k : Setup) (devId : U8) : Queueing (timedStep v devId)
    (PollingIn v k devId) v.round (clock Input.own) (timeless returns) (timeless arrivals)
    fun t => t.1.can.fifo.items.length where
  positive h := h.due.pos
  pays h hn hstep := polling_step h hn hstep
  moves := by
    intro n t i t' outs h hstep
    obtain ⟨m, hpolling⟩ := h.polling
    cases Mealy.timed_ticked hstep with
    | tick s left => exact le_rfl
    | own _ _ hstep | other _ hstep =>
      exact (queued_moves (queue_step hpolling (step_stepped hstep))).1
  apart := by
    intro n t i t' outs h hstep
    obtain ⟨m, hpolling⟩ := h.polling
    cases Mealy.timed_ticked hstep with
    | tick s left => exact .inl rfl
    | own _ _ hstep | other _ hstep =>
      exact (queued_moves (queue_step hpolling (step_stepped hstep))).2

/-- Three frames may come at once, and one more in the time of each round. -/
abbrev Timed (v : Speed) (l : List TimedTrans) : Prop :=
  Paced v.round 3 (clock Input.own) (timeless arrivals) l

theorem moved_overrun (h : Moved s s' outs) (hover : .traffic .overrun ∈ outs) :
    s.can.fifo.isFull = true ∧ arrivals ⟨s, x, outs, s'⟩ = 1 := by
  cases h with
  | plain _ _ hplain => exact (hplain _ hover).elim
  | takes _ _ _ hplain =>
    rcases List.mem_cons.mp hover with hover | hover
    · cases hover
    · exact (hplain _ hover).elim
  | drops _ _ | places _ _ _ _ | transmits _ _ => simp at hover
  | @stores m _ _ haccepts =>
    have htraffic : s.can.traffic (.arrive m) =
        .stored m :: if s.can.fifo.isFull then [.overrun] else [] := if_pos haccepts
    rw [htraffic] at hover
    rw [arrivals, htraffic]
    cases hfull : s.can.fifo.isFull with
    | false => simp [hfull] at hover
    | true => exact ⟨rfl, rfl⟩

theorem timed_overruns {l : List TimedTrans} (h : Run (timedStep v devId) t₀ l t)
    (h₀ : PollingIn v k devId v.round t₀) (hempty : t₀.1.can.fifo.items = [])
    (htimed : Timed v l) : overruns (untimed l) = 0 := by
  refine List.count_eq_zero.mpr fun hover => ?_
  obtain ⟨⟨s, x, outs, s'⟩, hx, hout⟩ := List.mem_flatMap.mp hover
  obtain ⟨p, d, q, hu⟩ := Mealy.mem_untimed hx
  obtain ⟨l, r, rfl, hl, hstep⟩ := h.of_mem hu
  have hqueue := fifo_queueing v k devId
  have hzero : t₀.1.can.fifo.items.length = 0 := by rw [hempty]; rfl
  obtain ⟨n, _, hpolling, _⟩ := hqueue.backlog hl h₀ le_rfl hzero
  have hmove : Stepped devId s x s' outs := by
    cases Mealy.timed_ticked hstep with
    | own _ _ hstep | other _ hstep => exact step_stepped hstep
  obtain ⟨hfull, hone⟩ := moved_overrun (x := x) (driving_step hpolling.driving hmove).2 hout
  have hone' : timeless arrivals ⟨((s, p) : Node × Nat), .act x d, outs, (s', q)⟩ = 1 := hone
  have htimed' : Timed v (l ++ [⟨(s, p), .act x d, outs, (s', q)⟩]) := by
    rw [List.append_cons] at htimed
    exact htimed.init
  have hroom := hqueue.room hl h₀ le_rfl hzero hstep htimed' (by rw [hone']; exact one_ne_zero)
  have hlen : s.can.fifo.items.length = 3 := of_decide_eq_true hfull
  have hthree : s.can.fifo.items.length +
      timeless arrivals ⟨((s, p) : Node × Nat), .act x d, outs, (s', q)⟩ ≤ 3 := hroom
  omega

variable {flash : ResetFlash stm32} {filter : Nat → U32 × U32} {ports : Port → U32}
variable {inMsgData : Nat → U8} {tr up a b l : List Trans} {s₀ u : Node}

theorem stored_append : stored (a ++ b) = stored a ++ stored b := by
  rw [stored, stored, stored, Mealy.outputs_append, List.filterMap_append]

theorem overruns_append : overruns (a ++ b) = overruns a + overruns b := by
  rw [overruns, overruns, overruns, Mealy.outputs_append, List.count_append]

theorem polling_run (h : Run (step devId) (boot devId flash filter ports inMsgData) tr s)
    (hl : Listening s) : Polling (ready devId filter ports) devId 45 s :=
  ⟨due_run h hl, (traffics_run h).driving⟩

theorem stored_count (h : Run (step devId) (boot devId flash filter ports inMsgData) tr s) :
    (stored tr).length = (handled tr).length + s.can.fifo.items.length + overruns tr := by
  obtain ⟨left, hleft, haccounts⟩ := (traffics_run h).received
  rw [haccounts.count, ← hleft, List.length_map]

/-- Nothing was stored before `cnCANInit` returned. -/
theorem quiet_empty (h : Run (step devId) (boot devId flash filter ports inMsgData) up s₀)
    (hquiet : stored up = []) : s₀.can.fifo.items = [] ∧ overruns up = 0 := by
  have hcount := stored_count h
  rw [hquiet, List.length_nil] at hcount
  exact ⟨List.length_eq_zero_iff.mp (by omega), by omega⟩

theorem timed_kept {up l : List TimedTrans}
    (hup : Run (timedStep v devId) (boot devId flash filter ports inMsgData, 0) up t₀)
    (hl : Listening t₀.1) (hquiet : stored (untimed up) = []) (h : Run (timedStep v devId) t₀ l t)
    (htimed : Timed v l) : overruns (untimed (up ++ l)) = 0 := by
  obtain ⟨hempty, hnone⟩ := quiet_empty hup.untimed hquiet
  have hpolling : PollingIn v (ready devId filter ports) devId v.round t₀ :=
    ⟨dueIn_run hup hl, (traffics_run hup.untimed).driving⟩
  rw [Mealy.untimed_append, overruns_append, hnone, timed_overruns h hpolling hempty htimed]

/-- `main` does not ask for a message after a session. -/
theorem session_over (hlock : flash.1.lock = .locked) (jobs : List Job)
    (h : Run (step devId) (boot devId flash filter ports inMsgData) tr s)
    (hframes : (stored tr).map messageOf = session devId jobs) (hover : overruns tr = 0)
    (hno : .onTimeout ∉ emitted tr) (hpc : s.dev.pc = .recv) : s.can.fifo.items ≠ [] := by
  intro hempty
  obtain ⟨ptr, hrun, hhandled, houtputs⟩ := runs_pump h
  obtain ⟨left, hleft, haccounts⟩ := (traffics_run h).received
  rw [hover] at haccounts
  have hall := haccounts.complete
  rw [hempty, List.append_nil] at hall
  have hreceived : Pump.received ptr = session devId jobs := by
    rw [hhandled, ← hleft, hall, hframes]
  have hno' : .onTimeout ∉ outputs ptr := by
    rw [houtputs]
    exact hno
  obtain ⟨page, f, hserve, _⟩ := Pump.serve_session devId flash hlock jobs
  have hended := (Pump.computes_run hrun hno').ended (by rw [hpc]; rfl) (by simp [hpc])
  rw [hreceived, hserve, Option.some.injEq, Prod.mk.injEq] at hended
  have hdone : s.dev.state = .done := congrArg Pump.Core.state hended.1.symm
  exact Pump.recv_alive hrun hno' hpc hdone

theorem session_returns (hlock : flash.1.lock = .locked) (jobs : List Job)
    (hup : Run (step devId) (boot devId flash filter ports inMsgData) up u) (hl : Listening u)
    (h : Run (step devId) u b s) (hframes : (stored up).map messageOf = session devId jobs)
    (hquiet : stored b = []) (hover : overruns (up ++ b) = 0)
    (hno : .onTimeout ∉ emitted (up ++ b)) : total returns b ≤ 3 := by
  have hbounded := u.can.fifo.bounded
  let I (b : List Trans) (s : Node) := stored b = [] → overruns (up ++ b) = 0 →
    .onTimeout ∉ emitted (up ++ b) →
      total returns b + s.can.fifo.items.length ≤ u.can.fifo.items.length
  have hall : I b s := by
    refine h.invariant (I := I) (fun _ _ _ => by simp) ?_
    intro b s i s' outs hb hI hstep hquiet hover hno
    rw [stored_snoc, List.append_eq_nil_iff] at hquiet
    rw [← List.append_assoc, overruns_snoc] at hover
    rw [← List.append_assoc, emitted_snoc, List.mem_append, not_or] at hno
    have hreturned := hI hquiet.1 (by omega) hno.1
    have hrun := hup.append hb
    rw [Mealy.total_snoc]
    cases queue_step (polling_run hrun (listening_end hb hl)) (step_stepped hstep) with
    | leaves hpc hreturns _ hfifo =>
      have hframes' : (stored (up ++ b)).map messageOf = session devId jobs := by
        rw [stored_append, hquiet.1, List.append_nil, hframes]
      have hwaits := session_over hlock jobs hrun hframes' (by omega) hno.1 hpc
      have hpos := List.length_pos_iff.mpr hwaits
      have hpop : s'.can.fifo.items = s.can.fifo.items.tail := congrArg Fifo.items hfifo
      rw [hpop, List.length_tail, hreturns]
      omega
    | stays hreturns _ hfifo =>
      have hsame : s'.can.fifo = s.can.fifo := hfifo
      rw [hsame, hreturns]
      exact hreturned
    | comes _ harrivals _ =>
      rw [arrivals, hquiet.2] at harrivals
      cases harrivals
  have hreturned := hall hquiet hover hno
  omega

/-- A session that comes at its pace is carried out: after its last frame the program takes
less than the time of four rounds, and goes on until it jumps; then the pages are
programmed. -/
theorem session_completed {up a b : List TimedTrans} (hlock : flash.1.lock = .locked)
    (jobs : List Job)
    (hup : Run (timedStep v devId) (boot devId flash filter ports inMsgData, 0) up t₀)
    (hl : Listening t₀.1) (hquiet : stored (untimed up) = [])
    (h : Run (timedStep v devId) t₀ (a ++ b) t) (htimed : Timed v (a ++ b))
    (hframes : (stored (untimed a)).map messageOf = session devId jobs)
    (hend : stored (untimed b) = []) (htimely : TimelyProgReq (untimed (up ++ (a ++ b)))) :
    total (clock Input.own) b < 4 * v.round ∧
    (t.1.dev.pc ≠ .jump → ∃ i : TimedInput Input, i.goes Input.own = true ∧
      (timedStep v devId t i).isSome = true) ∧
    (t.1.dev.pc = .jump → emitted (untimed (up ++ (a ++ b))) = answers devId jobs ∧
      Programmed jobs (stm32.flash.contents flash.1) (stm32.flash.contents t.1.dev.flash) ∧
      t.1.dev.flash.lock = .locked) := by
  have hrun := hup.append h
  have hover := timed_kept hup hl hquiet h htimed
  have hno := htimely.no_timeout hrun.untimed
  have hstored : (stored (untimed (up ++ a))).map messageOf = session devId jobs := by
    rw [Mealy.untimed_append, stored_append, hquiet, List.nil_append, hframes]
  refine ⟨?_, timed_total hrun (listening_end h.untimed hl), fun hpc => ?_⟩
  · obtain ⟨u, ha, hb⟩ := h.split
    have hua := hup.append ha
    have hlisten : Listening u.1 := listening_end ha.untimed hl
    rw [← List.append_assoc, Mealy.untimed_append (up ++ a)] at hover hno
    have hreturns :=
      session_returns hlock jobs hua.untimed hlisten hb.untimed hstored hend hover hno
    have htime := timed_returns hb (dueIn_run hua hlisten)
    have hfour := Nat.mul_le_mul_left v.round (Nat.succ_le_succ hreturns)
    rw [Nat.mul_comm 4]
    exact htime.trans_le hfour
  · have hframes' : (stored (untimed (up ++ (a ++ b)))).map messageOf = session devId jobs := by
      rw [← List.append_assoc, Mealy.untimed_append, stored_append, hend, List.append_nil, hstored]
    obtain ⟨_, ptr, hptr, hmessages, houtputs, hno'⟩ :=
      session_handled jobs hrun.untimed hframes' hover htimely hpc
    obtain ⟨houts, hprogrammed, hlocked, _⟩ := session_jump hlock jobs hptr hpc hno' hmessages
    exact ⟨houtputs.symm.trans houts, hprogrammed, hlocked⟩

theorem own_still (h : Run (step devId) s l s') : total ownStep l = 0 → s'.dev.pc = s.dev.pc := by
  refine h.invariant (I := fun l s' => total ownStep l = 0 → s'.dev.pc = s.dev.pc) (fun _ => rfl) ?_
  intro l u x s' outs _ hI hstep hzero
  rw [Mealy.total_snoc, Nat.add_eq_zero_iff] at hzero
  rw [← hI hzero.1]
  cases step_stepped hstep with
  | timer hi hmain => exact timer_pc hi hmain
  | move _ => rfl
  | _ => cases hzero.2

/-- `cnCANRecv` finds nothing and `main` goes round its loop. -/
theorem poll_once (hrest : Resting (ready devId filter ports) s) (hpc : s.dev.pc = .recv)
    (hstate : s.dev.state ≠ .done) : ∃ l s', Replays devId s [] [] l s' ∧
      Resting (ready devId filter ports) s' ∧ s'.dev = s.dev ∧ 1 ≤ total ownStep l := by
  have hsilent : Pump.step stm32 devId s.dev (.recv none) =
      some ({ s.dev with pc := .loopTest }, []) := by
    simp [Pump.step, hpc]
  obtain ⟨l, u, hreplays, hrest', hu⟩ := replay_step hrest hsilent (by simp [Pump.Input.message])
  have hloop : Pump.step stm32 devId u.dev .main = some (s.dev, []) := by
    rw [hu]
    simp [Pump.step, Pump.mainStep, Pump.callTimer, hstate, ← hpc]
  obtain ⟨l', s', hreplays', hrest'', hs'⟩ :=
    replay_step hrest' hloop (by simp [Pump.Input.message])
  refine ⟨l ++ l', s', hreplays.append hreplays', hrest'', hs', ?_⟩
  have hown : total ownStep l ≠ 0 := by
    intro hzero
    have hstill := own_still hreplays.run hzero
    rw [hu, hpc] at hstill
    cases hstill
  rw [Mealy.total_append]
  omega

theorem poll_times (n : Nat) (hrest : Resting (ready devId filter ports) s) (hpc : s.dev.pc = .recv)
    (hstate : s.dev.state ≠ .done) : ∃ l s', Replays devId s [] [] l s' ∧
      Resting (ready devId filter ports) s' ∧ s'.dev = s.dev ∧ n ≤ total ownStep l := by
  induction n with
  | zero => exact ⟨[], s, .nil s, hrest, rfl, Nat.zero_le _⟩
  | succ n ih =>
    obtain ⟨l, u, hreplays, hrest', hu, hn⟩ := ih
    obtain ⟨l', s', hreplays', hrest'', hs', hone⟩ :=
      poll_once hrest' (by rw [hu, hpc]) (by rw [hu]; exact hstate)
    refine ⟨l ++ l', s', hreplays.append hreplays', hrest'', hs'.trans hu, ?_⟩
    rw [Mealy.total_append]
    omega

theorem Replays.arrivals {ms : List Msg} {outs : List Event} (h : Replays devId s ms outs l s') :
    total arrivals l = ms.length := by
  rw [total_arrivals, ← h.stored, List.length_map]

/-- Every step takes as long as it may. -/
theorem slowed (v : Speed) (h : Run (step devId) s l s') :
    ∃ l', Run (timedStep v devId) (s, 0) l' (s', 0) ∧ untimed l' = l ∧
      v.step * total ownStep l ≤ total (clock Input.own) l' := by
  obtain ⟨l', hl, hsame, htotal⟩ := h.slowly Input.own (limit_pos (v := v))
  refine ⟨l', hl, hsame, ?_⟩
  rw [htotal, ← Mealy.total_mul]
  refine Mealy.total_mono (fun t => ?_) l
  rw [ownStep, Speed.limit]
  split_ifs <;> simp

theorem time_own (l : List TimedTrans) : total ownStep (untimed l) ≤ total (clock Input.own) l := by
  rw [← Mealy.total_timeless]
  refine Mealy.total_mono (fun t => ?_) l
  obtain ⟨pre, i, outs, post⟩ := t
  cases i with
  | tick => exact Nat.zero_le 1
  | act x d => exact le_rfl

/-- Every run of the pump without a timeout is one of a device to which frames come at
their pace. -/
theorem replay_timed (v : Speed) (hrest : Resting (ready devId filter ports) s)
    (hdev : s.dev = Pump.boot flash) {ptr : List (Pump.Trans stm32)} {d : Dev stm32}
    (h : Run (Pump.step stm32 devId) (Pump.boot flash) ptr d) (hno : .onTimeout ∉ outputs ptr)
    (hpass : ∀ m ∈ Pump.received ptr, Pump.accepts devId m = true) :
    ∃ l s', Run (timedStep v devId) (s, 0) l (s', 0) ∧ Timed v l ∧
      Replays devId s (Pump.received ptr) (outputs ptr) (untimed l) s' ∧
      Resting (ready devId filter ports) s' ∧ s'.dev = d := by
  induction h with
  | nil => exact ⟨[], s, .nil, Mealy.Paced.nil, .nil s, hrest, hdev⟩
  | @snoc ptr e d i outs hrun hstep ih =>
    rw [Pump.received_snoc] at hpass
    rw [Mealy.outputs_append, List.mem_append, not_or] at hno
    obtain ⟨l, u, hl, htimed, hreplays, hrest', rfl⟩ :=
      ih hno.1 fun m hm => hpass m (List.mem_append_left _ hm)
    obtain ⟨q, w, hpause, hrest'', hw, hlong⟩ : ∃ q w, Replays devId u [] [] q w ∧
        Resting (ready devId filter ports) w ∧ w.dev = u.dev ∧
        (i.message = none ∨ 45 + v.flash ≤ total ownStep q) := by
      cases hm : i.message with
      | none => exact ⟨[], u, .nil u, hrest', rfl, .inl rfl⟩
      | some m =>
        have hpc : u.dev.pc = .recv := by
          cases Pump.step_moved hstep <;> first | assumption | cases hm
        obtain ⟨q, w, hpause, hrest'', hw, hlong⟩ :=
          poll_times (45 + v.flash) hrest' hpc (Pump.recv_alive hrun hno.1 hpc)
        exact ⟨q, w, hpause, hrest'', hw, .inr hlong⟩
    rw [← hw] at hstep
    obtain ⟨r, s', hlast, hends, hd⟩ := replay_step hrest'' hstep fun m hm =>
      hpass m (List.mem_append_right _ (by simp [hm]))
    obtain ⟨q', hq, rfl, hslow⟩ := slowed v hpause.run
    obtain ⟨r', hr, rfl, _⟩ := slowed v hlast.run
    refine ⟨l ++ (q' ++ r'), s', hl.append (hq.append hr), htimed.after ?_ ?_, ?_, hends, hd⟩
    · rw [Mealy.total_timeless]
      exact hpause.arrivals
    · rw [Mealy.total_timeless, hlast.arrivals]
      rcases hlong with hnone | hlong
      · rw [hnone]
        exact .inl rfl
      · refine .inr ⟨?_, ?_⟩
        · cases i.message with
          | none => exact Nat.zero_le _
          | some m => exact le_rfl
        · have hsteps := Nat.mul_le_mul_left v.step hlong
          have hflash := Nat.le_mul_of_pos_left v.flash v.positive
          rw [Nat.mul_add] at hsteps
          rw [Speed.round]
          omega
    · rw [Pump.received_snoc, Mealy.outputs_append, Mealy.outputs_singleton, Mealy.untimed_append,
        Mealy.untimed_append]
      exact hreplays.append (hpause.append hlast)

/-- A session with a page comes at its pace, however long the page takes. -/
theorem uniform_timed (v : Speed) : ∃ (up l : List TimedTrans) (s₀ s : Node),
    Run (timedStep v 42) (nodeStart, 0) up (s₀, 0) ∧ Listening s₀ ∧ stored (untimed up) = [] ∧
    Run (timedStep v 42) (s₀, 0) l (s, 0) ∧ Timed v l ∧
    (stored (untimed l)).map messageOf = session 42 [Pump.uniformJob 0xA5] ∧
    TimelyProgReq (untimed (up ++ l)) ∧ s.dev.pc = .jump := by
  obtain ⟨tr, s₀, htr, houts, hrest, hdev, _⟩ := started
  obtain ⟨up, hup, rfl, _⟩ := slowed v htr
  obtain ⟨ptr, d, hptr, hpc, hms, hanswers⟩ :=
    session_run 42 Pump.stm32Fresh rfl [Pump.uniformJob 0xA5]
  have hno : .onTimeout ∉ outputs ptr := by
    rw [hanswers]
    simp [answers, Pump.Job.replies, Pump.reply]
  obtain ⟨l, s, hl, htimed, hreplays, _, rfl⟩ := replay_timed v hrest hdev hptr hno fun m hm =>
    session_accepts 42 [Pump.uniformJob 0xA5] m (hms ▸ hm)
  refine ⟨up, l, s₀, s, hup, by simp [Listening, hrest.idle], by simp [stored, houts], hl, htimed,
    hreplays.stored.trans hms, ?_, hpc⟩
  refine timely_never fun hout => hno ?_
  rwa [Mealy.untimed_append, Mealy.outputs_append, houts, List.nil_append, ← mem_emitted,
    hreplays.emitted] at hout

theorem uniform_length : (session 42 [Pump.uniformJob 0xA5]).length = 135 := by
  simp [session, Job.messages, Pump.uniformJob]

/-- Every frame of the session counts. -/
theorem uniform_arrivals {l : List TimedTrans}
    (hframes : (stored (untimed l)).map messageOf = session 42 [Pump.uniformJob 0xA5]) :
    total (timeless arrivals) l = 135 := by
  rw [Mealy.total_timeless, total_arrivals, ← List.length_map messageOf, hframes, uniform_length]

theorem session_completed_uniform : ∃ (up a b : List TimedTrans) (s₀ s : Node),
    Run (timedStep slowFlash 42) (nodeStart, 0) up (s₀, 0) ∧
    Run (timedStep slowFlash 42) (s₀, 0) (a ++ b) (s, 0) ∧ Timed slowFlash (a ++ b) ∧
    (stored (untimed a)).map messageOf = session 42 [Pump.uniformJob 0xA5] ∧
    stored (untimed b) = [] ∧ 0 < total (clock Input.own) b ∧
    total (clock Input.own) b < 4 * slowFlash.round ∧ s.dev.pc = .jump ∧
    Programmed [Pump.uniformJob 0xA5] (fun _ => 0xFF#8) (stm32.flash.contents s.dev.flash) := by
  obtain ⟨up, l, s₀, s, hup, hl, hquiet, hrun, htimed, hframes, htimely, hpc⟩ :=
    uniform_timed slowFlash
  have hsome : total (timeless arrivals) l ≠ 0 := by simp [uniform_arrivals hframes]
  obtain ⟨a, x, b, rfl, hx, hb⟩ := Mealy.last_counted hsome
  have hend : stored (untimed b) = [] := by
    rw [Mealy.total_timeless, total_arrivals] at hb
    exact List.length_eq_zero_iff.mp hb
  rw [List.append_cons] at hrun htimed hframes htimely
  rw [Mealy.untimed_append, stored_append, hend, List.append_nil] at hframes
  obtain ⟨hbound, _, hjump⟩ := session_completed rfl [Pump.uniformJob 0xA5] hup hl hquiet hrun
    htimed hframes hend htimely
  obtain ⟨_, hprogrammed, _⟩ := hjump hpc
  refine ⟨up, a ++ [x], b, s₀, s, hup, hrun, htimed, hframes, hend, Nat.pos_of_ne_zero ?_, hbound,
    hpc, hprogrammed⟩
  -- when the last frame is stored it waits, and `main` does not jump before it is read
  intro hzero
  obtain ⟨u, ha, hrest⟩ := hrun.split
  have hsteps := time_own b
  have hstill := (own_still hrest.untimed (by omega)).symm.trans hpc
  have hover := timed_kept hup hl hquiet ha htimed.init
  have hall : (stored (untimed (up ++ (a ++ [x])))).map messageOf =
      session 42 [Pump.uniformJob 0xA5] := by
    rw [Mealy.untimed_append, stored_append, hquiet, List.nil_append, hframes]
  rw [← List.append_assoc, Mealy.untimed_append (up ++ (a ++ [x]))] at htimely
  have hempty := (session_handled _ (hup.append ha).untimed hall hover htimely.init hstill).1
  obtain ⟨hfront, hstep, rfl⟩ := Mealy.run_snoc_iff.mp ha
  have hlisten : Listening x.pre.1 := listening_end hfront.untimed hl
  have hpolling := polling_run (hup.append hfront).untimed hlisten
  obtain ⟨pre, i, outs, post⟩ := x
  cases Mealy.timed_ticked hstep with
  | tick s left => exact hx rfl
  | own _ _ hstep | other _ hstep =>
    exact queued_waits (queue_step hpolling (step_stepped hstep)) hx hempty

end CANnuccia.Stm32Node

import CANnuccia.Buffer
import CANnuccia.NodeSession

/-!
# Sessions that are broken off

The power fails at any moment of a session, also while a page is being written, and the
master starts again. In the end the flash is as if nothing had happened.
-/
namespace CANnuccia.Stm32Node

open Util CanMsgs Overlay
open BxCan (Port)
open Pump (Command Dev Page ResetFlash Job session answers Programmed dispatch handle handleAll
  received)
open Observed (Output handled emitted)
open Mealy (Machine Transition Run outputs)

variable {devId : U8} {jobs : List Job}

theorem dispatch_kind (k : Command) (data : List U8) (h : data.length ≤ 8) :
    dispatch (master k.kind devId data h) = k.entry data := by
  obtain ⟨hprogReq, hunlock, hselect, hseek, hwrite, hcheck, hcommit, hdone⟩ :=
    Pump.dispatch_master devId data h
  cases k <;> assumption

/-- Only a SELECT_PAGE selects a page. -/
theorem handle_kind {k : Command} (hk : k ≠ .selectPage) (data : List U8) (h : data.length ≤ 8)
    (p : Page stm32) : (handle devId p (master k.kind devId data h)).addr = p.addr := by
  rw [handle, dispatch_kind]
  cases k with
  | selectPage => exact absurd rfl hk
  | seek => exact Pump.seek_addr data p
  | write => exact Pump.write_addr data p
  | _ => rfl

theorem handle_select (j : Job) (p : Page stm32) :
    (handle devId p (commandAt cnCanMsgSelectPage devId j.page)).addr = j.page := by
  have hd := (Pump.dispatch_master devId (cnWriteU32LE j.page) (by simp)).2.2.1
  rw [handle, commandAt, hd, Pump.effect, j.select]

theorem session_cases {m : Msg} (hm : m ∈ session devId jobs) :
    (∃ j ∈ jobs, m = commandAt cnCanMsgSelectPage devId j.page) ∨
    ∃ (k : Command) (data : List U8) (h : data.length ≤ 8),
      k ≠ .selectPage ∧ m = master k.kind devId data h := by
  simp only [session, List.mem_append, List.mem_cons, List.not_mem_nil, or_false,
    List.mem_flatMap] at hm
  rcases hm with ((rfl | rfl) | ⟨j, hj, hm⟩) | rfl
  · exact .inr ⟨.progReq, [], by simp, by simp, rfl⟩
  · exact .inr ⟨.unlock, [], by simp, by simp, rfl⟩
  · simp only [Job.messages, List.mem_append, List.mem_cons, List.not_mem_nil, or_false,
      List.mem_map] at hm
    rcases hm with ((rfl | rfl) | ⟨c, _, rfl⟩) | (rfl | rfl)
    · exact .inl ⟨j, hj, rfl⟩
    · exact .inr ⟨.seek, _, by simp, by simp, rfl⟩
    · exact .inr ⟨.write, c.1, c.2, by simp, rfl⟩
    · exact .inr ⟨.checkWrites, [], by simp, by simp, rfl⟩
    · exact .inr ⟨.commitWrites, [], by simp, by simp, rfl⟩
  · exact .inr ⟨.progDone, [], by simp, by simp, rfl⟩

/-- A message of a session selects the page of a job or leaves the selection alone. -/
theorem handle_session {m : Msg} (hm : m ∈ session devId jobs) (p : Page stm32) :
    (handle devId p m).addr = p.addr ∨ ∃ j ∈ jobs, (handle devId p m).addr = j.page := by
  rcases session_cases hm with ⟨j, hj, rfl⟩ | ⟨k, data, h, hk, rfl⟩
  · exact .inr ⟨j, hj, handle_select j p⟩
  · exact .inl (handle_kind hk data h p)

theorem handleAll_session {ms : List Msg} (hms : ∀ m ∈ ms, m ∈ session devId jobs)
    (p : Page stm32) : (handleAll devId p ms).addr = p.addr ∨
      ∃ j ∈ jobs, (handleAll devId p ms).addr = j.page := by
  induction ms generalizing p with
  | nil => exact .inl rfl
  | cons m ms ih =>
    rw [Pump.handleAll_cons]
    have hfirst := handle_session (hms m (by simp)) p
    rcases ih (fun m' hm' => hms m' (by simp [hm'])) (handle devId p m) with hrest | hrest
    · rwa [hrest]
    · exact .inr hrest

/-- A session that has come to a COMMIT_WRITES has selected a page before. -/
theorem prefix_selected {ms : List Msg} (hms : ms <+: session devId jobs)
    (hcommit : ∃ m ∈ ms, dispatch m = .commitTest) (p : Page stm32) :
    ∃ j ∈ jobs, (handleAll devId p ms).addr = j.page := by
  obtain ⟨m, hm, hd⟩ := hcommit
  have hnot : ∀ (k : Command) (data : List U8) (h : data.length ≤ 8), k ≠ .commitWrites →
      m ≠ master k.kind devId data h := by
    rintro k data h hk rfl
    rw [dispatch_kind] at hd
    cases k <;> first | exact hk rfl | cases hd
  have hmem : m ∈ session devId jobs := hms.subset hm
  cases jobs with
  | nil =>
    simp only [session, List.flatMap_nil, List.append_nil, List.mem_append, List.mem_cons,
      List.not_mem_nil, or_false] at hmem
    rcases hmem with (he | he) | he
    · exact absurd he (hnot .progReq [] (by simp) (by simp))
    · exact absurd he (hnot .unlock [] (by simp) (by simp))
    · exact absurd he (hnot .progDone [] (by simp) (by simp))
  | cons j jobs =>
    have hbegins : [command cnCanMsgProgReq devId, command cnCanMsgUnlock devId,
        commandAt cnCanMsgSelectPage devId j.page] <+: session devId (j :: jobs) :=
      ⟨_, rfl⟩
    rcases List.prefix_or_prefix_of_prefix hms hbegins with hshort | ⟨ms', rfl⟩
    · have hfirst := hshort.subset hm
      simp only [List.mem_cons, List.not_mem_nil, or_false] at hfirst
      rcases hfirst with he | he | he
      · exact absurd he (hnot .progReq [] (by simp) (by simp))
      · exact absurd he (hnot .unlock [] (by simp) (by simp))
      · exact absurd he (hnot .selectPage _ (by simp) (by simp))
    · have hms' : ∀ x ∈ ms', x ∈ session devId (j :: jobs) := fun x hx =>
        hms.subset (List.mem_append_right _ hx)
      rw [Pump.handleAll_append]
      have hfirst : (handleAll devId p [command cnCanMsgProgReq devId,
          command cnCanMsgUnlock devId, commandAt cnCanMsgSelectPage devId j.page]).addr =
            j.page :=
        handle_select j _
      rcases handleAll_session hms' (handleAll devId p _) with hkept | hother
      · exact ⟨j, by simp, hkept.trans hfirst⟩
      · exact hother

/-- An address in a page that one of the jobs is for. -/
def InPages (jobs : List Job) (a : Nat) : Prop :=
  ∃ j ∈ jobs, j.page.toNat ≤ a ∧ a < j.page.toNat + 1024

variable {flash : ResetFlash stm32} {ptr : List (Pump.Trans stm32)} {d : Dev stm32}

/-- A COMMIT_WRITES is handled after it was received. -/
theorem commit_received (h : Run (Pump.step stm32 devId) (Pump.boot flash) ptr d) :
    d.pc = .commitTest ∨ d.pc = .commitWrites → ∃ m ∈ received ptr, dispatch m = .commitTest := by
  refine Pump.run_invariant (I := fun tr d => d.pc = .commitTest ∨ d.pc = .commitWrites →
    ∃ m ∈ received tr, dispatch m = .commitTest) h (by simp [Pump.boot]) ?_
  intro tr d i d' outs _ hI hmoved hpc
  have hkept : (∃ m ∈ received tr, dispatch m = .commitTest) →
      ∃ m ∈ received (tr ++ [⟨d, i, outs, d'⟩]), dispatch m = .commitTest := by
    rintro ⟨m, hm, hd⟩
    exact ⟨m, by rw [Pump.received_snoc]; exact List.mem_append_left _ hm, hd⟩
  cases hmoved with
  | main hmove _ =>
    cases hmove with
    | commitPass hc _ => exact hkept (hI (.inl hc))
    | _ => simp_all
  | silence _ => simp at hpc
  | receive m _ =>
    refine ⟨m, by simp [Pump.received_snoc], ?_⟩
    rcases hpc with hpc | hpc
    · exact hpc
    · have hd : dispatch m = .commitWrites := hpc
      have hentry := Pump.dispatch_entry m
      rw [hd] at hentry
      cases hentry
  | expire _ | timeout _ | spurious _ => exact hkept (hI hpc)

/-- In a session that is broken off, whatever is committed is the page of a job. -/
theorem commit_page (h : Run (Pump.step stm32 devId) (Pump.boot flash) ptr d)
    (hms : received ptr <+: session devId jobs) (hpc : d.pc = .commitWrites) :
    ∃ j ∈ jobs, d.selPage.addr = j.page := by
  have heffect := Pump.effect_run h
  rw [hpc] at heffect
  have hsel : d.selPage = handleAll devId Page.zero (received ptr) := heffect
  rw [hsel]
  exact prefix_selected hms (commit_received h (.inr hpc)) Page.zero

theorem commit_within {p : Page stm32} {f f' : Stm32Flash.Flash} {outs : List Pump.Event} (j : Job)
    (haddr : p.addr = j.page) (h : Pump.commitWrites devId p f = some (f', outs)) {a : Nat}
    (ha : ¬ (j.page.toNat ≤ a ∧ a < j.page.toNat + 1024)) : f'.mem a = f.mem a := by
  by_cases hl : f.lock = .unlocked
  · have hstart : 0x08001000 ≤ j.page.toNat := j.start
    have hne : p.addr ≠ 0 := by
      rw [haddr]
      rintro hzero
      rw [hzero] at hstart
      exact absurd hstart (by decide)
    have halign : p.addr.toNat % 1024 = 0 := by
      rw [haddr]
      exact j.aligned
    have hlen : p.writes.toList.length = 1024 := Vector.length_toList
    cases (Pump.stm32_commit hl hne halign).symm.trans h
    refine overlay_outside _ _ ?_
    rw [hlen, haddr]
    exact ha
  · cases (Pump.stm32_commit_locked hl).symm.trans h
    rfl

/-- A session that is broken off changes nothing outside its pages. -/
theorem session_within (h : Run (Pump.step stm32 devId) (Pump.boot flash) ptr d) {a : Nat}
    (ha : ¬ InPages jobs a) : received ptr <+: session devId jobs →
      stm32.flash.contents d.flash a = stm32.flash.contents flash.1 a := by
  refine Pump.run_invariant (I := fun tr d => received tr <+: session devId jobs →
    stm32.flash.contents d.flash a = stm32.flash.contents flash.1 a) h (fun _ => rfl) ?_
  intro tr d i d' outs hrun hI hmoved hms
  have hbefore : received tr <+: session devId jobs := by
    rw [Pump.received_snoc] at hms
    exact (List.prefix_append _ _).trans hms
  rw [← hI hbefore]
  have hl := stm32.lockRespected
  cases Pump.moved_flash hmoved with
  | same hsame => rw [hsame]
  | unlock hunlock => rw [hunlock, hl.unlock_contents]
  | commit hpc _ hc =>
    obtain ⟨j, hj, haddr⟩ := commit_page hrun hbefore hpc
    exact commit_within j haddr hc fun hin => ha ⟨j, hj, hin⟩
  | lock _ hlock => rw [hlock, hl.lock_contents]

/-- What a power failure may leave of the flash: in a page that is being written, anything. -/
def Survives (d : Dev stm32) (mem : Nat → U8) : Prop :=
  ∀ a, ¬ (d.pc = .commitWrites ∧ d.selPage.addr.toNat ≤ a ∧ a < d.selPage.addr.toNat + 1024) →
    mem a = stm32.flash.contents d.flash a

/-- What the flash can come to hold: sessions for some of the jobs' pages are broken off,
each at any access of the CAN driver and within a commit, with the timeout at any time, and
the device starts again. Up to there no frame was overrun: one that is lost can be the
SELECT_PAGE before a COMMIT_WRITES. -/
inductive BrokenOff (devId : U8) (jobs : List Job) (mem : Nat → U8) : (Nat → U8) → Prop where
  | first : BrokenOff devId jobs mem mem
  | fails {mem' : Nat → U8} {flash : ResetFlash stm32} {filter : Nat → U32 × U32}
      {ports : Port → U32} {inMsgData : Nat → U8} {js : List Job} {tr : List Trans} {s : Node} :
      BrokenOff devId jobs mem (stm32.flash.contents flash.1) →
      (∀ j ∈ js, ∃ k ∈ jobs, k.page = j.page) →
      Run (step devId) (boot devId flash filter ports inMsgData) tr s →
      (stored tr).map messageOf <+: session devId js → overruns tr = 0 →
      Survives s.dev mem' → BrokenOff devId jobs mem mem'

variable {filter : Nat → U32 × U32} {ports : Port → U32} {inMsgData : Nat → U8}
variable {tr : List Trans} {s : Node} {mem mem' : Nat → U8}

/-- If no frame is lost, a session that is broken off on the bus is handled in part. -/
theorem prefix_handled {js : List Job}
    (h : Run (step devId) (boot devId flash filter ports inMsgData) tr s)
    (hframes : (stored tr).map messageOf <+: session devId js) (hover : overruns tr = 0) :
    ∃ ptr, Run (Pump.step stm32 devId) (Pump.boot flash) ptr s.dev ∧
      received ptr <+: session devId js := by
  obtain ⟨ptr, hrun, hhandled, _⟩ := runs_pump h
  obtain ⟨left, hleft, haccounts⟩ := (traffics_run h).received
  rw [hover] at haccounts
  refine ⟨ptr, hrun, ?_⟩
  rw [hhandled, ← hleft]
  rw [← haccounts.complete, List.map_append] at hframes
  exact (List.prefix_append _ _).trans hframes

theorem fails_within {js : List Job}
    (h : Run (step devId) (boot devId flash filter ports inMsgData) tr s)
    (hframes : (stored tr).map messageOf <+: session devId js) (hover : overruns tr = 0)
    (hsurvives : Survives s.dev mem') {a : Nat} (ha : ¬ InPages js a) :
    mem' a = stm32.flash.contents flash.1 a := by
  obtain ⟨ptr, hrun, hms⟩ := prefix_handled h hframes hover
  rw [← session_within hrun ha hms]
  refine hsurvives a fun hin => ha ?_
  obtain ⟨j, hj, haddr⟩ := commit_page hrun hms hin.1
  rw [haddr] at hin
  exact ⟨j, hj, hin.2⟩

theorem BrokenOff.within (h : BrokenOff devId jobs mem mem') {a : Nat} (ha : ¬ InPages jobs a) :
    mem' a = mem a := by
  induction h with
  | first => rfl
  | fails _ hpages hrun hframes hover hsurvives ih =>
    refine (fails_within hrun hframes hover hsurvives fun hin => ha ?_).trans ih
    obtain ⟨j, hj, hin⟩ := hin
    obtain ⟨k, hk, hpage⟩ := hpages j hj
    exact ⟨k, hk, hpage ▸ hin⟩

/-- However often sessions for the same pages were broken off before, and with whatever
data, if no frame of them was overrun: a session that comes to its end leaves the flash as
it would have without them. -/
theorem session_repeated (jobs : List Job)
    (hbefore : BrokenOff devId jobs mem (stm32.flash.contents flash.1))
    (hlock : flash.1.lock = .locked)
    (h : Run (step devId) (boot devId flash filter ports inMsgData) tr s)
    (hframes : (stored tr).map messageOf = session devId jobs) (hover : overruns tr = 0)
    (htimely : TimelyProgReq tr) (hpc : s.dev.pc = .jump) :
    emitted tr = answers devId jobs ∧ Programmed jobs mem (stm32.flash.contents s.dev.flash) ∧
    s.dev.flash.lock = .locked := by
  obtain ⟨_, ptr, hrun, hmessages, houtputs, hno⟩ :=
    session_handled jobs h hframes hover htimely hpc
  obtain ⟨houts, hprogrammed, hlocked, _⟩ := session_jump hlock jobs hrun hpc hno hmessages
  refine ⟨houtputs.symm.trans houts, ⟨hprogrammed.listed, fun a ha => ?_⟩, hlocked⟩
  rw [hprogrammed.other a ha]
  refine hbefore.within fun hin => ?_
  obtain ⟨j, hj, hin⟩ := hin
  exact ha j hj hin

theorem stepped_committed {s' : Node} {x : Input} {outs : List Out} {data : List U8}
    (h : Stepped devId s x s' outs)
    (hout : .event (Pump.reply devId cnCanMsgWritesCommitted data) ∈ outs) :
    s.dev.pc = .commitWrites := by
  cases h with
  | main _ _ hstep =>
    have hmoved := Pump.step_moved hstep
    have hsends := (Pump.moved_reply hmoved (by decide) (mem_events.mp hout)).2
    exact Pump.sends_place hsends rfl (by simp)
  | timer hi hstep =>
    have hmain := (Pump.moved_reply (Pump.step_moved hstep) (by decide) (mem_events.mp hout)).1
    subst hmain
    simp at hi
  | recvReturns _ _ hstep =>
    obtain rfl := recv_quiet hstep
    simp at hout
  | move _ =>
    obtain ⟨e, _, he⟩ := List.mem_map.mp hout
    cases he
  | _ => simp at hout

/-- A session comes to its commit. -/
theorem uniform_commit : ∃ (tr : List Trans) (s : Node), Run (step 42) nodeStart tr s ∧
    (stored tr).map messageOf <+: session 42 [Pump.uniformJob 0xA5] ∧ overruns tr = 0 ∧
    s.dev.pc = .commitWrites := by
  obtain ⟨tr, s, hrun, hframes, hover, htimely, hpc, _⟩ := uniform_run
  obtain ⟨_, ptr, hptr, hmessages, houtputs, hno⟩ :=
    session_handled _ hrun hframes hover htimely hpc
  obtain ⟨houts, _⟩ := session_jump rfl _ hptr hpc hno hmessages
  have hcommitted : Pump.reply 42 cnCanMsgWritesCommitted
      (cnWriteU32LE (Pump.uniformJob 0xA5).page) ∈ emitted tr := by
    rw [← houtputs, houts]
    simp [answers, Job.replies]
  obtain ⟨x, hx, hout⟩ := List.mem_flatMap.mp (mem_emitted.mp hcommitted)
  obtain ⟨l, r, hlr, hl, hstep⟩ := hrun.of_mem hx
  have hsplit : outputs tr = outputs l ++ (outputs [x] ++ outputs r) := by
    rw [hlr, ← List.singleton_append, Mealy.outputs_append, Mealy.outputs_append]
  refine ⟨l, x.pre, hl, ?_, ?_, stepped_committed (step_stepped hstep) hout⟩
  · rw [← hframes, stored, stored, hsplit, List.filterMap_append, List.map_append]
    exact List.prefix_append _ _
  · rw [overruns, hsplit, List.count_append] at hover
    exact (Nat.add_eq_zero_iff.mp hover).1

/-- The power fails when the page is erased and before it is programmed. -/
theorem uniform_erased :
    BrokenOff 42 [Pump.uniformJob 0xA5] (fun _ => 0xFF#8) (fun _ => 0xFF#8) := by
  obtain ⟨tr, s, hrun, hframes, hover, hpc⟩ := uniform_commit
  obtain ⟨ptr, hptr, hms⟩ := prefix_handled hrun hframes hover
  obtain ⟨j, hj, haddr⟩ := commit_page hptr hms hpc
  have hfirst : BrokenOff 42 [Pump.uniformJob 0xA5] (fun _ => 0xFF#8)
      (stm32.flash.contents Pump.stm32Fresh.1) := .first
  refine .fails hfirst (fun k hk => ⟨k, hk, rfl⟩) hrun hframes hover fun a ha => ?_
  have hout : ¬ InPages [Pump.uniformJob 0xA5] a := by
    rintro ⟨k, hk, hin⟩
    cases List.mem_singleton.mp hk
    cases List.mem_singleton.mp hj
    rw [haddr] at ha
    exact ha ⟨hpc, hin⟩
  exact (session_within hptr hout hms).symm

theorem session_repeated_erased : ∃ (tr : List Trans) (s : Node), Run (step 42) nodeStart tr s ∧
    BrokenOff 42 [Pump.uniformJob 0xA5] (fun _ => 0xFF#8)
      (stm32.flash.contents nodeStart.dev.flash) ∧
    Programmed [Pump.uniformJob 0xA5] (fun _ => 0xFF#8) (stm32.flash.contents s.dev.flash) := by
  obtain ⟨tr, s, hrun, hframes, hover, htimely, hpc, _⟩ := uniform_run
  obtain ⟨_, hprogrammed, _⟩ :=
    session_repeated [Pump.uniformJob 0xA5] uniform_erased rfl hrun hframes hover htimely hpc
  exact ⟨tr, s, hrun, uniform_erased, hprogrammed⟩

end CANnuccia.Stm32Node

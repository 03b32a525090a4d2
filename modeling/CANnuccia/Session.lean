import CANnuccia.Handlers

/-!
# A programming session on STM32

A master unlocks the device, sends each page in pieces, checks it, commits it and
says it is done. The flash then holds the pages and nothing else has changed.
-/
namespace CANnuccia.Pump

open Util CanMsgs Overlay
open Mealy (Machine Transition Run outputs Happened Before)

section Handlers

variable {B : Backend} {devId : U8}

/-- Every kind of message has its own handler. -/
theorem dispatch_master (devId : U8) (data : List U8) (h : data.length ≤ 8) :
    dispatch (master cnCanMsgProgReq devId data h) = .progReqTest ∧
    dispatch (master cnCanMsgUnlock devId data h) = .unlockTest ∧
    dispatch (master cnCanMsgSelectPage devId data h) = .selectPage data ∧
    dispatch (master cnCanMsgSeek devId data h) = .seek data ∧
    dispatch (master cnCanMsgWrite devId data h) = .write data ∧
    dispatch (master cnCanMsgCheckWrites devId data h) = .checkWrites ∧
    dispatch (master cnCanMsgCommitWrites devId data h) = .commitTest ∧
    dispatch (master cnCanMsgProgDone devId data h) = .progDone := by
  simp only [dispatch, master, devMask_kind]
  simp [cnCanMsgidMask, cnCanMsgProgReq, cnCanMsgUnlock,
    cnCanMsgSelectPage, cnCanMsgSeek, cnCanMsgWrite, cnCanMsgCheckWrites, cnCanMsgCommitWrites,
    cnCanMsgProgDone]

variable {state : State} {page page' : Page B} {f f' : B.flash.Flash} {o outs : List Event}
variable {data : List U8} {h : data.length ≤ 8}

/-- A message is served by the branch it is dispatched to. -/
theorem serve_master {c c' : Core B} {m : Msg} {pc : Pc} (hpc : c.pc = .loopTest)
    (hd : dispatch m = pc) (hh : Handler devId c pc c' outs) :
    serve devId (c, o) m = some (c', o ++ outs) := by
  subst hd
  exact hh.serve (s := (c, o)) hpc

theorem serve_silent {c c' : Core B} {m : Msg} {pc : Pc} (hpc : c.pc = .loopTest)
    (hd : dispatch m = pc) (hh : Handler devId c pc c' []) :
    serve devId (c, o) m = some (c', o) := by
  rw [serve_master hpc hd hh, List.append_nil]

theorem serve_progReq :
    serve devId (⟨.loopTest, .idle, page, f⟩, o) (master cnCanMsgProgReq devId data h) =
      some (⟨.loopTest, .locked, page, f⟩,
        o ++ [.cnTimerStop, reply devId cnCanMsgProgReqResp (progReqStats B)]) :=
  serve_master rfl (dispatch_master devId data h).1 (.progReqFirst rfl)

theorem serve_unlock (hu : B.flash.cnFlashUnlock f = (true, f')) :
    serve devId (⟨.loopTest, .locked, page, f⟩, o) (master cnCanMsgUnlock devId data h) =
      some (⟨.loopTest, .unlocked, page, f'⟩,
        o ++ [.cnFlashUnlock true, reply devId cnCanMsgUnlocked []]) := by
  have hflash : f' = (B.flash.cnFlashUnlock f).2 := by rw [hu]
  subst hflash
  exact serve_master rfl (dispatch_master devId data h).2.1 (.unlockTrue rfl (by rw [hu]))

theorem serve_selectPage (hs : selectPage devId data page = (page', outs)) :
    serve devId (⟨.loopTest, state, page, f⟩, o) (master cnCanMsgSelectPage devId data h) =
      some (⟨.loopTest, state, page', f⟩, o ++ outs) := by
  obtain ⟨rfl, rfl⟩ := Prod.mk.inj hs
  exact serve_master rfl (dispatch_master devId data h).2.2.1 (.selectPage data)

theorem serve_seek (hs : seek data page = page') :
    serve devId (⟨.loopTest, state, page, f⟩, o) (master cnCanMsgSeek devId data h) =
      some (⟨.loopTest, state, page', f⟩, o) := by
  subst hs
  exact serve_silent rfl (dispatch_master devId data h).2.2.2.1 (.seek data)

theorem serve_write :
    serve devId (⟨.loopTest, state, page, f⟩, o) (master cnCanMsgWrite devId data h) =
      some (⟨.loopTest, state, write data page, f⟩, o) :=
  serve_silent rfl (dispatch_master devId data h).2.2.2.2.1 (.write data)

theorem serve_checkWrites (hc : checkWrites devId page = outs) :
    serve devId (⟨.loopTest, state, page, f⟩, o) (master cnCanMsgCheckWrites devId data h) =
      some (⟨.loopTest, state, page, f⟩, o ++ outs) := by
  subst hc
  exact serve_master rfl (dispatch_master devId data h).2.2.2.2.2.1 .checkWrites

theorem serve_commitWrites (hc : commitWrites devId page f = some (f', outs)) :
    serve devId (⟨.loopTest, .unlocked, page, f⟩, o) (master cnCanMsgCommitWrites devId data h) =
      some (⟨.loopTest, .unlocked, page, f'⟩, o ++ outs) :=
  serve_master rfl (dispatch_master devId data h).2.2.2.2.2.2.1 (.commit f' outs rfl hc)

theorem serve_progDone :
    serve devId (⟨.loopTest, state, page, f⟩, o) (master cnCanMsgProgDone devId data h) =
      some (⟨.loopTest, .done, page, f⟩, o ++ [reply devId cnCanMsgProgDoneAck []]) :=
  serve_master rfl (dispatch_master devId data h).2.2.2.2.2.2.2 .progDone

/-- The payload of a WRITE. -/
abbrev Chunk := {bytes : List U8 // bytes.length ≤ 8}

def writeMsg (devId : U8) (c : Chunk) : Msg := master cnCanMsgWrite devId c.1 c.2

theorem dispatch_writeMsg (c : Chunk) : dispatch (writeMsg devId c) = .write c.1 :=
  (dispatch_master devId c.1 c.2).2.2.2.2.1

/-- However they are cut, the bytes arrive in the buffer in one piece. -/
theorem serveAll_writes (chunks : List Chunk) (page : Page B) :
    serveAll devId (⟨.loopTest, state, page, f⟩, o) (chunks.map (writeMsg devId)) =
      some (⟨.loopTest, state, write (chunks.map Subtype.val).flatten page, f⟩, o) := by
  induction chunks generalizing page with
  | nil => rfl
  | cons c chunks ih =>
    rw [List.map_cons, serveAll_cons, writeMsg, serve_write, Option.bind_some, ih, List.map_cons,
      List.flatten_cons, write_append]

end Handlers

/-- A page to be programmed, with its data cut into WRITE messages. -/
structure Job where
  page : U32
  chunks : List Chunk
  aligned : page.toNat % 1024 = 0
  start : Target.appStart .stm32 ≤ page.toNat
  inside : page.toNat + 1024 ≤ Target.appEnd .stm32
  writeable : Stm32Flash.cnFlashPageWriteable page = true
  whole : (chunks.map Subtype.val).flatten.length = 1024

def Job.data (j : Job) : List U8 := (j.chunks.map Subtype.val).flatten

def Job.messages (devId : U8) (j : Job) : List Msg :=
  [commandAt cnCanMsgSelectPage devId j.page, commandAt cnCanMsgSeek devId 0] ++
  j.chunks.map (writeMsg devId) ++
  [command cnCanMsgCheckWrites devId, command cnCanMsgCommitWrites devId]

def Job.replies (devId : U8) (j : Job) : List Event :=
  [reply devId cnCanMsgPageSelected (cnWriteU32LE j.page),
    reply devId cnCanMsgWritesChecked (cnWriteU16LE (stm32CnCRC16 j.data)),
    reply devId cnCanMsgWritesCommitted (cnWriteU32LE j.page)]

def session (devId : U8) (jobs : List Job) : List Msg :=
  [command cnCanMsgProgReq devId, command cnCanMsgUnlock devId] ++
  jobs.flatMap (Job.messages devId) ++ [command cnCanMsgProgDone devId]

/-- All that the device emits over a session, in order. -/
def answers (devId : U8) (jobs : List Job) : List Event :=
  [.cnTimerStop, reply devId cnCanMsgProgReqResp (progReqStats stm32), .cnFlashUnlock true,
    reply devId cnCanMsgUnlocked []] ++
  jobs.flatMap (Job.replies devId) ++ [reply devId cnCanMsgProgDoneAck []]

/-- The flash after a job. -/
def Job.program (j : Job) (f : Stm32Flash.Flash) : Stm32Flash.Flash where
  lock := .unlocked
  pg := false
  per := false
  ar := j.page
  bsy := false
  mem := overlay f.mem j.page.toNat j.data
  ops := f.ops ++ .erase j.page.toNat :: Stm32Flash.programs j.page.toNat 512
  curPageAddr := 0

variable {devId : U8}

theorem Job.select (j : Job) (page : Page stm32) :
    selectPage devId (cnWriteU32LE j.page) page =
      ({ page with addr := j.page },
        [reply devId cnCanMsgPageSelected (cnWriteU32LE j.page)]) := by
  have hself : @BitVec.setWidth Target.stm32.backend.w 32 j.page = j.page := BitVec.setWidth_eq j.page
  have hsel := selectPage_self (t := .stm32) devId j.aligned j.writeable page
  rw [hself] at hsel
  exact hsel

theorem seek_zero (page : Page stm32) :
    seek (cnWriteU32LE 0) page = { page with writeOffset := 0 } := by
  simp [seek, stm32, Stm32Flash.cnFlashPageSize]

/-- The buffer after the WRITEs of a job. -/
def Job.buffer (j : Job) (page : Page stm32) : Page stm32 :=
  write j.data { page with addr := j.page, writeOffset := 0 }

theorem Job.buffer_addr (j : Job) (page : Page stm32) : (j.buffer page).addr = j.page :=
  write_addr _ _

theorem Job.buffer_writes (j : Job) (page : Page stm32) :
    (j.buffer page).writes.toList = j.data :=
  write_all rfl j.whole

theorem Job.checked (j : Job) (page : Page stm32) : checkWrites devId (j.buffer page) =
    [reply devId cnCanMsgWritesChecked (cnWriteU16LE (stm32CnCRC16 j.data))] := by
  rw [checkWrites, j.buffer_writes]
  rfl

theorem Job.commit (j : Job) (page : Page stm32) {f : Stm32Flash.Flash} (hl : f.lock = .unlocked) :
    commitWrites devId (j.buffer page) f =
      some (j.program f, [reply devId cnCanMsgWritesCommitted (cnWriteU32LE j.page)]) := by
  have haddr := j.buffer_addr page
  have hstart : 0x08001000 ≤ j.page.toNat := j.start
  have hp : (j.buffer page).addr ≠ 0 := by
    intro hzero
    rw [haddr] at hzero
    rw [show j.page.toNat = 0 from congrArg BitVec.toNat hzero] at hstart
    omega
  have halign : (j.buffer page).addr.toNat % 1024 = 0 := by
    rw [haddr]
    exact j.aligned
  have hc : commitWrites devId (j.buffer page) f = _ := stm32_commit hl hp halign
  rw [j.buffer_writes, haddr] at hc
  have hreply : committed devId (j.buffer page) =
      reply devId cnCanMsgWritesCommitted (cnWriteU32LE j.page) := by
    rw [committed, haddr]
    exact congrArg (fun a => reply devId cnCanMsgWritesCommitted (cnWriteU32LE a))
      (BitVec.setWidth_eq j.page)
  rw [← hreply]
  exact hc

/-- A job served: its CRC is answered and the page is programmed. -/
theorem serve_job (devId : U8) (j : Job) (page : Page stm32) (o : List Event)
    {f : Stm32Flash.Flash} (hl : f.lock = .unlocked) :
    serveAll devId (⟨.loopTest, .unlocked, page, f⟩, o) (j.messages devId) =
      some (⟨.loopTest, .unlocked, j.buffer page, j.program f⟩, o ++ j.replies devId) := by
  have houts : o ++ [reply devId cnCanMsgPageSelected (cnWriteU32LE j.page)] ++
      [reply devId cnCanMsgWritesChecked (cnWriteU16LE (stm32CnCRC16 j.data))] ++
      [reply devId cnCanMsgWritesCommitted (cnWriteU32LE j.page)] = o ++ j.replies devId := by
    simp [Job.replies]
  rw [← houts]
  have hselect : serveAll devId (⟨.loopTest, .unlocked, page, f⟩, o)
      [commandAt cnCanMsgSelectPage devId j.page, commandAt cnCanMsgSeek devId 0] = _ :=
    serveAll_step (serve_selectPage (j.select page))
      (serveAll_step (serve_seek (seek_zero _)) (serveAll_nil _))
  have hwrites := serveAll_trans hselect (serveAll_writes j.chunks _)
  exact serveAll_trans hwrites (serveAll_step (serve_checkWrites (j.checked page))
    (serveAll_step (serve_commitWrites (j.commit page hl)) (serveAll_nil _)))

/-- What a job writes, and where. -/
def Job.entry (j : Job) : Nat × List U8 := (j.page.toNat, j.data)

/-- Jobs leave the controller open but idle, and their data in the flash. -/
structure JobsDone (jobs : List Job) (f f' : Stm32Flash.Flash) : Prop where
  lock : f'.lock = .unlocked
  pg : f'.pg = false
  per : f'.per = false
  mem : f'.mem = overlays f.mem (jobs.map Job.entry)

theorem serve_jobs (devId : U8) (jobs : List Job) : ∀ (page : Page stm32) (o : List Event)
    {f : Stm32Flash.Flash}, JobsDone [] f f → ∃ page' f',
      serveAll devId (⟨.loopTest, .unlocked, page, f⟩, o) (jobs.flatMap (Job.messages devId)) =
        some (⟨.loopTest, .unlocked, page', f'⟩, o ++ jobs.flatMap (Job.replies devId)) ∧
      JobsDone jobs f f' := by
  induction jobs with
  | nil =>
    intro page o f hf
    exact ⟨page, f, by simp, hf⟩
  | cons j jobs ih =>
    intro page o f hf
    have hserve := serve_job devId j page o hf.lock
    have hnext : JobsDone [] (j.program f) (j.program f) := ⟨rfl, rfl, rfl, rfl⟩
    obtain ⟨page', f', hrest, hdone⟩ := ih (j.buffer page) (o ++ j.replies devId) hnext
    refine ⟨page', f', ?_, hdone.lock, hdone.pg, hdone.per, hdone.mem⟩
    rw [List.flatMap_cons, List.flatMap_cons, ← List.append_assoc]
    exact serveAll_trans hserve hrest

/-- A session served from the start ends in DONE, with all answers given. -/
theorem serve_session (devId : U8) (flash : ResetFlash stm32) (hlock : flash.1.lock = .locked)
    (jobs : List Job) : ∃ page f, serveAll devId (start flash) (session devId jobs) =
      some (⟨.loopTest, .done, page, f⟩, answers devId jobs) ∧
      JobsDone jobs { flash.1 with lock := .unlocked } f := by
  have hreset : Stm32Flash.AtReset flash.1 := flash.2
  have hopen : serveAll devId (start flash)
      [command cnCanMsgProgReq devId, command cnCanMsgUnlock devId] = _ :=
    serveAll_step serve_progReq
      (serveAll_step (serve_unlock (Stm32Flash.unlock_locked hlock)) (serveAll_nil _))
  have hunlocked : JobsDone [] { flash.1 with lock := .unlocked } { flash.1 with lock := .unlocked } :=
    ⟨rfl, hreset.pg, hreset.per, rfl⟩
  obtain ⟨page, f, hjobs, hdone⟩ := serve_jobs devId jobs Page.zero _ hunlocked
  exact ⟨page, f, serveAll_trans (serveAll_trans hopen hjobs)
    (serveAll_step serve_progDone (serveAll_nil _)), hdone⟩

theorem master_kind {kind : U32} {data : List U8} {h : data.length ≤ 8}
    (hk : kind &&& cnCanMsgidMask ≠ cnCanMsgProgDone) :
    (master kind devId data h).id &&& cnCanMsgidMask ≠ cnCanMsgProgDone := by
  rw [master, devMask_kind]
  exact hk

theorem Job.kinds (j : Job) :
    ∀ m ∈ j.messages devId, m.id &&& cnCanMsgidMask ≠ cnCanMsgProgDone := by
  intro m hm
  simp only [Job.messages, List.mem_append, List.mem_cons, List.not_mem_nil, or_false,
    List.mem_map] at hm
  rcases hm with ((rfl | rfl) | ⟨c, _, rfl⟩) | (rfl | rfl)
  all_goals exact master_kind (by decide)

/-- Only the last message of a session is a PROG_DONE. -/
theorem session_alive (flash : ResetFlash stm32) (jobs : List Job) :
    AliveFor devId (start flash) (session devId jobs) := by
  refine aliveFor_snoc _ ?_ (by simp [start])
  intro m hm
  cases List.mem_append.mp hm with
  | inl hm =>
    simp only [List.mem_cons, List.not_mem_nil, or_false] at hm
    rcases hm with rfl | rfl <;> exact master_kind (by decide)
  | inr hm =>
    obtain ⟨j, _, hm⟩ := List.mem_flatMap.mp hm
    exact j.kinds m hm

/-- Two jobs are for one page or do not meet. -/
theorem Job.apart {j k : Job} (h : k.page ≠ j.page) {a : Nat} (hlow : j.page.toNat ≤ a)
    (hhigh : a < j.page.toNat + 1024) : ¬ (k.page.toNat ≤ a ∧ a < k.page.toNat + 1024) := by
  have hne : k.page.toNat ≠ j.page.toNat := fun he => h (BitVec.eq_of_toNat_eq he)
  have hj := j.aligned
  have hk := k.aligned
  omega

/-- Each listed page holds the data of its last job, and every other byte, the
bootloader's included, is what it was. -/
structure Programmed (jobs : List Job) (before after : Nat → U8) : Prop where
  listed : ∀ l j r, jobs = l ++ j :: r → (∀ k ∈ r, k.page ≠ j.page) →
    ∀ (i : Nat) (h : i < j.data.length), after (j.page.toNat + i) = j.data[i]
  other : ∀ a, (∀ j ∈ jobs, ¬ (j.page.toNat ≤ a ∧ a < j.page.toNat + 1024)) → after a = before a

theorem programmed_overlays (jobs : List Job) (m : Nat → U8) :
    Programmed jobs m (overlays m (jobs.map Job.entry)) where
  listed := by
    rintro l j r rfl hlast i hi
    have hlen : j.data.length = 1024 := j.whole
    rw [List.map_append, List.map_cons]
    refine overlays_last m _ _ hi ?_
    intro v hv
    obtain ⟨k, hk, rfl⟩ := List.mem_map.mp hv
    have hlen' : k.data.length = 1024 := k.whole
    simp only [Job.entry, hlen']
    exact Job.apart (hlast k hk) (by omega) (by omega)
  other := by
    intro a ha
    refine overlays_outside m ?_
    intro v hv
    obtain ⟨j, hj, rfl⟩ := List.mem_map.mp hv
    have hlen : j.data.length = 1024 := j.whole
    simp only [Job.entry, hlen]
    exact ha j hj

/-- A session on a freshly reset device with a working key lock, and no timeout
before PROG_REQ: some run receives it and jumps to the program, and every run that
does has answered it, programmed the pages and locked the controller. -/
theorem session_programs (devId : U8) (flash : ResetFlash stm32) (hlock : flash.1.lock = .locked)
    (jobs : List Job) :
    (∃ tr d, Run (step stm32 devId) (boot flash) tr d ∧ d.pc = .jump ∧
      received tr = session devId jobs ∧ TimelyProgReq tr) ∧
    ∀ (tr : List (Trans stm32)) (d : Dev stm32), Run (step stm32 devId) (boot flash) tr d →
      d.pc = .jump → received tr = session devId jobs → TimelyProgReq tr →
      outputs tr = answers devId jobs ∧
      Programmed jobs (stm32.flash.contents flash.1) (stm32.flash.contents d.flash) ∧
      d.flash.lock = .locked ∧ d.flash.pg = false ∧ d.flash.per = false := by
  obtain ⟨page, f, hserve, hdone⟩ := serve_session devId flash hlock jobs
  constructor
  · obtain ⟨tr, d, hrun, hpc, hms, hno⟩ := run_session hserve rfl (session_alive flash jobs)
    refine ⟨tr, d, hrun, hpc, hms, ?_⟩
    rintro l x r rfl hx
    exact absurd (List.mem_flatMap.mpr ⟨x, by simp, hx⟩) hno
  · intro tr d hrun hpc hms htimely
    obtain ⟨c, hc, _, hflash⟩ := jump_serves hrun (htimely.no_timeout hrun) hpc
    rw [hms, hserve, Option.some.injEq, Prod.mk.injEq] at hc
    obtain ⟨rfl, houts⟩ := hc
    have hlocked : (Stm32Flash.cnFlashLock f).2 = _ := Stm32Flash.lock_unlocked hdone.lock
    have hend : d.flash = { f with lock := .locked } := hflash.trans hlocked
    have hmem : stm32.flash.contents d.flash = overlays flash.1.mem (jobs.map Job.entry) :=
      (congrArg Stm32Flash.Flash.mem hend).trans hdone.mem
    refine ⟨houts.symm, ?_, ?_⟩
    · rw [hmem]
      exact programmed_overlays jobs flash.1.mem
    · rw [hend]
      exact ⟨rfl, hdone.pg, hdone.per⟩

/-- A page of one byte, sent in full WRITEs. -/
def uniformJob (b : U8) : Job where
  page := 0x08001000
  chunks := List.replicate 128 ⟨List.replicate 8 b, by simp⟩
  aligned := by decide
  start := by decide
  inside := by decide
  writeable := by decide
  whole := by
    rw [List.map_replicate, List.flatten_replicate_replicate, List.length_replicate]

/-- A page programmed twice. -/
theorem session_programs_twice : ∃ (tr : List (Trans stm32)) (d : Dev stm32),
    Run (step stm32 42) (boot stm32Fresh) tr d ∧ d.pc = .jump ∧
    received tr = session 42 [uniformJob 0, uniformJob 0xA5] ∧
    outputs tr = answers 42 [uniformJob 0, uniformJob 0xA5] ∧
    Programmed [uniformJob 0, uniformJob 0xA5] (fun _ => 0xFF#8) (stm32.flash.contents d.flash) ∧
    d.flash.lock = .locked := by
  obtain ⟨⟨tr, d, hrun, hpc, hms, htimely⟩, hall⟩ :=
    session_programs 42 stm32Fresh rfl [uniformJob 0, uniformJob 0xA5]
  obtain ⟨houts, hflash, hl, _⟩ := hall tr d hrun hpc hms htimely
  exact ⟨tr, d, hrun, hpc, hms, houts, hflash, hl⟩

end CANnuccia.Pump

import CANnuccia.Timeout

/-!
# One message at a time

Without a timeout the pump is a function of the messages it receives: `serve`
runs a handler from its first step to the loop test. Every run in which the
timeout function does not run computes `serveAll` of its messages, and whatever
`serveAll` computes is computed by a run.
-/
namespace CANnuccia.Pump

open Util CanMsgs
open Mealy (Machine Transition Run outputs Happened Before)

variable {B : Backend} {devId : U8}

/-- The most steps a handler still has to make. -/
def Pc.left : Pc → Nat
  | .progReqTest => 4
  | .progReqStop => 3
  | .progReqLocked => 2
  | .progReqResp => 1
  | .unlockTest => 5
  | .unlockIsLocked => 4
  | .unlockCall => 3
  | .unlockSet => 2
  | .unlockReply => 1
  | .selectPage _ | .seek _ | .write _ | .checkWrites => 1
  | .commitTest => 2
  | .commitWrites => 1
  | .progDone => 2
  | .progDoneSet => 1
  | _ => 0

theorem left_le (pc : Pc) : pc.left ≤ 5 := by
  cases pc <;> simp [Pc.left]

/-- A handler gets nearer to its end with every step, and ends at the loop test. -/
theorem move_left {c c' : Core B} {outs : List Event} (h : Move devId c c' outs)
    (hl : 0 < c.pc.left) : c'.pc.left < c.pc.left ∧ (0 < c'.pc.left ∨ c'.pc = .loopTest) := by
  cases h <;> simp_all [Pc.left]

/-- Runs a handler to its end, for at most `n` steps. -/
def finish (devId : U8) : Nat → Core B → Option (Core B × List Event)
  | 0, c => if c.pc.left = 0 then some (c, []) else none
  | n + 1, c =>
    if c.pc.left = 0 then some (c, [])
    else (mainStep devId c).bind fun r => (finish devId n r.1).map fun q => (q.1, r.2 ++ q.2)

theorem finish_ended {n : Nat} {c : Core B} (h : c.pc.left = 0) :
    finish devId n c = some (c, []) := by
  cases n <;> simp [finish, h]

/-- Steps to spare change nothing. -/
theorem finish_succ {n : Nat} {c : Core B} (h : c.pc.left ≤ n) :
    finish devId (n + 1) c = finish devId n c := by
  induction n generalizing c with
  | zero =>
    have hl : c.pc.left = 0 := by omega
    rw [finish_ended hl, finish_ended hl]
  | succ n ih =>
    by_cases hl : c.pc.left = 0
    · rw [finish_ended hl, finish_ended hl]
    · rw [finish, if_neg hl, finish, if_neg hl]
      cases hm : mainStep devId c with
      | none => rfl
      | some r =>
        have hless := (move_left (mainStep_move hm) (by omega)).1
        rw [Option.bind_some, Option.bind_some, ih (by omega)]

/-- The first step of a handler and the rest of it. -/
theorem finish_step {c c' : Core B} {outs : List Event} (hl : 0 < c.pc.left)
    (h : mainStep devId c = some (c', outs)) :
    finish devId 5 c = (finish devId 5 c').map fun q => (q.1, outs ++ q.2) := by
  have hless := (move_left (mainStep_move h) hl).1
  have hmax := left_le c.pc
  have hspare : finish devId 5 c' = finish devId 4 c' := finish_succ (by omega)
  rw [finish, if_neg (by omega), h, Option.bind_some, hspare]

/-- What holds where a handler has ended and is kept backwards over its steps. -/
theorem finish_induction {P : Core B → List Event → Core B → Prop}
    (ended : ∀ c, c.pc.left = 0 → P c [] c)
    (step : ∀ c c₁ c' o o', 0 < c.pc.left → mainStep devId c = some (c₁, o) → P c₁ o' c' →
      P c (o ++ o') c')
    {n : Nat} {c c' : Core B} {outs : List Event} (h : finish devId n c = some (c', outs)) :
    P c outs c' := by
  induction n generalizing c outs with
  | zero =>
    by_cases hl : c.pc.left = 0
    · rw [finish_ended hl] at h
      cases h
      exact ended _ hl
    · simp [finish, hl] at h
  | succ n ih =>
    by_cases hl : c.pc.left = 0
    · rw [finish_ended hl] at h
      cases h
      exact ended _ hl
    · rw [finish, if_neg hl] at h
      simp only [Option.bind_eq_some_iff, Option.map_eq_some_iff, Prod.exists, Prod.mk.injEq] at h
      obtain ⟨c₁, o₁, hm, c₂, o₂, hrest, rfl, rfl⟩ := h
      exact step c c₁ c₂ o₁ o₂ (by omega) hm (ih hrest)

/-- The same variables at another place. -/
def Core.goto (c : Core B) (pc : Pc) : Core B := ⟨pc, c.state, c.selPage, c.flash⟩

/-- The device between two messages, with what it has emitted. -/
abbrev Served (B : Backend) := Core B × List Event

/-- Handles one message. -/
def serve (devId : U8) (s : Served B) (m : Msg) : Option (Served B) :=
  (finish devId 5 (s.1.goto (dispatch m))).map fun r => (r.1.goto .loopTest, s.2 ++ r.2)

def serveAll (devId : U8) (s : Served B) (ms : List Msg) : Option (Served B) :=
  ms.foldlM (serve devId) s

@[simp] theorem serveAll_nil (s : Served B) : serveAll devId s [] = some s := rfl

theorem serveAll_cons (s : Served B) (m : Msg) (ms : List Msg) :
    serveAll devId s (m :: ms) = (serve devId s m).bind fun s' => serveAll devId s' ms := by
  rw [serveAll, List.foldlM_cons]
  rfl

theorem serveAll_append (s : Served B) (l r : List Msg) :
    serveAll devId s (l ++ r) = (serveAll devId s l).bind fun s' => serveAll devId s' r := by
  rw [serveAll, List.foldlM_append]
  rfl

theorem serveAll_step {s s₁ s' : Served B} {m : Msg} {ms : List Msg}
    (h : serve devId s m = some s₁) (h' : serveAll devId s₁ ms = some s') :
    serveAll devId s (m :: ms) = some s' := by
  rw [serveAll_cons, h, Option.bind_some, h']

theorem serveAll_trans {s s₁ s' : Served B} {l r : List Msg} (h : serveAll devId s l = some s₁)
    (h' : serveAll devId s₁ r = some s') : serveAll devId s (l ++ r) = some s' := by
  rw [serveAll_append, h, Option.bind_some, h']

def received (tr : List (Trans B)) : List Msg := tr.filterMap fun x => x.input.message

/-- The device before its first message. -/
def start (flash : ResetFlash B) : Served B :=
  (⟨.loopTest, .idle, Page.zero, flash⟩, [])

variable {flash : ResetFlash B} {tr : List (Trans B)} {d d' : Dev B} {i : Input}
variable {outs : List Event}

@[simp] theorem received_snoc (x : Trans B) :
    received (tr ++ [x]) = received tr ++ x.input.message.toList := by
  rw [received, List.filterMap_append, ← received]
  cases hm : x.input.message <;> simp [hm]

/-- What the messages make of the device, against where the run is. -/
structure Computes (devId : U8) (flash : ResetFlash B) (tr : List (Trans B)) (d : Dev B) : Prop where
  starting : d.pc = .timerStart ∨ d.pc = .stateIdle → d.state = .idle
  leaving : d.pc = .flashLock → d.state = .done
  serving : d.pc ≠ .jump → serveAll devId (start flash) (received tr) =
    (finish devId 5 d.toCore).map fun r => (r.1.goto .loopTest, outputs tr ++ r.2)
  left : d.pc = .jump → ∃ c, serveAll devId (start flash) (received tr) = some (c, outputs tr) ∧
    c.state = .done ∧ d.flash = (B.flash.cnFlashLock c.flash).2

theorem Computes.ended (hc : Computes devId flash tr d) (hl : d.pc.left = 0) (hj : d.pc ≠ .jump) :
    serveAll devId (start flash) (received tr) = some (d.toCore.goto .loopTest, outputs tr) := by
  rw [hc.serving hj, finish_ended hl, Option.map_some, List.append_nil]

/-- Between two handlers only the program counter moves. -/
theorem computes_between (hc : Computes devId flash tr d) (hl : d.pc.left = 0)
    (hj : d.pc ≠ .jump) (hm : i.message = none) (hl' : d'.pc.left = 0)
    (hsame : d'.toCore.goto .loopTest = d.toCore.goto .loopTest) :
    serveAll devId (start flash) (received (tr ++ [⟨d, i, [], d'⟩])) =
      (finish devId 5 d'.toCore).map fun r =>
        (r.1.goto .loopTest, outputs (tr ++ [⟨d, i, [], d'⟩]) ++ r.2) := by
  rw [received_snoc, hm, finish_ended hl', Option.map_some, hsame]
  simpa using hc.ended hl hj

theorem computes_main {c : Core B} {timer : B.timer.Timer} (hc : Computes devId flash tr d)
    (hstep : mainStep devId d.toCore = some (c, outs)) :
    Computes devId flash (tr ++ [⟨d, .main, outs, ⟨c, timer⟩⟩]) ⟨c, timer⟩ := by
  have hm := mainStep_move hstep
  by_cases hl : 0 < d.pc.left
  · have hj : d.pc ≠ .jump := by
      intro he
      rw [he] at hl
      cases hl
    have hpc := (move_left hm hl).2
    constructor
    · intro hs
      rcases hs with hs | hs <;> simp_all [Pc.left]
    · intro hs
      simp_all [Pc.left]
    · intro _
      have hrest := hc.serving hj
      rw [finish_step hl hstep, Option.map_map] at hrest
      simpa [Function.comp_def] using hrest
    · intro hs
      simp_all [Pc.left]
  · have hzero : d.pc.left = 0 := by omega
    cases hm with
    | timerStart hpc =>
      have hs := hc.starting (.inl hpc)
      exact ⟨fun _ => hs, by simp, fun _ => computes_between hc hzero (by simp [hpc]) rfl rfl rfl,
        by simp⟩
    | stateIdle hpc =>
      have hs := hc.starting (.inr hpc)
      have hsame : (⟨.loopTest, .idle, d.selPage, d.flash⟩ : Core B) = d.toCore.goto .loopTest := by
        rw [← hs]
        rfl
      exact ⟨fun _ => rfl, by simp, fun _ => computes_between hc hzero (by simp [hpc]) rfl rfl hsame,
        by simp⟩
    | loopOn hpc _ =>
      exact ⟨by simp, by simp, fun _ => computes_between hc hzero (by simp [hpc]) rfl rfl rfl,
        by simp⟩
    | loopExit hpc hs =>
      exact ⟨by simp, fun _ => hs, fun _ => computes_between hc hzero (by simp [hpc]) rfl rfl rfl,
        by simp⟩
    | flashLock hpc =>
      refine ⟨by simp, by simp, fun hj => absurd rfl hj, fun _ => ?_⟩
      refine ⟨d.toCore.goto .loopTest, ?_, hc.leaving hpc, rfl⟩
      simpa using hc.ended hzero (by simp [hpc])
    | _ => simp_all [Pc.left]

theorem computes_step (hc : Computes devId flash tr d) (hno : .onTimeout ∉ outs)
    (hstep : step B devId d i = some (d', outs)) :
    Computes devId flash (tr ++ [⟨d, i, outs, d'⟩]) d' := by
  have hmoved := step_moved hstep
  cases hmoved with
  | main hm _ =>
    simp only [step, Option.bind_eq_bind, Option.bind_eq_some_iff, Prod.exists, Option.some.injEq,
      Prod.mk.injEq] at hstep
    obtain ⟨c, o, hmain, timer, _, he, rfl⟩ := hstep
    rw [← he]
    exact computes_main hc hmain
  | silence hpc =>
    exact ⟨by simp, by simp, fun _ => computes_between hc (by simp [hpc, Pc.left]) (by simp [hpc])
      rfl rfl rfl, by simp⟩
  | receive m hpc =>
    have hentry := dispatch_entry m
    have hend := hc.ended (by simp [hpc, Pc.left]) (by simp [hpc])
    refine ⟨?_, ?_, fun _ => ?_, ?_⟩
    · rintro (hs | hs) <;> simp_all [Pc.entry]
    · intro hs
      simp_all [Pc.entry]
    · rw [received_snoc, serveAll_append, hend]
      simp [serveAll_cons, serve]
      rfl
    · intro hs
      simp_all [Pc.entry]
  | expire _ | spurious _ =>
    refine ⟨hc.starting, hc.leaving, fun hj => ?_, fun hj => ?_⟩
    · simpa using hc.serving hj
    · simpa using hc.left hj
  | timeout _ => exact absurd (List.mem_singleton.mpr rfl) hno

theorem computes_run (h : Run (step B devId) (boot flash) tr d) (hno : .onTimeout ∉ outputs tr) :
    Computes devId flash tr d := by
  have hC : ∀ x ∈ tr, .onTimeout ∉ x.outs := fun x hx ht => hno (List.mem_flatMap.mpr ⟨x, hx, ht⟩)
  refine h.invariant_where hC ⟨fun _ => rfl, by simp [boot], fun _ => ?_, by simp [boot]⟩ ?_
  · rw [finish_ended rfl]
    rfl
  · intro tr s i s' outs _ hc hstep hno
    exact computes_step hc hno hstep

/-- Without a timeout, a run that reaches the jump computed its messages, ended in DONE
and locked the flash. -/
theorem jump_serves (h : Run (step B devId) (boot flash) tr d) (hno : .onTimeout ∉ outputs tr)
    (hpc : d.pc = .jump) :
    ∃ c, serveAll devId (start flash) (received tr) = some (c, outputs tr) ∧ c.state = .done ∧
      d.flash = (B.flash.cnFlashLock c.flash).2 :=
  (computes_run h hno).left hpc

theorem callTimer_some {pc : Pc} (hpc : pc ≠ .timerStart) (t : B.timer.Timer) :
    ∃ t', callTimer pc t = some t' := by
  unfold callTimer
  split
  · contradiction
  · exact ⟨_, rfl⟩
  · exact ⟨_, rfl⟩

theorem step_main {c c' : Core B} {t : B.timer.Timer} (hpc : c.pc ≠ .timerStart)
    (h : mainStep devId c = some (c', outs)) :
    ∃ t', step B devId ⟨c, t⟩ .main = some (⟨c', t'⟩, outs) := by
  obtain ⟨t', ht⟩ := callTimer_some hpc t
  exact ⟨t', by simp [step, h, ht]⟩

/-- A run of `main` and of arriving messages only. -/
structure Quietly (devId : U8) (d : Dev B) (tr : List (Trans B)) (ms : List Msg)
    (outs : List Event) (d' : Dev B) : Prop where
  run : Run (step B devId) d tr d'
  messages : received tr = ms
  emits : outputs tr = outs
  noIrq : ∀ x ∈ tr, x.input ≠ .irq

theorem Quietly.append {u : Dev B} {tr' : List (Trans B)} {ms ms' : List Msg} {outs' : List Event}
    (h : Quietly devId d tr ms outs u) (h' : Quietly devId u tr' ms' outs' d') :
    Quietly devId d (tr ++ tr') (ms ++ ms') (outs ++ outs') d' where
  run := h.run.append h'.run
  messages := by rw [received, List.filterMap_append, ← h.messages, ← h'.messages]; rfl
  emits := by rw [Mealy.outputs_append, h.emits, h'.emits]
  noIrq x hx := (List.mem_append.mp hx).elim (h.noIrq x) (h'.noIrq x)

theorem Quietly.single (hstep : step B devId d i = some (d', outs)) (hi : i ≠ .irq) :
    Quietly devId d [⟨d, i, outs, d'⟩] i.message.toList outs d' where
  run := Run.single hstep
  messages := by cases hm : i.message <;> simp [received, hm]
  emits := Mealy.outputs_singleton _
  noIrq x hx := by
    rw [List.mem_singleton.mp hx]
    exact hi

theorem run_finish {n : Nat} {c c' : Core B} (h : finish devId n c = some (c', outs)) :
    ∀ t : B.timer.Timer, ∃ tr t', Quietly devId ⟨c, t⟩ tr [] outs ⟨c', t'⟩ := by
  refine finish_induction (P := fun c outs c' =>
    ∀ t : B.timer.Timer, ∃ tr t', Quietly devId ⟨c, t⟩ tr [] outs ⟨c', t'⟩) ?_ ?_ h
  · intro c _ t
    exact ⟨[], t, .nil, rfl, rfl, by simp⟩
  · intro c c₁ c' o o' hl hm ih t
    have hpc : c.pc ≠ .timerStart := by
      intro he
      rw [he] at hl
      cases hl
    obtain ⟨t₁, hstep⟩ := step_main (t := t) hpc hm
    obtain ⟨tr, t', hq⟩ := ih t₁
    exact ⟨_, t', (Quietly.single hstep (by simp)).append hq⟩

theorem finish_loopTest {n : Nat} {c c' : Core B} (h : finish devId n c = some (c', outs)) :
    0 < c.pc.left ∨ c.pc = .loopTest → c'.pc = .loopTest := by
  refine finish_induction (P := fun c _ c' => 0 < c.pc.left ∨ c.pc = .loopTest → c'.pc = .loopTest)
    ?_ ?_ h
  · intro c hl hpc
    exact hpc.resolve_left (by omega)
  · intro c c₁ c' o o' hl hm ih _
    exact ih (move_left (mainStep_move hm) hl).2

/-- Only a PROG_DONE handler comes to DONE. -/
theorem finish_alive {n : Nat} {c c' : Core B} (h : finish devId n c = some (c', outs)) :
    c.state ≠ .done → c.pc.handles ≠ some cnCanMsgProgDone → c'.state ≠ .done := by
  refine finish_induction (P := fun c _ c' =>
    c.state ≠ .done → c.pc.handles ≠ some cnCanMsgProgDone → c'.state ≠ .done) ?_ ?_ h
  · intro c _ hs _
    exact hs
  · intro c c₁ c' o o' _ hm ih hs hk
    have hmove := mainStep_move hm
    refine ih ?_ fun hk' => hk (move_handles hmove hk')
    cases hmove <;> simp_all [Pc.handles]

theorem serve_eq {s s' : Served B} {m : Msg} (h : serve devId s m = some s') :
    ∃ c o, finish devId 5 (s.1.goto (dispatch m)) = some (c, o) ∧
      s' = (c.goto .loopTest, s.2 ++ o) := by
  simp only [serve, Option.map_eq_some_iff, Prod.exists] at h
  obtain ⟨c, o, hf, he⟩ := h
  exact ⟨c, o, hf, he.symm⟩

theorem step_loopOn {c : Core B} (hpc : c.pc = .loopTest) (hs : c.state ≠ .done)
    (t : B.timer.Timer) : step B devId ⟨c, t⟩ .main = some (⟨c.goto .recv, t⟩, []) := by
  obtain ⟨pc, state, page, flash⟩ := c
  simp only at hpc hs
  subst hpc
  simp [step, mainStep, callTimer, hs, Core.goto]

/-- A message served is received and handled by a run, from the loop test to the next. -/
theorem run_serve {s s' : Served B} {m : Msg} (h : serve devId s m = some s')
    (hpc : s.1.pc = .loopTest) (hs : s.1.state ≠ .done) (t : B.timer.Timer) :
    ∃ tr t' o, Quietly devId ⟨s.1, t⟩ tr [m] o ⟨s'.1, t'⟩ ∧ s'.2 = s.2 ++ o ∧
      s'.1.pc = .loopTest := by
  obtain ⟨c, o, hf, rfl⟩ := serve_eq h
  have hrecv : step B devId ⟨s.1, t⟩ .main = _ := step_loopOn hpc hs t
  have hdisp : step B devId ⟨s.1.goto .recv, t⟩ (.recv (some m)) =
      some (⟨s.1.goto (dispatch m), t⟩, []) := rfl
  have hentry : 0 < (dispatch m).left ∨ dispatch m = .loopTest := by
    have he := dispatch_entry m
    generalize dispatch m = pc at *
    cases pc <;> simp_all [Pc.entry, Pc.left]
  have hend : c.goto .loopTest = c := by
    rw [← finish_loopTest hf hentry]
    rfl
  obtain ⟨tr, t', hq⟩ := run_finish hf t
  have hall := ((Quietly.single hrecv (by simp)).append (.single hdisp (by simp))).append hq
  have hsame : (⟨c.goto .loopTest, t'⟩ : Dev B) = ⟨c, t'⟩ := by rw [hend]
  exact ⟨_, t', o, hsame ▸ hall, rfl, rfl⟩

/-- The device is still in its loop before each of the messages. -/
def AliveFor (devId : U8) (s : Served B) (ms : List Msg) : Prop :=
  ∀ l m r, ms = l ++ m :: r → ∀ s', serveAll devId s l = some s' → s'.1.state ≠ .done

theorem serveAll_alive (ms : List Msg) (hk : ∀ m ∈ ms, m.id &&& cnCanMsgidMask ≠ cnCanMsgProgDone) :
    ∀ {s s' : Served B}, serveAll devId s ms = some s' → s.1.state ≠ .done → s'.1.state ≠ .done := by
  induction ms with
  | nil =>
    intro s s' h hs
    cases h
    exact hs
  | cons m ms ih =>
    intro s s' h hs
    rw [serveAll_cons, Option.bind_eq_some_iff] at h
    obtain ⟨s₁, hserve, hrest⟩ := h
    refine ih (fun k hk' => hk k (List.mem_cons_of_mem m hk')) hrest ?_
    obtain ⟨c, o, hf, rfl⟩ := serve_eq hserve
    have hs' : (s.1.goto (dispatch m)).state ≠ .done := hs
    have hend := finish_alive hf hs' fun hd => hk m (List.mem_cons_self ..) (dispatch_handles hd)
    exact hend

/-- Only the last message can be a PROG_DONE. -/
theorem aliveFor_snoc {s : Served B} {front : List Msg} (last : Msg)
    (hk : ∀ m ∈ front, m.id &&& cnCanMsgidMask ≠ cnCanMsgProgDone) (hs : s.1.state ≠ .done) :
    AliveFor devId s (front ++ [last]) := by
  intro l m r hlr s' hserve
  have hsub : ∀ k ∈ l, k ∈ front := by
    intro k hkl
    obtain rfl | ⟨r', u, rfl⟩ := r.eq_nil_or_concat
    · rw [(List.append_inj' hlr rfl).1]
      exact hkl
    · rw [List.concat_eq_append, ← List.cons_append, ← List.append_assoc] at hlr
      rw [(List.append_inj' hlr rfl).1]
      exact List.mem_append_left _ hkl
  exact serveAll_alive l (fun k hkl => hk k (hsub k hkl)) hserve hs

theorem run_serveAll (ms : List Msg) : ∀ {s s' : Served B}, serveAll devId s ms = some s' →
    s.1.pc = .loopTest → AliveFor devId s ms → ∀ t : B.timer.Timer,
    ∃ tr t' o, Quietly devId ⟨s.1, t⟩ tr ms o ⟨s'.1, t'⟩ ∧ s'.2 = s.2 ++ o ∧
      s'.1.pc = .loopTest := by
  induction ms with
  | nil =>
    intro s s' h hpc _ t
    cases h
    exact ⟨[], t, [], ⟨.nil, rfl, rfl, by simp⟩, by simp, hpc⟩
  | cons m ms ih =>
    intro s s' h hpc halive t
    rw [serveAll_cons, Option.bind_eq_some_iff] at h
    obtain ⟨s₁, hserve, hrest⟩ := h
    obtain ⟨tr, t₁, o, hq, ho, hpc₁⟩ := run_serve hserve hpc (halive [] m ms rfl s rfl) t
    have halive₁ : AliveFor devId s₁ ms := by
      rintro l k r rfl s₂ hl
      refine halive (m :: l) k r rfl s₂ ?_
      rw [serveAll_cons, hserve]
      exact hl
    obtain ⟨tr', t', o', hq', ho', hpc'⟩ := ih hrest hpc₁ halive₁ t₁
    exact ⟨_, t', o ++ o', hq.append hq', by rw [ho', ho, List.append_assoc], hpc'⟩

theorem Quietly.no_timeout {ms : List Msg} (h : Quietly devId d tr ms outs d') :
    .onTimeout ∉ outputs tr := by
  intro ht
  obtain ⟨x, hx, htx⟩ := List.mem_flatMap.mp ht
  obtain ⟨_, _, _, _, hstep⟩ := h.run.of_mem hx
  exact h.noIrq x hx (moved_onTimeout (step_moved hstep) htx)

/-- Messages that the device serves from the start are received by a run. -/
theorem run_started {ms : List Msg} {s : Served B} (h : serveAll devId (start flash) ms = some s)
    (halive : AliveFor devId (start flash) ms) :
    ∃ tr t, Quietly devId (boot flash) tr ms s.2 ⟨s.1, t⟩ ∧ s.1.pc = .loopTest := by
  obtain ⟨t₁, hstart, _⟩ := B.oneShot.start_armed
  have hmain₁ : step B devId (boot flash) .main =
      some (⟨⟨.stateIdle, .idle, Page.zero, flash⟩, t₁⟩, []) := by
    simp [step, boot, mainStep, callTimer, hstart]
  have hmain₂ : step B devId ⟨⟨.stateIdle, .idle, Page.zero, flash⟩, t₁⟩ .main =
      some (⟨(start flash).1, t₁⟩, []) := rfl
  obtain ⟨tr, t₂, o, hq, ho, hpc⟩ := run_serveAll ms h rfl halive t₁
  have hall := ((Quietly.single hmain₁ (by simp)).append (.single hmain₂ (by simp))).append hq
  rw [ho]
  exact ⟨_, t₂, hall, hpc⟩

/-- If the device has served them to DONE, the run reaches the jump. -/
theorem run_left {ms : List Msg} {s : Served B} (h : serveAll devId (start flash) ms = some s)
    (hdone : s.1.state = .done) (halive : AliveFor devId (start flash) ms) :
    ∃ tr t, Quietly devId (boot flash) tr ms s.2
      ⟨⟨.jump, s.1.state, s.1.selPage, (B.flash.cnFlashLock s.1.flash).2⟩, t⟩ := by
  obtain ⟨tr, t, hq, hpc⟩ := run_started h halive
  have hmain₁ : step B devId ⟨s.1, t⟩ .main = some (⟨s.1.goto .flashLock, t⟩, []) := by
    obtain ⟨⟨pc, state, page, f⟩, emitted⟩ := s
    simp only at hpc hdone
    subst hpc hdone
    rfl
  have hmain₂ : step B devId ⟨s.1.goto .flashLock, t⟩ .main =
      some (⟨⟨.jump, s.1.state, s.1.selPage, (B.flash.cnFlashLock s.1.flash).2⟩, t⟩, []) := rfl
  have hall := hq.append ((Quietly.single hmain₁ (by simp)).append (.single hmain₂ (by simp)))
  exact ⟨_, t, by simpa using hall⟩

/-- Messages that the device serves to DONE, and not before the last one, are received by
a run without a timeout that reaches the jump. -/
theorem run_session {ms : List Msg} {s : Served B} (h : serveAll devId (start flash) ms = some s)
    (hdone : s.1.state = .done) (halive : AliveFor devId (start flash) ms) :
    ∃ tr d, Run (step B devId) (boot flash) tr d ∧ d.pc = .jump ∧ received tr = ms ∧
      .onTimeout ∉ outputs tr := by
  obtain ⟨tr, t, hq⟩ := run_left h hdone halive
  exact ⟨tr, _, hq.run, rfl, hq.messages, hq.no_timeout⟩

theorem moved_stop (h : Moved devId d i d' outs) (hs : .cnTimerStop ∈ outs) :
    B.oneShot.Quiet d'.timer ∧ d'.pc ≠ .timerStart := by
  cases h with
  | main hm ht =>
    cases hm with
    | progReqStop hpc =>
      rw [hpc] at ht
      cases ht
      exact ⟨B.oneShot.stop_quiet _, by simp⟩
    | selectPage data _ =>
      obtain ⟨bytes, hb⟩ := selectPage_outs hs
      cases hb
    | commitWrites _ _ _ hc =>
      rcases commitWrites_outs hc with rfl | rfl <;> simp [committed, reply] at hs
    | _ => simp [reply, checkWrites] at hs
  | _ => simp at hs

theorem stop_over (h : Run (step B devId) (boot flash) tr d) :
    .cnTimerStop ∈ outputs tr → Over tr d := by
  refine run_invariant (I := fun tr d => .cnTimerStop ∈ outputs tr → Over tr d) h (by simp) ?_
  intro tr s i s' outs _ ih hmoved hs
  rw [Mealy.outputs_append, List.mem_append, Mealy.outputs_singleton] at hs
  cases hs with
  | inl hs => exact ((ih hs).moved hmoved).1
  | inr hs =>
    obtain ⟨hquiet, hpc⟩ := moved_stop hmoved hs
    exact ⟨hquiet, hpc, .inl (by simp [hs])⟩

/-- The timeout does not come before a PROG_REQ stopped the timer. -/
def TimelyProgReq (tr : List (Trans B)) : Prop :=
  ∀ l x r, tr = l ++ x :: r → .onTimeout ∈ x.outs → .cnTimerStop ∈ outputs l

theorem TimelyProgReq.no_timeout (ht : TimelyProgReq tr)
    (h : Run (step B devId) (boot flash) tr d) : .onTimeout ∉ outputs tr := by
  intro hout
  obtain ⟨x, hx, htx⟩ := List.mem_flatMap.mp hout
  obtain ⟨l, r, hlr, hl, hstep⟩ := h.of_mem hx
  have hmoved := step_moved hstep
  have hover := stop_over hl (ht l x r hlr htx)
  exact (hover.moved hmoved).2 (moved_onTimeout hmoved htx)

end CANnuccia.Pump

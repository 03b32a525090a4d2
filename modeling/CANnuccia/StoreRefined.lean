import CANnuccia.Buffer
import CANnuccia.Bus
import CANnuccia.Crc16
import CANnuccia.PageStore
import CANnuccia.Retry

/-!
# Both builds are page stores

Requests and responses are coded as messages. Without a timeout the device responds what
the store does and its flash holds what the store's memory does, as long as the store
promises something.
-/
namespace CANnuccia.Pump

open Util CanMsgs Overlay
open Mealy (Machine Transition Run outputs)
open PageStore (Device Phase Request Response Sized Store respond respondAll respond_react react)

/-- The request that a message is, if any. -/
def request (m : Msg) : Option (Request U8) :=
  let kind := m.id &&& cnCanMsgidMask
  if kind = cnCanMsgProgReq then some .progReq
  else if kind = cnCanMsgUnlock then some .unlock
  else if kind = cnCanMsgSelectPage then
    if m.data.length = 4 then some (.selectPage (cnReadU32LE m.data).toNat) else none
  else if kind = cnCanMsgSeek then
    if m.data.length = 4 then some (.seek (cnReadU32LE m.data).toNat) else none
  else if kind = cnCanMsgWrite then some (.write m.data)
  else if kind = cnCanMsgCheckWrites then some .checkWrites
  else if kind = cnCanMsgCommitWrites then some .commitWrites
  else if kind = cnCanMsgProgDone then some .progDone
  else none

variable {t : Target} {devId : U8}

/-- The message that a response is. -/
def response (t : Target) (devId : U8) : Response U16 → Event
  | .stats => reply devId cnCanMsgProgReqResp (progReqStats t.backend)
  | .unlocked => reply devId cnCanMsgUnlocked []
  | .pageSelected p => reply devId cnCanMsgPageSelected (cnWriteU32LE (BitVec.ofNat 32 p))
  | .writesChecked sum => reply devId cnCanMsgWritesChecked (cnWriteU16LE sum)
  | .writesCommitted p => reply devId cnCanMsgWritesCommitted (cnWriteU32LE (BitVec.ofNat 32 p))
  | .progDone => reply devId cnCanMsgProgDoneAck []

/-- The store that a build is. A page is promised to hold what is committed if it lies in
the application region and is not the one at zero. -/
def storeDevice (t : Target) (opens : Bool) : Device U8 U16 where
  pageSize := t.pageSize
  pageOf a := if t.accepts (t.maskedAddr a) then some (t.maskedAddr a) else none
  programmable p := decide (0 < p ∧ t.appStart ≤ p ∧ p + t.pageSize ≤ t.appEnd)
  opens := opens
  checksum := Crc.crc xmodem

/-- What a handler is for. -/
def Pc.request : Pc → Option (Request U8)
  | .progReqTest => some .progReq
  | .unlockTest => some .unlock
  | .selectPage data =>
    if data.length = 4 then some (.selectPage (cnReadU32LE data).toNat) else none
  | .seek data => if data.length = 4 then some (.seek (cnReadU32LE data).toNat) else none
  | .write data => some (.write data)
  | .checkWrites => some .checkWrites
  | .commitTest => some .commitWrites
  | .progDone => some .progDone
  | _ => none

theorem request_dispatch (m : Msg) : request m = (dispatch m).request := by
  unfold request dispatch
  dsimp only
  split_ifs <;> simp_all [Pc.request]

def phaseOf : State → Phase
  | .idle => .idle
  | .locked => .locked
  | .unlocked => .unlocked
  | .done => .ended

structure Implements (opens : Bool) (c : Core t.backend) (s : Store U8) : Prop where
  phase : s.phase = phaseOf c.state
  page : s.page = none ∧ c.selPage.addr.toNat = 0 ∨ s.page = some c.selPage.addr.toNat
  offset : s.offset = c.selPage.writeOffset.toNat
  buffer : s.buffer = c.selPage.writes.toList
  mem : s.mem = t.backend.flash.contents c.flash
  opens : c.state = .idle ∨ c.state = .locked → (t.backend.flash.cnFlashUnlock c.flash).1 = opens

theorem checksum_eq (p : Page t.backend) :
    t.backend.cnCRC16 p.writes.toList = Crc.crc xmodem p.writes.toList := by
  cases t with
  | stm32 => exact stm32CnCRC16_crc _
  | avr => exact avrCnCRC16_crc _

theorem selectPage_masked (data : List U8) (hlen : data.length = 4) (page : Page t.backend) :
    selectPage devId data page =
      if t.accepts (t.maskedAddr (cnReadU32LE data).toNat) then
        ({ page with addr := BitVec.ofNat t.backend.w (t.maskedAddr (cnReadU32LE data).toNat) },
          [reply devId cnCanMsgPageSelected
            (cnWriteU32LE (BitVec.ofNat 32 (t.maskedAddr (cnReadU32LE data).toNat)))])
      else (page, []) := by
  have heq := selectPage_eq t devId (cnReadU32LE data) page
  simp only [selectPage, cnWriteU32LE_length, cnReadU32LE_cnWriteU32LE, ↓reduceIte] at heq
  simp only [selectPage, hlen, ↓reduceIte]
  exact heq

variable {opens : Bool} {c c' : Core t.backend} {s s' : Store U8} {outs : List Event}

theorem selectPage_short {B : Backend} {data : List U8} (h : data.length ≠ 4) (page : Page B) :
    selectPage devId data page = (page, []) := by
  simp [selectPage, h]

theorem seek_short {B : Backend} {data : List U8} (h : data.length ≠ 4) (page : Page B) :
    seek data page = page := by
  simp [seek, h]

/-- What is not a request changes nothing and is not answered. -/
theorem Implements.ignore (hi : Implements opens c s) {pc : Pc} (h : Handler devId c pc c' outs)
    (hr : pc.request = none) : Implements opens c' s ∧ replies outs = [] := by
  cases h with
  | selectPage data =>
    have hshort : data.length ≠ 4 := by
      intro hlen
      simp [Pc.request, hlen] at hr
    rw [selectPage_short hshort]
    exact ⟨hi, rfl⟩
  | seek data =>
    have hshort : data.length ≠ 4 := by
      intro hlen
      simp [Pc.request, hlen] at hr
    rw [seek_short hshort]
    exact ⟨hi, rfl⟩
  | unknown => exact ⟨hi, rfl⟩
  | _ => cases hr

theorem masked_wide (t : Target) (a : U32) :
    (BitVec.ofNat t.backend.w (t.maskedAddr a.toNat)).toNat = t.maskedAddr a.toNat := by
  rw [← masked_addr, BitVec.ofNat_toNat, BitVec.setWidth_eq]

/-- A commit of a page that is promised to hold it. -/
theorem commit_promised {p : Page t.backend} {f : t.backend.flash.Flash}
    (hl : t.backend.flash.locked f = false) (halign : p.addr.toNat % t.pageSize = 0)
    (hp : 0 < p.addr.toNat ∧ t.appStart ≤ p.addr.toNat ∧ p.addr.toNat + t.pageSize ≤ t.appEnd)
    {f' : t.backend.flash.Flash} (h : commitWrites devId p f = some (f', outs)) :
    t.backend.flash.contents f' =
        overlay (t.backend.flash.contents f) p.addr.toNat p.writes.toList ∧
      outs = [committed devId p] := by
  have hne : p.addr ≠ 0 := by
    intro hzero
    rw [hzero] at hp
    exact absurd hp.1 (by simp)
  cases t with
  | stm32 =>
    have hlock : Stm32Flash.Flash.lock f = .unlocked := by
      simpa [Target.backend, stm32, Stm32Flash.driver] using hl
    cases (stm32_commit hlock hne halign).symm.trans h
    exact ⟨rfl, rfl⟩
  | avr =>
    have hend : p.addr.toNat + 128 ≤ 0x7000 := hp.2.2
    have hflash : p.addr.toNat < 0x8000 := by omega
    cases (avr_commit hl hne halign).symm.trans h
    have hbase : AvrFlash.pageBase p.addr = p.addr.toNat := AvrFlash.pageBase_eq halign hflash
    refine ⟨?_, rfl⟩
    show overlay _ (AvrFlash.pageBase p.addr) _ = _
    rw [hbase]
    rfl

/-- What is a request does to the device what it does to the store, and is answered with
its responses. -/
theorem Implements.serve (hi : Implements opens c s) (hset : Settled c)
    (hsized : Sized (storeDevice t opens) s) {pc : Pc} (h : Handler devId c pc c' outs)
    {r : Request U8} (hr : pc.request = some r) {o : List (Response U16)}
    (hs : respond (storeDevice t opens) s r = some (s', o)) :
    Implements opens c' s' ∧ replies outs = o.map (response t devId) := by
  have hreact := respond_react hs
  have hphase := hi.phase
  have hgoes : c.state ≠ .done := by
    intro hd
    rw [respond, if_pos (by rw [hphase, hd]; rfl)] at hs
    cases hs
  cases h with
  | progReqFirst hidle =>
    cases hr
    cases hreact
    rw [hidle] at hphase
    exact ⟨{ hi with
      phase := by simp [hphase, phaseOf]
      opens := fun _ => hi.opens (.inl hidle) }, rfl⟩
  | progReqAgain hidle =>
    cases hr
    cases hreact
    have hnot : s.phase ≠ .idle := by
      rw [hphase]
      cases hstate : c.state <;> simp_all [phaseOf]
    exact ⟨{ hi with phase := (if_neg hnot).trans hphase }, rfl⟩
  | unlockIdle hidle =>
    cases hr
    rw [hidle] at hphase
    rw [react, PageStore.unlock_idle hphase] at hreact
    cases hreact
    exact ⟨hi, rfl⟩
  | unlockTrue hlocked hu =>
    cases hr
    rw [hlocked] at hphase
    have hopens : (storeDevice t opens).opens = true := (hi.opens (.inr hlocked)).symm.trans hu
    rw [react, PageStore.unlock_locked hphase, if_pos hopens] at hreact
    cases hreact
    have hmem := t.backend.lockRespected.unlock_contents c.flash
    exact ⟨{ hi with
      phase := rfl
      mem := hi.mem.trans hmem.symm
      opens := fun hs => by rcases hs with hs | hs <;> cases hs }, rfl⟩
  | unlockFalse hlocked hu =>
    cases hr
    rw [hlocked] at hphase
    have hcloses : opens = false := (hi.opens (.inr hlocked)).symm.trans hu
    rw [react, PageStore.unlock_locked hphase, if_neg (by simp [storeDevice, hcloses])] at hreact
    cases hreact
    have hmem := t.backend.lockRespected.unlock_contents c.flash
    have hagain := unlock_refused_again hu
    exact ⟨{ hi with
      mem := hi.mem.trans hmem.symm
      opens := fun _ => by rw [hagain, hcloses] }, rfl⟩
  | unlockAgain hstate =>
    cases hr
    have hunlocked : c.state = .unlocked := hstate.resolve_right hgoes
    rw [hunlocked] at hphase
    rw [react, PageStore.unlock_unlocked hphase] at hreact
    cases hreact
    exact ⟨{ hi with
      phase := hphase
      opens := fun hs => by rcases hs with hs | hs <;> cases hs }, rfl⟩
  | selectPage data =>
    by_cases hlen : data.length = 4
    · rw [Pc.request, if_pos hlen] at hr
      cases hr
      have hreact := Prod.ext_iff.mp (Option.some.inj hreact)
      obtain ⟨rfl, rfl⟩ := hreact
      rw [selectPage_masked data hlen]
      by_cases hacc : t.accepts (t.maskedAddr (cnReadU32LE data).toNat)
      · have hstore : PageStore.selectPage (storeDevice t opens) (cnReadU32LE data).toNat s =
            ({ s with page := some (t.maskedAddr (cnReadU32LE data).toNat) },
              [.pageSelected (t.maskedAddr (cnReadU32LE data).toNat)]) := by
          simp [PageStore.selectPage, storeDevice, hacc]
        rw [hstore, if_pos hacc]
        exact ⟨{ hi with page := .inr (congrArg some (masked_wide t _).symm) }, rfl⟩
      · have hstore : PageStore.selectPage (storeDevice t opens) (cnReadU32LE data).toNat s =
            (s, []) := by
          simp [PageStore.selectPage, storeDevice, hacc]
        rw [hstore, if_neg hacc]
        exact ⟨hi, rfl⟩
    · rw [Pc.request, if_neg hlen] at hr
      cases hr
  | seek data =>
    by_cases hlen : data.length = 4
    · rw [Pc.request, if_pos hlen] at hr
      cases hr
      cases hreact
      have hwrites := seek_writes data c.selPage
      refine ⟨{ hi with
        page := by rw [seek_addr]; exact hi.page
        offset := ?_
        buffer := by rw [hwrites]; exact hi.buffer }, rfl⟩
      by_cases hlt : (cnReadU32LE data).toNat < t.pageSize
      · rw [seek_inside ⟨hlen, hlt⟩]
        exact if_pos hlt
      · rw [seek_outside fun hs => hlt hs.2, ← hi.offset]
        exact if_neg hlt
    · rw [Pc.request, if_neg hlen] at hr
      cases hr
  | write data =>
    cases hr
    cases hreact
    have hspec := write_spec data c.selPage (by
      have hhead := hsized.offset
      rw [hi.offset] at hhead
      exact hhead)
    exact ⟨{ hi with
      page := by rw [write_addr]; exact hi.page
      offset := by rw [hspec.2, hi.offset]; rfl
      buffer := by rw [hspec.1, hi.offset, hi.buffer] }, rfl⟩
  | checkWrites =>
    cases hr
    cases hreact
    refine ⟨hi, ?_⟩
    rw [checkWrites, checksum_eq, ← hi.buffer]
    rfl
  | commitRefuse hlocked =>
    cases hr
    have hnot : s.phase ≠ .unlocked := by
      rw [hphase]
      cases hstate : c.state <;> simp_all [phaseOf]
    rw [react, PageStore.commitWrites_refused hnot] at hreact
    cases hreact
    exact ⟨hi, rfl⟩
  | commit f outs hunlocked hc =>
    cases hr
    rw [hunlocked] at hphase
    obtain ⟨p, hpage, hprog, rfl, rfl⟩ := PageStore.commitWrites_some hphase hreact
    have haddr : p = c.selPage.addr.toNat := by
      rcases hi.page with ⟨hnone, _⟩ | hsome
      · cases hnone.symm.trans hpage
      · exact (Option.some.inj (hsome.symm.trans hpage)).symm
    subst haddr
    obtain ⟨hmem, rfl⟩ := commit_promised (hset.unlocked hunlocked) hset.aligned
      (of_decide_eq_true hprog) hc
    refine ⟨{ hi with
      mem := by rw [hmem, hi.mem, hi.buffer]
      opens := fun hs => by rcases hs with hs | hs <;> cases hunlocked.symm.trans hs }, ?_⟩
    simp only [List.map_singleton, response, BitVec.ofNat_toNat]
    rfl
  | progDone =>
    cases hr
    cases hreact
    exact ⟨{ hi with
      phase := rfl
      opens := fun hs => by rcases hs with hs | hs <;> cases hs }, rfl⟩
  | unknown => cases hr

theorem implements_start (flash : ResetFlash t.backend) :
    Implements (t.backend.flash.cnFlashUnlock flash.1).1 (start flash).1
      (Store.start (storeDevice t (t.backend.flash.cnFlashUnlock flash.1).1) 0
        (t.backend.flash.contents flash.1)) where
  phase := rfl
  page := .inl ⟨rfl, rfl⟩
  offset := rfl
  buffer := Vector.toList_replicate.symm
  mem := rfl
  opens _ := rfl

/-- The messages of a session are served as the requests among them are responded to. -/
theorem serveAll_implements (ms : List Msg) : ∀ {q q' : Served t.backend} {s s' : Store U8}
    {o : List (Response U16)}, Settled q.1 → AliveFor devId q ms → Implements opens q.1 s →
    Sized (storeDevice t opens) s → serveAll devId q ms = some q' →
    respondAll (storeDevice t opens) s (ms.filterMap request) = some (s', o) →
    Implements opens q'.1 s' ∧ replies q'.2 = replies q.2 ++ o.map (response t devId) := by
  induction ms with
  | nil =>
    intro q q' s s' o _ _ hi _ h hs
    cases h
    cases hs
    exact ⟨hi, by simp⟩
  | cons m ms ih =>
    intro q q' s s' o hset halive hi hsized h hs
    obtain ⟨hgoes, halive⟩ := aliveFor_cons.mp halive
    rw [serveAll_cons, Option.bind_eq_some_iff] at h
    obtain ⟨q₁, hserve, hrest⟩ := h
    obtain ⟨c, outs, hh, rfl⟩ := serve_handler hset.pc hserve
    have hset₁ := hset.handler hgoes hh
    cases hr : request m with
    | none =>
      rw [List.filterMap_cons_none hr] at hs
      obtain ⟨hi₁, houts⟩ := hi.ignore hh ((request_dispatch m).symm.trans hr)
      obtain ⟨hi', hreplies⟩ := ih hset₁ (halive _ hserve) hi₁ hsized hrest hs
      exact ⟨hi', by simpa [houts] using hreplies⟩
    | some r =>
      rw [List.filterMap_cons_some hr] at hs
      obtain ⟨s₁, o₁, o₂, hfirst, hlast, ho⟩ := PageStore.respondAll_cons.mp hs
      simp only at ho
      subst ho
      obtain ⟨hi₁, houts⟩ := hi.serve hset hsized hh ((request_dispatch m).symm.trans hr) hfirst
      have hsized₁ := PageStore.respond_sized hsized hfirst
      obtain ⟨hi', hreplies⟩ := ih hset₁ (halive _ hserve) hi₁ hsized₁ hrest hlast
      exact ⟨hi', by simpa [houts] using hreplies⟩

/-- What the store promises for the requests of a session. -/
def promised (t : Target) (flash : ResetFlash t.backend) (rs : List (Request U8)) :
    Option (Store U8 × List (Response U16)) :=
  respondAll (storeDevice t (t.backend.flash.cnFlashUnlock flash.1).1)
    (Store.start (storeDevice t (t.backend.flash.cnFlashUnlock flash.1).1) 0
      (t.backend.flash.contents flash.1)) rs

variable {flash : ResetFlash t.backend} {ms : List Msg} {out : List Event} {d : Dev t.backend}
variable {o : List (Response U16)}

theorem serving_implements (h : Serving devId flash ms out d)
    (hs : promised t flash (ms.filterMap request) = some (s, o)) :
    out = o.map (response t devId) ∧ t.backend.flash.contents d.flash = s.mem ∧
      s.phase = phaseOf d.state := by
  obtain ⟨c, a, hserve, hout, hleft, halive⟩ := h.left
  obtain ⟨hi, hreplies⟩ := serveAll_implements ms (settled_start flash) halive
    (implements_start flash) (PageStore.sized_start _ _) hserve hs
  refine ⟨?_, ?_, by rw [hleft.state]; exact hi.phase⟩
  · rw [← hout, hreplies]
    rfl
  · rw [hi.mem]
    by_cases hj : d.pc = .jump
    · rw [(hleft.outside hj).2, t.backend.lockRespected.lock_contents]
    · rw [hleft.inside hj]

/-- A device that is given requests as long as something is promised serves them all. -/
theorem serveAll_promised (devId : U8) (ms : List Msg) : ∀ {q : Served t.backend} {s s' : Store U8}
    {o : List (Response U16)}, Settled q.1 → Implements opens q.1 s →
    Sized (storeDevice t opens) s → (∀ m ∈ ms, (request m).isSome = true) →
    respondAll (storeDevice t opens) s (ms.filterMap request) = some (s', o) →
    AliveFor devId q ms ∧ ∃ q', serveAll devId q ms = some q' := by
  induction ms with
  | nil =>
    intro q s s' o _ _ _ _ _
    exact ⟨aliveFor_nil q, q, rfl⟩
  | cons m ms ih =>
    intro q s s' o hset hi hsized hall hs
    obtain ⟨r, hr⟩ := Option.isSome_iff_exists.mp (hall m List.mem_cons_self)
    rw [List.filterMap_cons_some hr] at hs
    obtain ⟨s₁, o₁, o₂, hfirst, hlast, _⟩ := PageStore.respondAll_cons.mp hs
    have hgoes : q.1.state ≠ .done := by
      intro hd
      rw [respond, if_pos (by rw [hi.phase, hd]; rfl)] at hfirst
      cases hfirst
    have hserves : ∃ c outs, Handler devId q.1 (dispatch m) c outs := hset.serves m
    obtain ⟨c, outs, hh⟩ := hserves
    have hserve := hh.serve (s := q) hset.pc
    have hset₁ := hset.handler hgoes hh
    have hi₁ := (hi.serve hset hsized hh ((request_dispatch m).symm.trans hr) hfirst).1
    obtain ⟨halive, q', hrest⟩ := ih (q := (c, q.2 ++ outs)) hset₁ hi₁
      (PageStore.respond_sized hsized hfirst) (fun m hm => hall m (List.mem_cons_of_mem _ hm)) hlast
    refine ⟨aliveFor_cons.mpr ⟨hgoes, fun s' hs' => ?_⟩, q', serveAll_step hserve hrest⟩
    rw [hserve, Option.some.injEq] at hs'
    rw [← hs']
    exact halive

theorem serving_promised (hall : ∀ m ∈ ms, (request m).isSome = true)
    (hs : promised t flash (ms.filterMap request) = some (s, o)) :
    ∃ d, Serving devId flash ms (o.map (response t devId)) d ∧
      (s.phase = .ended → d.pc = .jump) := by
  obtain ⟨halive, q', hserve⟩ := serveAll_promised devId ms (settled_start flash)
    (implements_start flash) (PageStore.sized_start _ _) hall hs
  obtain ⟨hi, hreplies⟩ := serveAll_implements ms (settled_start flash) halive
    (implements_start flash) (PageStore.sized_start _ _) hserve hs
  have hout : replies q'.2 = o.map (response t devId) := hreplies
  by_cases hdone : q'.1.state = .done
  · obtain ⟨d, hd, hpc⟩ := serving_left hserve hdone halive
    exact ⟨d, hout ▸ hd, fun _ => hpc⟩
  · obtain ⟨d, hd, _⟩ := serving_started hserve halive
    refine ⟨d, hout ▸ hd, fun hended => ?_⟩
    rw [hi.phase] at hended
    cases hstate : q'.1.state <;> simp_all [phaseOf]

/-- Both builds are page stores: whatever messages a run without a timeout has received,
as long as the store promises something for the requests among them, the device has
replied the store's responses, and its flash is the flash before with the buffer of the
time laid over each page that was replied to be committed. Every such list of requests is
served by a run. -/
theorem store_refined (t : Target) (devId : U8) (flash : ResetFlash t.backend) (ms : List Msg)
    {s : Store U8} {o : List (Response U16)}
    (hs : promised t flash (ms.filterMap request) = some (s, o)) :
    (∀ out d, Serving devId flash ms out d → out = o.map (response t devId) ∧
      t.backend.flash.contents d.flash = s.mem ∧ s.phase = phaseOf d.state) ∧
    (∃ ws : List (Nat × List U8), ws.map Prod.fst = PageStore.committed o ∧
      (∀ w ∈ ws, 0 < w.1 ∧ t.appStart ≤ w.1 ∧ w.1 + t.pageSize ≤ t.appEnd ∧
        w.2.length = t.pageSize) ∧
      s.mem = overlays (t.backend.flash.contents flash.1) ws) ∧
    ((∀ m ∈ ms, (request m).isSome = true) →
      ∃ d, Serving devId flash ms (o.map (response t devId)) d ∧
        (s.phase = .ended → d.pc = .jump)) := by
  refine ⟨fun out d h => serving_implements h hs, ?_, fun hall => serving_promised hall hs⟩
  obtain ⟨ws, hpages, hws, hmem⟩ := PageStore.respondAll_writes (PageStore.sized_start _ _) hs
  refine ⟨ws, hpages, fun w hw => ?_, hmem⟩
  obtain ⟨hprog, hlen⟩ := hws w hw
  obtain ⟨hpos, hstart, hend⟩ := of_decide_eq_true hprog
  exact ⟨hpos, hstart, hend, hlen⟩

/-- One page on AVR. -/
def storeMessages : List Msg :=
  [command cnCanMsgProgReq 42#8, command cnCanMsgUnlock 42#8,
    commandAt cnCanMsgSelectPage 42#8 0x0081#32,
    frame (cnCANDevMask cnCanMsgWrite 42#8) [1, 2, 3], command cnCanMsgCommitWrites 42#8,
    command cnCanMsgProgDone 42#8]

theorem store_refined_session : ∃ d, Serving 42#8 avrFresh storeMessages
      ([.stats, .unlocked, .pageSelected 0x80, .writesCommitted 0x80, .progDone].map
        (response .avr 42#8)) d ∧ d.pc = .jump ∧
    (List.range 4).map (fun i => avr.flash.contents d.flash (0x80 + i)) = [1, 2, 3, 0] := by
  obtain ⟨hserved, _, hserves⟩ := store_refined .avr 42#8 avrFresh storeMessages rfl
  obtain ⟨d, hd, hpc⟩ := hserves (by decide)
  obtain ⟨_, hmem, _⟩ := hserved _ d hd
  refine ⟨d, hd, hpc rfl, ?_⟩
  rw [show avr.flash.contents d.flash = _ from hmem]
  decide +kernel

end CANnuccia.Pump

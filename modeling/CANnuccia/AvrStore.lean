import CANnuccia.Commit

/-!
# The AVR device as a page store

Seen from the bus the device is a store of pages: every WRITES_COMMITTED reply
stands for one page write, and nothing else changes the flash. This needs the
addresses given to SELECT_PAGE to lie in flash.
-/
namespace CANnuccia.Pump

open Util CanMsgs Overlay
open Mealy (Machine Transition Run outputs Happened Before)

variable {devId : U8} {flash : ResetFlash avr} {tr : List (Trans avr)} {d d' : Dev avr} {i : Input}
variable {outs : List Event}

/-- The page write that a WRITES_COMMITTED reply reports: the page it names and the
buffer at that moment. -/
def commitOf (devId : U8) (x : Trans avr) : Option (Nat × List U8) :=
  match x.outs with
  | [.send id data] =>
    if id = cnCANDevMask cnCanMsgWritesCommitted devId then
      some ((cnReadU32LE data).toNat, x.pre.selPage.writes.toList)
    else none
  | _ => none

def commits (devId : U8) (tr : List (Trans avr)) : List (Nat × List U8) :=
  tr.filterMap (commitOf devId)

/-- No SELECT_PAGE is given an address outside the flash. -/
def SelectInFlash (x : Trans avr) : Prop :=
  ∀ m ∈ x.input.message, m.id &&& cnCanMsgidMask = cnCanMsgSelectPage →
    m.data.length = 4 → (cnReadU32LE m.data).toNat < AvrFlash.flashSize.toNat

instance (x : Trans avr) : Decidable (SelectInFlash x) :=
  inferInstanceAs (Decidable (∀ _ ∈ _, _ → _ → _))

theorem commitOf_committed {x : Trans avr} (h : x.outs = [committed devId x.pre.selPage]) :
    commitOf devId x = some (x.pre.selPage.addr.toNat, x.pre.selPage.writes.toList) := by
  have hlt : x.pre.selPage.addr.toNat < 2 ^ 16 := x.pre.selPage.addr.isLt
  have hwide : (x.pre.selPage.addr.setWidth 32).toNat = x.pre.selPage.addr.toNat := by
    rw [BitVec.toNat_setWidth, Nat.mod_eq_of_lt (by omega)]
  simp only [commitOf, h, committed, reply, ↓reduceIte, cnReadU32LE_cnWriteU32LE, hwide]

/-- Only a COMMIT_WRITES step reports a page write. -/
theorem commitOf_eq_none (h : Moved devId d i d' outs) (hpc : ¬ (d.pc = .commitWrites ∧ i = .main)) :
    commitOf devId ⟨d, i, outs, d'⟩ = none := by
  unfold commitOf
  split
  · rename_i id data houts
    split
    · rename_i hid
      have hr : reply devId cnCanMsgWritesCommitted data ∈ outs := by
        rw [show outs = _ from houts, hid]
        exact List.mem_singleton.mpr rfl
      obtain ⟨hi, hsends⟩ := moved_reply h (by decide) hr
      exact absurd ⟨sends_place hsends rfl (by simp), hi⟩ hpc
    · rfl
  · rfl

theorem avr_selectPage_lt {data : List U8} {p : Page avr} (hp : p.addr.toNat < 0x8000)
    (hdata : data.length = 4 → (cnReadU32LE data).toNat < 0x8000) :
    (selectPage devId data p).1.addr.toNat < 0x8000 := by
  unfold selectPage
  dsimp only
  split_ifs with hlen hwrite
  · have hm := masked_addr .avr (cnReadU32LE data)
    have ha := hdata hlen
    refine lt_of_eq_of_lt hm ?_
    simp only [Target.maskedAddr]
    omega
  · exact hp
  · exact hp

structure Stored (devId : U8) (flash : ResetFlash avr) (tr : List (Trans avr)) (d : Dev avr) :
    Prop where
  inFlash : d.selPage.addr.toNat < 0x8000
  pending : ∀ data, d.pc = .selectPage data → data.length = 4 → (cnReadU32LE data).toNat < 0x8000
  pages : ∀ c ∈ commits devId tr, c.1 % 128 = 0 ∧ c.2.length = 128
  contents : avr.flash.contents d.flash =
    overlays (avr.flash.contents flash.1) (commits devId tr)

theorem inFlash_moved (hp : d.selPage.addr.toNat < 0x8000)
    (hpend : ∀ data, d.pc = .selectPage data → data.length = 4 → (cnReadU32LE data).toNat < 0x8000)
    (h : Moved devId d i d' outs) : d'.selPage.addr.toNat < 0x8000 := by
  cases h with
  | main hm _ =>
    cases hm with
    | selectPage data hpc => exact avr_selectPage_lt hp (hpend data hpc)
    | seek data _ => exact (congrArg BitVec.toNat (seek_addr data d.selPage)).trans_lt hp
    | write data _ => exact (congrArg BitVec.toNat (write_addr data d.selPage)).trans_lt hp
    | _ => exact hp
  | _ => exact hp

theorem pending_moved
    (hpend : ∀ data, d.pc = .selectPage data → data.length = 4 → (cnReadU32LE data).toNat < 0x8000)
    (hC : SelectInFlash ⟨d, i, outs, d'⟩) (h : Moved devId d i d' outs) :
    ∀ data, d'.pc = .selectPage data → data.length = 4 → (cnReadU32LE data).toNat < 0x8000 := by
  intro data hpc
  cases h with
  | main hm _ => cases hm <;> cases hpc
  | silence _ => cases hpc
  | receive m _ =>
    obtain ⟨hkind, rfl⟩ := dispatch_selectPage hpc
    exact hC m rfl hkind
  | expire _ | timeout _ | spurious _ => exact hpend data hpc

/-- A commit either writes its page and reports it, or does neither. -/
theorem avr_commit_cases {p : Page avr} {f f' : AvrFlash.Flash} (halign : p.addr.toNat % 128 = 0)
    (hp : p.addr.toNat < 0x8000) (h : commitWrites devId p f = some (f', outs)) :
    (outs = [] ∧ f'.mem = f.mem) ∨
      (outs = [committed devId p] ∧ f'.mem = overlay f.mem p.addr.toNat p.writes.toList) := by
  by_cases hr : p.addr = 0 ∨ f.flashLocked = true
  · obtain ⟨houts, hmem, _⟩ := avr_commit_refused hr h
    exact .inl ⟨houts, hmem⟩
  · rw [not_or, Bool.not_eq_true] at hr
    cases (avr_commit hr.2 hr.1 halign).symm.trans h
    exact .inr ⟨rfl,
      congrArg (fun base => overlay f.mem base p.writes.toList) (AvrFlash.pageBase_eq halign hp)⟩

/-- The contents after a step, from the page write it reports if any. -/
theorem contents_step (halign : d.selPage.addr.toNat % 128 = 0)
    (hp : d.selPage.addr.toNat < 0x8000) (h : Moved devId d i d' outs) :
    (commitOf devId ⟨d, i, outs, d'⟩ = none ∧
      avr.flash.contents d'.flash = avr.flash.contents d.flash) ∨
    (commitOf devId ⟨d, i, outs, d'⟩ = some (d.selPage.addr.toNat, d.selPage.writes.toList) ∧
      avr.flash.contents d'.flash =
        overlay (avr.flash.contents d.flash) d.selPage.addr.toNat d.selPage.writes.toList) := by
  by_cases hpc : d.pc = .commitWrites ∧ i = .main
  · obtain ⟨hpc, rfl⟩ := hpc
    rcases avr_commit_cases halign hp (moved_commitWrites h hpc) with ⟨rfl, hmem⟩ | ⟨rfl, hmem⟩
    · exact .inl ⟨rfl, hmem⟩
    · exact .inr ⟨commitOf_committed rfl, hmem⟩
  · refine .inl ⟨commitOf_eq_none h hpc, ?_⟩
    by_contra hchange
    obtain ⟨hpc', hi, _⟩ := contents_moved h hchange
    exact hpc ⟨hpc', hi⟩

theorem stored_step (halign : d.selPage.addr.toNat % 128 = 0) (hs : Stored devId flash tr d)
    (hC : SelectInFlash ⟨d, i, outs, d'⟩)
    (h : Moved devId d i d' outs) : Stored devId flash (tr ++ [⟨d, i, outs, d'⟩]) d' := by
  obtain ⟨hflash, hpend, hpages, hcontents⟩ := hs
  have hfilter : commits devId (tr ++ [⟨d, i, outs, d'⟩]) =
      commits devId tr ++ (commitOf devId ⟨d, i, outs, d'⟩).toList := by
    rw [commits, List.filterMap_append, ← commits, List.filterMap_cons]
    cases commitOf devId ⟨d, i, outs, d'⟩ <;> rfl
  have hnext := contents_step halign hflash h
  refine ⟨inFlash_moved hflash hpend h, pending_moved hpend hC h, ?_, ?_⟩
  · intro c hc
    rw [hfilter, List.mem_append] at hc
    cases hc with
    | inl hc => exact hpages c hc
    | inr hc =>
      rcases hnext with ⟨hnone, _⟩ | ⟨hsome, _⟩
      · rw [hnone] at hc
        cases hc
      · rw [hsome, Option.toList_some, List.mem_singleton] at hc
        rw [hc]
        exact ⟨halign, Vector.length_toList⟩
  · rw [hfilter, overlays_append, ← hcontents]
    rcases hnext with ⟨hnone, hsame⟩ | ⟨hsome, hwritten⟩
    · rw [hnone, hsame]
      rfl
    · rw [hsome, hwritten]
      rfl

theorem stored_run (h : Run (step avr devId) (boot flash) tr d) (hC : ∀ x ∈ tr, SelectInFlash x) :
    Stored devId flash tr d := by
  refine run_invariant_where h hC ⟨by simp [boot, Page.zero], ?_, ?_, rfl⟩ ?_
  · intro data hpc
    cases hpc
  · intro c hc
    cases hc
  · intro tr s i s' outs hrun hs hm hCx
    exact stored_step (selected_run (t := .avr) hrun).aligned hs hCx hm

/-- The flash is the first flash with the reported pages written over it in order; no
other byte changes, and a COMMIT_WRITES without a reply changes none. -/
theorem avr_store (devId : U8) (flash : ResetFlash avr) {tr : List (Trans avr)} {d : Dev avr}
    (h : Run (step avr devId) (boot flash) tr d) (hC : ∀ x ∈ tr, SelectInFlash x) :
    avr.flash.contents d.flash = overlays (avr.flash.contents flash.1) (commits devId tr) ∧
    (∀ c ∈ commits devId tr, c.1 % 128 = 0 ∧ c.2.length = 128) ∧
    (∀ a, (∀ c ∈ commits devId tr, ¬ (c.1 ≤ a ∧ a < c.1 + 128)) →
      avr.flash.contents d.flash a = avr.flash.contents flash.1 a) ∧
    (∀ x ∈ tr, x.pre.pc = .commitWrites → x.input = .main → x.outs = [] →
      avr.flash.contents x.post.flash = avr.flash.contents x.pre.flash) := by
  have hs := stored_run h hC
  refine ⟨hs.contents, hs.pages, ?_, ?_⟩
  · intro a ha
    rw [hs.contents]
    apply overlays_outside
    intro c hc
    rw [(hs.pages c hc).2]
    exact ha c hc
  · intro x hx hpc hi houts
    obtain ⟨l, r, rfl, hl, hstep⟩ := h.of_mem hx
    have hsl := stored_run hl fun y hy => hC y (List.mem_append_left _ hy)
    rw [hi] at hstep
    rcases avr_commit_cases (selected_run (t := .avr) hl).aligned hsl.inFlash
      (moved_commitWrites (step_moved hstep) hpc) with ⟨_, hmem⟩ | ⟨hreply, _⟩
    · exact hmem
    · rw [houts] at hreply
      cases hreply

theorem avr_store_session :
    ∃ tr d, Run (step avr 42#8) (boot avrFresh) tr d ∧
      (commits 42#8 tr).map Prod.fst = [0x0080] ∧
      avr.flash.contents d.flash = overlays (avr.flash.contents avrFresh.1) (commits 42#8 tr) := by
  obtain ⟨tr, d, hrun, hp⟩ := Mealy.run_of_exec_any (M := step avr 42#8) (s := boot avrFresh)
    (p := fun r => decide ((∀ x ∈ r.1, SelectInFlash x) ∧
      (commits 42#8 r.1).map Prod.fst = [0x0080]))
    (commitSession ++ [.main]) (by decide +kernel)
  obtain ⟨hC, hpages⟩ := of_decide_eq_true hp
  exact ⟨tr, d, hrun, hpages, (avr_store 42#8 avrFresh hrun hC).1⟩

end CANnuccia.Pump

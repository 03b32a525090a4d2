import CANnuccia.NodeSession
import CANnuccia.StoreRefined

/-!
# An STM32 device on the bus is a page store

The frames it stores are requests, and the frames it sends the responses to them.
-/
namespace CANnuccia.Stm32Node

open Util CanMsgs BxCan
open Pump (Dev Event ResetFlash frame replies request response promised Serving)
open Observed (Output handled emitted)
open Mealy (Machine Transition Run outputs)
open PageStore (Response Store)

variable {devId : U8} {flash : ResetFlash stm32} {filter : Nat → U32 × U32} {ports : Port → U32}
variable {inMsgData : Nat → U8} {tr : List Trans} {s : Node} {st : Store U8}
variable {o : List (Response U16)}

theorem answerFrames_replies (outs : List Event) :
    answerFrames (replies outs) = answerFrames outs := by
  rw [answerFrames, answerFrames, replies, List.filterMap_filter]
  refine congrArg _ (List.filterMap_congr fun e _ => ?_)
  cases e <;> rfl

/-- A device that overran no frame and did not time out before a PROG_REQ waits for the
next frame, or has left for the program. If the store promises something for the requests
among the frames, the device has replied the responses and its flash holds what the store
does; if no call of `cnCANSend` failed, the responses are pending or were transmitted, each
as often as it was responded. -/
theorem frames_stored (h : Run (step devId) (boot devId flash filter ports inMsgData) tr s)
    (hover : overruns tr = 0) (htimely : TimelyProgReq tr) (hidle : s.running = .idle)
    (hleft : s.dev.pc.left = 0) (hempty : s.can.fifo.items = [])
    (hs : promised .stm32 flash (((stored tr).map messageOf).filterMap request) = some (st, o)) :
    replies (emitted tr) = o.map (response .stm32 devId) ∧
    stm32.flash.contents s.dev.flash = st.mem ∧ st.phase = Pump.phaseOf s.dev.state ∧
    ((∀ id data r, .sent id data r ∈ outputs tr → 0 ≤ r) →
      (answerFrames (o.map (response .stm32 devId))).Perm
        ((transmitted tr ++ pending s.can).map fun m => messageOf (Stm32Can.onBus m))) := by
  have hI := traffics_run h
  obtain ⟨tr', hrun, hhandled, houtputs⟩ := runs_pump h
  obtain ⟨left, hreceived, haccounts⟩ := hI.received
  rw [hover] at haccounts
  have hall : left = stored tr := by
    have hcomplete := haccounts.complete
    rwa [hempty, List.append_nil] at hcomplete
  have hserving : Serving devId flash ((stored tr).map messageOf) (replies (emitted tr)) s.dev := by
    refine ⟨tr', hrun, ?_, ?_, by rw [houtputs], hleft⟩
    · rw [houtputs]
      exact htimely.no_timeout h
    · rw [hhandled, ← hreceived, hall]
  obtain ⟨hreplies, hmem, hphase⟩ := Pump.serving_implements (t := .stm32) hserving hs
  refine ⟨hreplies, hmem, hphase, fun hsent => ?_⟩
  have hperm := hI.kept.map fun m => messageOf (Stm32Can.onBus m)
  rw [← answered_placed hI, answered_all hidle hI.calls hsent, ← answerFrames_replies,
    hreplies] at hperm
  exact hperm

/-- A page is selected, written in part, committed and selected again. -/
def storeMessages : List Msg :=
  [command cnCanMsgProgReq 42, command cnCanMsgUnlock 42,
    commandAt cnCanMsgSelectPage 42 0x08001234#32, commandAt cnCanMsgSeek 42 0#32,
    frame (cnCANDevMask cnCanMsgWrite 42) [1, 2, 3], command cnCanMsgCommitWrites 42,
    commandAt cnCanMsgSelectPage 42 0x08001000#32]

theorem frames_stored_page : ∃ (tr : List Trans) (s : Node), Run (step 42) nodeStart tr s ∧
    (stored tr).map messageOf = storeMessages ∧
    replies (emitted tr) = [.stats, .unlocked, .pageSelected 0x08001000,
      .writesCommitted 0x08001000, .pageSelected 0x08001000].map (response .stm32 42) ∧
    stm32.flash.contents s.dev.flash 0x08001001 = 2 := by
  obtain ⟨st, o, hs, ho, hbyte⟩ : ∃ st o,
      promised .stm32 Pump.stm32Fresh (storeMessages.filterMap request) = some (st, o) ∧
        o = [.stats, .unlocked, .pageSelected 0x08001000, .writesCommitted 0x08001000,
          .pageSelected 0x08001000] ∧ st.mem 0x08001001 = 2 := ⟨_, _, rfl, rfl, by decide +kernel⟩
  have hserved : ∃ d, Serving 42 Pump.stm32Fresh storeMessages (o.map (response .stm32 42)) d ∧ _ :=
    Pump.serving_promised (t := .stm32) (by decide) hs
  obtain ⟨d, ⟨ptr, hrun, hno, hms, hout, hleft⟩, _⟩ := hserved
  obtain ⟨tr, s, hstart, houts, hrest, hdev, _⟩ := started
  have hrun' : Run (Pump.step stm32 42) s.dev ptr d := by
    rw [hdev]
    exact hrun
  have hpass : ∀ m ∈ storeMessages, Pump.accepts 42 m = true := by decide
  obtain ⟨tr', s', hreplays, hrest', rfl⟩ := replay_run hrest hrun' fun m hm => hpass m (hms ▸ hm)
  have hbegun : Replays 42 nodeStart [] [] tr s :=
    .of_outputs hstart houts rfl (by simp) rfl (by simp)
  have hreplayed := hbegun.append hreplays
  have hframes : (stored (tr ++ tr')).map messageOf = storeMessages := hreplayed.stored.trans hms
  have htimely : TimelyProgReq (tr ++ tr') := by
    rintro l x r hlr hx
    refine absurd ?_ hno
    rw [← List.nil_append (outputs ptr), ← hreplayed.emitted, mem_emitted, hlr]
    exact List.mem_flatMap.mpr ⟨x, by simp, hx⟩
  obtain ⟨hreplies, hmem, _⟩ := frames_stored hreplayed.run hreplayed.overruns htimely hrest'.idle
    hleft hrest'.fifo (by rw [hframes]; exact hs)
  exact ⟨_, s', hreplayed.run, hframes, by rw [hreplies, ho], by rw [hmem, hbyte]⟩

end CANnuccia.Stm32Node

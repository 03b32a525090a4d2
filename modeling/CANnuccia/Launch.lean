import CANnuccia.NodeSession

/-!
# The program that is started

At its end `main` jumps to the program through the vector table behind the bootloader
(stm32/flash.c). The pages that come with a session decide what that is.
-/
namespace CANnuccia.Stm32Node

open Util CanMsgs
open Stm32Flash (flashStart cnFlashBootloaderSize)
open Pump (ResetFlash session Programmed Job)
open Observed (Output handled emitted)
open Mealy (Run)

/-- What the core starts a program with. -/
structure Core where
  msp : U32
  vtor : U32
  pc : U32
  deriving DecidableEq, Repr

/-- A word of the flash. -/
def loadWord (mem : Nat → U8) (a : Nat) : U32 :=
  cnReadU32LE ((List.range 4).map fun i => mem (a + i))

/-- The stack pointer and the reset handler are the first two entries of the table. -/
def cnJumpToProgram (mem : Nat → U8) : Core :=
  let vtAddr := flashStart + cnFlashBootloaderSize
  { msp := loadWord mem vtAddr.toNat
    vtor := vtAddr
    pc := loadWord mem (vtAddr.toNat + 4) }

/-- A program whose first page begins with these bytes. -/
def coreOf (bytes : List U8) : Core where
  msp := cnReadU32LE bytes
  vtor := flashStart + cnFlashBootloaderSize
  pc := cnReadU32LE (bytes.drop 4)

variable {devId : U8} {flash : ResetFlash stm32} {filter : Nat → U32 × U32}
variable {ports : BxCan.Port → U32} {inMsgData : Nat → U8} {tr : List Trans} {s : Node}

theorem loadWord_bytes {mem : Nat → U8} {a : Nat} {bytes : List U8}
    (h : ∀ i < 4, mem (a + i) = bytes.getD i 0) : loadWord mem a = cnReadU32LE bytes := by
  have hfirst : mem a = bytes.getD 0 0 := h 0 (by omega)
  simp [loadWord, cnReadU32LE, List.range_succ, h, hfirst]

/-- The two words are all that matters. -/
theorem jump_congr {mem mem' : Nat → U8}
    (h : ∀ i < 8, mem (0x08001000 + i) = mem' (0x08001000 + i)) :
    cnJumpToProgram mem = cnJumpToProgram mem' := by
  have hword : ∀ a ≤ 4, loadWord mem (0x08001000 + a) = loadWord mem' (0x08001000 + a) := by
    intro a ha
    refine congrArg cnReadU32LE (List.map_congr_left fun i hi => ?_)
    have hi : i < 4 := List.mem_range.mp hi
    rw [Nat.add_assoc]
    exact h (a + i) (by omega)
  have hmsp : loadWord mem 0x08001000 = loadWord mem' 0x08001000 := hword 0 (by omega)
  have hpc : loadWord mem (0x08001000 + 4) = loadWord mem' (0x08001000 + 4) := hword 4 le_rfl
  have hstart : (flashStart + cnFlashBootloaderSize).toNat = 0x08001000 := by decide
  simp only [cnJumpToProgram, hstart, hmsp, hpc]

theorem jump_bytes {mem : Nat → U8} {bytes : List U8}
    (h : ∀ i < 8, mem (0x08001000 + i) = bytes.getD i 0) : cnJumpToProgram mem = coreOf bytes := by
  have hmsp : loadWord mem 0x08001000 = cnReadU32LE bytes :=
    loadWord_bytes fun i hi => h i (by omega)
  have hpc : loadWord mem (0x08001000 + 4) = cnReadU32LE (bytes.drop 4) := by
    refine loadWord_bytes fun i hi => ?_
    rw [Nat.add_assoc, h (4 + i) (by omega), List.getD_eq_getElem?_getD, List.getD_eq_getElem?_getD,
      List.getElem?_drop]
  have hstart : (flashStart + cnFlashBootloaderSize).toNat = 0x08001000 := by decide
  simp only [cnJumpToProgram, coreOf, hstart, hmsp, hpc]

/-- From the bus to the first instruction: a device that stored the frames of a session,
overran none and did not time out before PROG_REQ starts the program whose first page came
last in the session, or if the session leaves that page alone, the one it had. -/
theorem frames_started (hlock : flash.1.lock = .locked) (jobs : List Job)
    (h : Run (step devId) (boot devId flash filter ports inMsgData) tr s)
    (hframes : (stored tr).map messageOf = session devId jobs) (hover : overruns tr = 0)
    (htimely : TimelyProgReq tr) (hpc : s.dev.pc = .jump) :
    (∀ l j r, jobs = l ++ j :: r → j.page = flashStart + cnFlashBootloaderSize →
      (∀ k ∈ r, k.page ≠ j.page) →
      cnJumpToProgram (stm32.flash.contents s.dev.flash) = coreOf j.data) ∧
    ((∀ j ∈ jobs, j.page ≠ flashStart + cnFlashBootloaderSize) →
      cnJumpToProgram (stm32.flash.contents s.dev.flash) =
        cnJumpToProgram (stm32.flash.contents flash.1)) := by
  obtain ⟨_, tr', hrun, hmessages, _, hno⟩ :=
    session_handled jobs h hframes hover htimely hpc
  obtain ⟨_, hprogrammed, _⟩ := session_jump hlock jobs hrun hpc hno hmessages
  have hstart : (flashStart + cnFlashBootloaderSize).toNat = 0x08001000 := by decide
  constructor
  · intro l j r hjobs hpage hlast
    refine jump_bytes fun i hi => ?_
    have hlen : j.data.length = 1024 := j.whole
    have hlisted := hprogrammed.listed l j r hjobs hlast i (by omega)
    rw [hpage, hstart] at hlisted
    rw [hlisted, List.getD_eq_getElem _ _ (by omega)]
  · intro hnone
    refine jump_congr fun i hi => ?_
    refine hprogrammed.other _ fun j hj hin => hnone j hj ?_
    have halign := j.aligned
    exact BitVec.eq_of_toNat_eq (by omega)

theorem frames_started_uniform : ∃ (tr : List Trans) (s : Node), Run (step 42) nodeStart tr s ∧
    (stored tr).map messageOf = session 42 [Pump.uniformJob 0xA5] ∧
    cnJumpToProgram (stm32.flash.contents s.dev.flash) =
      ⟨0xA5A5A5A5#32, 0x08001000#32, 0xA5A5A5A5#32⟩ := by
  obtain ⟨tr, s, hrun, hframes, hover, htimely, hpc, _⟩ := uniform_run
  obtain ⟨hlaunch, _⟩ := frames_started rfl [Pump.uniformJob 0xA5] hrun hframes hover htimely hpc
  refine ⟨tr, s, hrun, hframes, ?_⟩
  rw [hlaunch [] (Pump.uniformJob 0xA5) [] rfl rfl (by simp)]
  decide +kernel

end CANnuccia.Stm32Node

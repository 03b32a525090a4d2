import CANnuccia.BxCanInit
import CANnuccia.Clocks
import CANnuccia.McpSetup

/-!
# The rate of the bus

Both builds write constants to the bit timing registers of their controllers. The one of
the STM32 is for a clock of 72 MHz (stm32/can.c), but the controller is driven by the first
peripheral bus, which `enableHSE` leaves at half of that.
-/
namespace CANnuccia.BitTiming

open Util
open Mealy (Run)

/-- A bit has some quanta before its sample and some after it, each of some cycles. -/
structure Timing where
  cycles : Nat
  before : Nat
  after : Nat
  deriving DecidableEq, Repr

/-- Bits per second. -/
def Timing.rate (mhz : Nat) (t : Timing) : Nat :=
  mhz * 1000000 / (t.cycles * (t.before + t.after))

/-- BRP, TS1 and TS2 of BTR. -/
def bxTiming (btr : U32) : Timing where
  cycles := (btr &&& 0x3FF#32).toNat + 1
  before := 1 + ((btr >>> 16 &&& 0xF#32).toNat + 1)
  after := (btr >>> 20 &&& 0x7#32).toNat + 1

/-- BRP of CNF1, PRSEG, PHSEG1 and BTLMODE of CNF2, and PHSEG2 of CNF3. -/
def mcpTiming (settings : U8 → U8) : Timing :=
  let cnf1 := settings AvrCan.mcpRegCnf1
  let cnf2 := settings AvrCan.mcpRegCnf2
  let cnf3 := settings AvrCan.mcpRegCnf3
  let phseg1 := (cnf2 >>> 3 &&& 0x7#8).toNat + 1
  { cycles := 2 * ((cnf1 &&& 0x3F#8).toNat + 1)
    before := 1 + ((cnf2 &&& 0x7#8).toNat + 1) + phseg1
    after := if cnf2.getLsbD 7 then (cnf3 &&& 0x7#8).toNat + 1 else max phseg1 2 }

/-- CN_CAN_RATE of the STM32 build. -/
def cnCanRate : Nat := 1000000

/-- F_CPU, which drives the controller as well. -/
def avrMhz : Nat := 16

variable {trk : List (Mealy.Transition Clocks.Session Clocks.Step Empty)} {k : Clocks.Session}
  {trb : List (Mealy.Transition BxCan.Session BxCan.Step BxCan.Outcome)} {b : BxCan.Session}
  {trm : List McpSetup.Trans} {a : McpSetup.Session}
  {filter : Nat → U32 × U32} {ports : BxCan.Port → U32} {reset : U8 → U8} {m : McpSetup.Chip}

theorem bx_timing (h : Run BxCan.step ⟨false, none, BxCan.resetController filter ports⟩ trb b)
    (hrest : b.running = none) (hcalled : BxCan.last trb ≠ none) :
    bxTiming b.can.setup.btr = ⟨9, 7, 1⟩ := by
  obtain ⟨c, hc⟩ := Option.ne_none_iff_exists'.mp hcalled
  rw [((BxCan.inits_run filter ports h).rest hrest).1, hc]
  exact (by decide : bxTiming 0x00050008#32 = ⟨9, 7, 1⟩)

theorem mcp_timing (h : Run (McpSetup.step reset) ⟨false, none, m⟩ trm a)
    (hrest : a.running = none) (hcalled : McpSetup.began trm ≠ none) :
    mcpTiming a.chip.settings = ⟨2, 6, 2⟩ := by
  obtain ⟨⟨c, s₀⟩, hc⟩ := Option.ne_none_iff_exists'.mp hcalled
  obtain ⟨_, _, hleft⟩ := ((McpSetup.inits_run m h).rest hrest).2 c s₀ hc
  have hcnf1 : a.chip.settings AvrCan.mcpRegCnf1 = 0x00#8 := hleft.others _ (by decide)
  have hcnf2 : a.chip.settings AvrCan.mcpRegCnf2 = 0x91#8 := hleft.others _ (by decide)
  have hcnf3 : a.chip.settings AvrCan.mcpRegCnf3 = 0x01#8 := hleft.others _ (by decide)
  rw [mcpTiming, hcnf1, hcnf2, hcnf3]
  decide

/-- Whatever the clocks and the controllers do meanwhile and however often `cnCANInit` is
called: a bit on AVR is as long as CN_CAN_RATE says and sampled after three quarters of it,
one on STM32 is twice as long and sampled after seven eighths of it. -/
theorem bit_rates
    (hk : Run Clocks.step ⟨Clocks.enableHSE, Clocks.resetTree⟩ trk k)
    (hreturned : k.driver.returned = some ())
    (hb : Run BxCan.step ⟨false, none, BxCan.resetController filter ports⟩ trb b)
    (hbrest : b.running = none) (hbcalled : BxCan.last trb ≠ none)
    (ha : Run (McpSetup.step reset) ⟨false, none, m⟩ trm a)
    (harest : a.running = none) (hacalled : McpSetup.began trm ≠ none) :
    (mcpTiming a.chip.settings).rate avrMhz = cnCanRate ∧
    2 * (bxTiming b.can.setup.btr).rate (k.tree.pclk1 k.tree.sysclk) = cnCanRate ∧
    mcpTiming a.chip.settings = ⟨2, 6, 2⟩ ∧ bxTiming b.can.setup.btr = ⟨9, 7, 1⟩ := by
  have hmcp := mcp_timing ha harest hacalled
  have hbx := bx_timing hb hbrest hbcalled
  obtain ⟨hnot, _⟩ | ⟨_, hfast⟩ := Clocks.enabling_run hk
  · rw [hreturned] at hnot
    cases hnot
  · have hpclk : k.tree.pclk1 k.tree.sysclk = 36 := by
      rw [hfast.sysclk]
      exact (Clocks.pll_freqs hfast.regs).2.2.1
    refine ⟨?_, ?_, hmcp, hbx⟩
    · rw [hmcp]
      rfl
    · rw [hbx, hpclk]
      rfl

/-- After one call on STM32 and two on AVR, one of them torn. -/
theorem bit_rates_started : ∃ k b a,
    (∃ tr, Run Clocks.step ⟨Clocks.enableHSE, Clocks.resetTree⟩ tr k) ∧
    (∃ tr, Run BxCan.step BxCan.twiceStart tr b) ∧
    (∃ tr, Run (McpSetup.step fun _ => 0) McpSetup.powered tr a) ∧
    2 * (bxTiming b.can.setup.btr).rate (k.tree.pclk1 k.tree.sysclk) =
      (mcpTiming a.chip.settings).rate avrMhz := by
  obtain ⟨trk, k, hk, hpk⟩ := Mealy.run_of_exec_any (M := Clocks.step)
    (s := ⟨Clocks.enableHSE, Clocks.resetTree⟩)
    (p := fun r => decide (r.2.driver.returned = some ())) Clocks.enableInputs (by decide +kernel)
  obtain ⟨trb, b, hb, hpb⟩ := Mealy.run_of_exec_any (M := BxCan.step) (s := BxCan.twiceStart)
    (p := fun r => r.2.running.isNone && (BxCan.last r.1).isSome) BxCan.twiceInputs
    (by decide +kernel)
  obtain ⟨tra, a, ha, hpa⟩ := Mealy.run_of_exec_any (M := McpSetup.step fun _ => 0)
    (s := McpSetup.powered) (p := fun r => r.2.running.isNone && (McpSetup.began r.1).isSome)
    McpSetup.tornInputs (by decide +kernel)
  rw [Bool.and_eq_true, Option.isNone_iff_eq_none, ← Option.ne_none_iff_isSome] at hpb hpa
  obtain ⟨havr, hstm32, _⟩ :=
    bit_rates hk (of_decide_eq_true hpk) hb hpb.1 hpb.2 ha hpa.1 hpa.2
  exact ⟨k, b, a, ⟨trk, hk⟩, ⟨trb, hb⟩, ⟨tra, ha⟩, hstm32.trans havr.symm⟩

end CANnuccia.BitTiming

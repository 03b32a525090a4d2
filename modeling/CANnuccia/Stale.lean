import CANnuccia.Backend
import CANnuccia.Stm32Preempt
import CANnuccia.AvrPreempt

/-!
# Timeouts of the past

A stop masks the interrupt and leaves the flag of an expiry standing, and a start does not
clear it: the next start then finds an expiry that is not its own.
-/
namespace CANnuccia.Stale

open Mealy Preempt

variable {F : Type}

def device (F : Type) : Target → Device (TimerCall F) F
  | .stm32 => Stm32Timer.device F
  | .avr => AvrTimer.device F

def reset : (target : Target) → (device F target).Reg
  | .stm32 => Stm32Timer.reset
  | .avr => AvrTimer.reset

/-- No expiry of an earlier count is left that could still interrupt. -/
def NothingLeft : (target : Target) → (device F target).Reg → Prop
  | .stm32 => Stm32Timer.NothingLeft
  | .avr => AvrTimer.NothingLeft

instance : (target : Target) → DecidablePred (NothingLeft (F := F) target)
  | .stm32 => Stm32Timer.nothingLeftDecidable
  | .avr => AvrTimer.nothingLeftDecidable

def outline (F : Type) : (target : Target) →
    Outline (device F target) (reset target) (NothingLeft target)
  | .stm32 => Stm32Timer.outline F
  | .avr => AvrTimer.outline F

/-- The runs of the driver from a timer just reset. -/
abbrev Ran (F : Type) (target : Target) :=
  Run (machine (device F target)) (idle (reset target))

/-- If no start installs its function while an earlier expiry is left, each function that is
run is caused by an expiry of its own count. -/
theorem runs_caused (target : Target)
    (tr : List (Transition (State (device F target)) (Input (TimerCall F)) (Event F)))
    (s : State (device F target)) (hrun : Ran F target tr s)
    (hleft : ∀ t ∈ tr, InstallsIn (NothingLeft target) t) : RunsCaused (outputs tr) :=
  ((outline F target).run hrun hleft).caused

/-- A start of one microsecond. -/
def startOf (f : F) : Input (TimerCall F) := .call (.start 1#32 false (some f))

/-- A start, an expiry and its interrupt. -/
def timeout : List (Input (TimerCall Unit)) :=
  startOf () :: List.replicate 13 .access ++ [.expire, .dispatch, .access, .access]

theorem runs_caused_timeout : ∃ tr s, Ran Unit .stm32 tr s ∧
    outputs tr = [.install (), .count, .expiry, .dispatch, .run ()] ∧ RunsCaused (outputs tr) := by
  obtain ⟨tr, s, hrun, h⟩ := run_of_exec_any
    (M := machine (device Unit .stm32)) (s := idle (reset .stm32))
    (p := fun r => decide (outputs r.1 = [.install (), .count, .expiry, .dispatch, .run ()] ∧
      ∀ t ∈ r.1, InstallsIn (NothingLeft .stm32) t)) timeout (by decide)
  obtain ⟨houts, hleft⟩ := of_decide_eq_true h
  exact ⟨tr, s, hrun, houts, runs_caused .stm32 tr s hrun hleft⟩

/-- An expiry that waits when the timer is stopped, another start, and the interrupt. The
numbers of accesses are those of a start, of a stop and of the handler. -/
def stale (start stop handler : Nat) : List (Input (TimerCall Bool)) :=
  startOf false :: List.replicate start .access ++ [.expire, .call .stop] ++
    List.replicate stop .access ++ [startOf true] ++ List.replicate start .access ++ [.dispatch] ++
    List.replicate handler .access

/-- What happens then: the second function is run before its count expired. -/
def staleEvents : List (Event Bool) :=
  [.install false, .count, .expiry, .mask, .install true, .count, .dispatch, .run true]

theorem staleEvents_uncaused : ¬ RunsCaused staleEvents := by
  intro h
  have hcaused := h [.install false, .count, .expiry, .mask, .install true, .count, .dispatch]
    true [] rfl
  cases caused_iff.mpr hcaused

theorem stale_ran {target : Target} (is : List (Input (TimerCall Bool)))
    (h : (exec (machine (device Bool target)) (idle (reset target)) is).any
      (fun r => decide (outputs r.1 = staleEvents)) = true) :
    ∃ tr s, Ran Bool target tr s ∧ ¬ RunsCaused (outputs tr) := by
  obtain ⟨tr, s, hrun, houts⟩ := run_of_exec_any is h
  refine ⟨tr, s, hrun, ?_⟩
  rw [of_decide_eq_true houts]
  exact staleEvents_uncaused

theorem runs_stale : (∃ tr s, Ran Bool .stm32 tr s ∧ ¬ RunsCaused (outputs tr)) ∧
    ∃ tr s, Ran Bool .avr tr s ∧ ¬ RunsCaused (outputs tr) :=
  ⟨stale_ran (stale 13 4 2) (by decide), stale_ran (stale 6 5 1) (by decide)⟩

end CANnuccia.Stale

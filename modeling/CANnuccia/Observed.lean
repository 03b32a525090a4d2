import CANnuccia.Sequential

/-!
# What is seen of a device

`main` with the calls of its CAN driver cut somewhere. A device does what the pump does
if it is seen to: the messages it is given and the events it emits, in one order.
-/
namespace CANnuccia.Observed

open Util CanMsgs
open Pump (Dev Event received received_snoc)
open Mealy (Machine Transition Run Simulation outputs seen)

/-- What a device emits, where `cnCANSend` returns `R` and its CAN controller does `E`. -/
inductive Output (R E : Type) where
  | event (e : Event)
  /-- `cnCANRecv` has returned. -/
  | received (m : Option Msg)
  /-- `cnCANSend` has returned. -/
  | sent (id : U32) (data : List U8) (r : R)
  | traffic (e : E)
  deriving DecidableEq

variable {B : Backend} {devId : U8} {σ ι R E : Type}

def Output.seen : Output R E → Option (Msg ⊕ Event)
  | .event e => some (.inr e)
  | .received m => m.map .inl
  | _ => none

/-- The messages that the pump is given. -/
def Output.handled : Output R E → Option Msg
  | .received m => m
  | _ => none

def Output.emitted : Output R E → Option Event
  | .event e => some e
  | _ => none

def see (x : Transition σ ι (Output R E)) : List (Msg ⊕ Event) := x.outs.filterMap Output.seen

def seePump (x : Pump.Trans B) : List (Msg ⊕ Event) :=
  x.input.message.toList.map .inl ++ x.outs.map .inr

def handled (tr : List (Transition σ ι (Output R E))) : List Msg :=
  (outputs tr).filterMap Output.handled

def emitted (tr : List (Transition σ ι (Output R E))) : List Event :=
  (outputs tr).filterMap Output.emitted

theorem lefts (ms : List Msg) : (ms.map (Sum.inl : Msg → Msg ⊕ Event)).filterMap Sum.getLeft? = ms ∧
    (ms.map (Sum.inl : Msg → Msg ⊕ Event)).filterMap Sum.getRight? = [] := by
  induction ms <;> simp_all

theorem rights (outs : List Event) :
    (outs.map (Sum.inr : Event → Msg ⊕ Event)).filterMap Sum.getRight? = outs ∧
      (outs.map (Sum.inr : Event → Msg ⊕ Event)).filterMap Sum.getLeft? = [] := by
  induction outs <;> simp_all

theorem seen_pump (tr : List (Pump.Trans B)) :
    (seen seePump tr).filterMap Sum.getLeft? = received tr ∧
      (seen seePump tr).filterMap Sum.getRight? = outputs tr := by
  induction tr using List.reverseRecOn with
  | nil => exact ⟨rfl, rfl⟩
  | append_singleton tr x ih =>
    rw [Mealy.seen_append, Mealy.seen_singleton, List.filterMap_append, List.filterMap_append, ih.1,
      ih.2, received_snoc, Mealy.outputs_append, Mealy.outputs_singleton, seePump,
      List.filterMap_append, List.filterMap_append, (lefts _).1, (lefts _).2, (rights _).1,
      (rights _).2, List.append_nil, List.nil_append]
    exact ⟨rfl, rfl⟩

theorem seen_device (tr : List (Transition σ ι (Output R E))) :
    (seen see tr).filterMap Sum.getLeft? = handled tr ∧
      (seen see tr).filterMap Sum.getRight? = emitted tr := by
  have hseen : seen see tr = (outputs tr).filterMap Output.seen := by
    rw [outputs, List.filterMap_flatMap]
    rfl
  rw [hseen, List.filterMap_filterMap, List.filterMap_filterMap, handled, emitted]
  constructor
  · refine List.filterMap_congr fun o _ => ?_
    cases o with
    | received m => cases m <;> rfl
    | _ => rfl
  · refine List.filterMap_congr fun o _ => ?_
    cases o with
    | received m => cases m <;> rfl
    | _ => rfl

theorem see_events (outs : List Event) :
    (outs.map (Output.event : Event → Output R E)).filterMap Output.seen = outs.map .inr := by
  induction outs with
  | nil => rfl
  | cons e outs ih => exact congrArg (Sum.inr e :: ·) ih

/-- A step in which the device does nothing, or what the pump does in one. -/
inductive Shows (devId : U8) (d : Dev B) : Dev B → List (Output R E) → Prop where
  | quiet {outs : List (Output R E)} : (∀ o ∈ outs, o.seen = none) → Shows devId d d outs
  | goes {d' : Dev B} {i : Pump.Input} {outs : List Event} : i.message = none →
      Pump.step B devId d i = some (d', outs) → Shows devId d d' (outs.map .event)
  | hears {d' : Dev B} {m : Option Msg} {outs : List Event} :
      Pump.step B devId d (.recv m) = some (d', outs) →
      Shows devId d d' (.received m :: outs.map .event)

theorem Shows.pump {d d' : Dev B} {outs : List (Output R E)} (h : Shows devId d d' outs) :
    ∃ tr, Run (Pump.step B devId) d tr d' ∧ seen seePump tr = outs.filterMap Output.seen := by
  cases h with
  | quiet hquiet => exact ⟨[], .nil, (List.filterMap_eq_nil_iff.mpr hquiet).symm⟩
  | goes hi hstep =>
    refine ⟨_, Run.single hstep, ?_⟩
    rw [Mealy.seen_singleton, see_events, seePump, hi]
    rfl
  | @hears _ m outs hstep =>
    refine ⟨_, Run.single hstep, ?_⟩
    rw [Mealy.seen_singleton]
    cases m with
    | none => exact (see_events outs).symm
    | some m => exact congrArg (Sum.inl m :: ·) (see_events outs).symm

/-- Where every step of a machine shows the pump, every run is one of the pump that is
given the same messages and emits the same. -/
theorem shows_run {M : Machine σ ι (Output R E)} {dev : σ → Dev B}
    (hM : ∀ {s i s' outs}, M s i = some (s', outs) → Shows devId (dev s) (dev s') outs) {s₀ s : σ}
    {tr : List (Transition σ ι (Output R E))} (h : Run M s₀ tr s) :
    ∃ tr', Run (Pump.step B devId) (dev s₀) tr' (dev s) ∧ received tr' = handled tr ∧
      outputs tr' = emitted tr := by
  have sim : Simulation M (Pump.step B devId) (fun _ => True) dev see seePump :=
    ⟨fun _ hstep => ⟨trivial, (hM hstep).pump⟩⟩
  obtain ⟨_, tr', hrun, hsame⟩ := sim.run h trivial
  refine ⟨tr', hrun, ?_, ?_⟩
  · rw [← (seen_pump tr').1, hsame, (seen_device tr).1]
  · rw [← (seen_pump tr').2, hsame, (seen_device tr).2]

end CANnuccia.Observed

import CANnuccia.AvrInit
import CANnuccia.CanMsgs
import CANnuccia.Mealy
import CANnuccia.SpiMoves

/-!
# Setting up the MCP25625

The bit timing and the filters can only be written in configuration mode, which the
controller enters some time after it is asked to. `mcpChangeMode` reads back what it has
asked for, so that the filter is written whether the controller has entered the mode or not.
-/
namespace CANnuccia.McpSetup

open Util CanMsgs
open AvrCan (cnCANInit mcpChangeMode mcpCmdReset mcpModeConfig mcpModeNormal mcpModemask mcpModify
  mcpPutEID mcpRead mcpRegCanctrl mcpReset mcpSetFilter0 mcpSetup mcpWrite mcpWriteMulti writeRegs)
open Mealy (Machine Transition Run outputs)
open Spi (Meets Slave)
open Mmio (Stable)

/-- What the controller takes the next byte for. -/
inductive Phase where
  | deselected
  | instruction
  | readFrom
  | reading (addr : U8)
  | writeTo
  | writing (addr : U8)
  | modifyAt
  | modifying (addr : U8)
  | masked (addr mask : U8)
  | ended

def Phase.next (byte : U8) : Phase → Phase
  | .deselected => .deselected
  | .instruction =>
    if byte = 0x03#8 then .readFrom
    else if byte = 0x02#8 then .writeTo
    else if byte = 0x05#8 then .modifyAt
    else .ended
  | .readFrom => .reading byte
  | .reading addr => .reading (addr + 1)
  | .writeTo => .writing byte
  | .writing addr => .writing (addr + 1)
  | .modifyAt => .modifying byte
  | .modifying addr => .masked addr byte
  | .masked _ _ => .ended
  | .ended => .ended

structure Chip where
  /-- The registers that can only be written in configuration mode. -/
  settings : U8 → U8
  /-- The other ones, but for CANCTRL and CANSTAT. -/
  others : U8 → U8
  canctrl : U8
  /-- The mode it is in, as CANSTAT shows it. -/
  mode : U8
  /-- How many writes have done nothing, as they came in another mode. -/
  lost : Nat
  phase : Phase

/-- RXF0 to RXF5, TXRTSCTRL, RXM0 and RXM1, CNF1 to CNF3. -/
def configOnly (addr : U8) : Bool :=
  decide (addr.toNat < 0x0C ∨ addr.toNat = 0x0D ∨ (0x10 ≤ addr.toNat ∧ addr.toNat < 0x1C) ∨
    (0x20 ≤ addr.toNat ∧ addr.toNat < 0x2B))

/-- CANCTRL is at every address that ends in F, CANSTAT at those that end in E. -/
def Chip.read (addr : U8) (m : Chip) : U8 :=
  if configOnly addr then m.settings addr
  else if addr &&& 0x0F#8 = 0x0F#8 then m.canctrl
  else if addr &&& 0x0F#8 = 0x0E#8 then m.mode
  else m.others addr

def Chip.write (addr v : U8) (m : Chip) : Chip :=
  if configOnly addr then
    if m.mode = mcpModeConfig then { m with settings := Function.update m.settings addr v }
    else { m with lost := m.lost + 1 }
  else if addr &&& 0x0F#8 = 0x0F#8 then { m with canctrl := v }
  else if addr &&& 0x0F#8 = 0x0E#8 then m
  else { m with others := Function.update m.others addr v }

/-- What a byte does; `reset` is what a reset leaves in the settings. -/
def Chip.effect (reset : U8 → U8) (byte : U8) (m : Chip) : Phase → Chip
  | .instruction =>
    if byte = 0xC0#8 then { m with settings := reset, canctrl := 0x87#8, mode := mcpModeConfig }
    else m
  | .writing addr => m.write addr byte
  | .masked addr mask => m.write addr (m.read addr &&& ~~~mask ||| byte &&& mask)
  | _ => m

def Chip.answer (m : Chip) : Phase → U8
  | .reading addr => m.read addr
  | _ => 0

def chip (reset : U8 → U8) : Slave Chip where
  select m := { m with phase := .instruction }
  transfer byte m :=
    (m.answer m.phase, { m.effect reset byte m.phase with phase := m.phase.next byte })
  deselect m := { m with phase := .deselected }

/-- What happens by itself. -/
inductive Move where
  /-- The controller enters the mode it has been asked to. -/
  | enter
  | others (regs : U8 → U8)

def Chip.move (m : Chip) : Move → Chip
  | .enter => { m with mode := m.canctrl &&& mcpModemask }
  | .others regs => { m with others := regs }

def Moves (m m' : Chip) : Prop := ∃ x, m' = m.move x

/-- The mode that has been asked for, and if `entered`, configuration mode. -/
structure At (settings : U8 → U8) (lost : Nat) (asked : U8) (entered : Bool) (phase : Phase)
    (m : Chip) : Prop where
  settings : m.settings = settings
  lost : m.lost = lost
  asked : m.canctrl &&& mcpModemask = asked
  mode : entered = true → m.mode = mcpModeConfig
  phase : m.phase = phase

variable {reset settings : U8 → U8} {lost : Nat} {asked : U8} {entered : Bool} {phase : Phase}
  {m : Chip} {α : Type} {post : α → Chip → Prop} {p : Spi α} {byte : U8}

/-- Configuration mode is not left before another one is asked for. -/
theorem at_stable (h : entered = true → asked = mcpModeConfig) :
    Stable Moves (At settings lost asked entered phase) := by
  rintro m m' hat ⟨x, rfl⟩
  cases x with
  | enter =>
    refine ⟨hat.settings, hat.lost, hat.asked, fun he => ?_, hat.phase⟩
    exact hat.asked.trans (h he)
  | others regs => exact ⟨hat.settings, hat.lost, hat.asked, hat.mode, hat.phase⟩

section Actions

variable (hrely : entered = true → asked = mcpModeConfig)
  (h : At settings lost asked entered phase m)
include hrely h

theorem select_meets (hnext : ∀ m, At settings lost asked entered .instruction m →
    Meets (chip reset) Moves post p m) : Meets (chip reset) Moves post (.select p) m := by
  refine Spi.meets_select (at_stable hrely) h fun m h => hnext _ ?_
  exact ⟨h.settings, h.lost, h.asked, h.mode, rfl⟩

theorem deselect_meets (hnext : ∀ m, At settings lost asked entered .deselected m →
    Meets (chip reset) Moves post p m) : Meets (chip reset) Moves post (.deselect p) m := by
  refine Spi.meets_deselect (at_stable hrely) h fun m h => hnext _ ?_
  exact ⟨h.settings, h.lost, h.asked, h.mode, rfl⟩

/-- A byte that is only remembered. -/
theorem quiet_meets {f : U8 → Spi α} (hquiet : ∀ m : Chip, m.effect reset byte phase = m)
    (hnext : ∀ r m, At settings lost asked entered (phase.next byte) m →
      Meets (chip reset) Moves post (f r) m) :
    Meets (chip reset) Moves post (.transfer byte f) m := by
  refine Spi.meets_transfer (at_stable hrely) h fun m h => hnext _ _ ?_
  have hsame : m.effect reset byte m.phase = m := by rw [h.phase, hquiet]
  simp only [chip, hsame]
  exact ⟨h.settings, h.lost, h.asked, h.mode, by rw [h.phase]⟩

end Actions

theorem read_meets (hrely : entered = true → asked = mcpModeConfig)
    (h : At settings lost asked entered phase m) : Meets (chip reset) Moves
      (fun r m => r &&& mcpModemask = asked ∧ At settings lost asked entered .deselected m)
      (mcpRead mcpRegCanctrl) m := by
  refine select_meets hrely h fun m h => ?_
  refine quiet_meets hrely h (fun _ => rfl) fun _ m h => ?_
  refine quiet_meets hrely h (fun _ => rfl) fun _ m h => ?_
  refine Spi.meets_transfer (at_stable hrely) h fun m h => ?_
  have hanswer : ((chip reset).transfer 0x00#8 m).1 &&& mcpModemask = asked := by
    rw [← h.asked]
    simp only [chip, h.phase]
    rfl
  have hat : At settings lost asked entered (.reading (mcpRegCanctrl + 1))
      ((chip reset).transfer 0x00#8 m).2 := by
    simp only [chip, h.phase]
    exact ⟨h.settings, h.lost, h.asked, h.mode, rfl⟩
  exact deselect_meets hrely hat fun m h => ⟨hanswer, h⟩

theorem modify_meets {newMode : U8} (entered' : Bool) (hmode : newMode &&& mcpModemask = newMode)
    (hrely : entered = true → asked = mcpModeConfig)
    (hleft : entered' = true → entered = true ∧ newMode = mcpModeConfig)
    (h : At settings lost asked entered phase m) : Meets (chip reset) Moves
      (fun _ m => At settings lost newMode entered' .deselected m)
      (mcpModify mcpRegCanctrl mcpModemask newMode) m := by
  refine select_meets hrely h fun m h => ?_
  refine quiet_meets hrely h (fun _ => rfl) fun _ m h => ?_
  refine quiet_meets hrely h (fun _ => rfl) fun _ m h => ?_
  refine quiet_meets hrely h (fun _ => rfl) fun _ m h => ?_
  refine Spi.meets_transfer (at_stable hrely) h fun m h => ?_
  have hat : At settings lost newMode entered' .ended ((chip reset).transfer newMode m).2 := by
    simp only [chip, h.phase]
    refine ⟨h.settings, h.lost, ?_, fun he => h.mode (hleft he).1, rfl⟩
    have hbits : (m.canctrl &&& ~~~mcpModemask ||| newMode &&& mcpModemask) &&& mcpModemask =
        newMode &&& mcpModemask := by
      ext i hi
      simp only [BitVec.getElem_and, BitVec.getElem_or, BitVec.getElem_not]
      cases mcpModemask[i] <;> simp
    exact hbits.trans hmode
  exact deselect_meets (fun he => (hleft he).2) hat fun m h => h

theorem changeMode_meets {newMode : U8} (entered' : Bool)
    (hmode : newMode &&& mcpModemask = newMode) (hrely : entered = true → asked = mcpModeConfig)
    (hleft : entered' = true → entered = true ∧ newMode = mcpModeConfig)
    (h : At settings lost asked entered phase m) : Meets (chip reset) Moves
      (fun r m => r = true ∧ At settings lost newMode entered' .deselected m)
      (mcpChangeMode newMode) m := by
  refine (modify_meets entered' hmode hrely hleft h).seq fun _ m h => ?_
  refine (read_meets (fun he => (hleft he).2) h).seq fun r m h => ?_
  exact ⟨decide_eq_true h.1, h.2⟩

theorem reset_meets (h : At settings lost asked false phase m) : Meets (chip reset) Moves
    (fun _ m => At reset lost mcpModeConfig true .deselected m) mcpReset m := by
  refine select_meets (by simp) h fun m h => ?_
  refine Spi.meets_transfer (at_stable (by simp)) h fun m h => ?_
  have hat : At reset lost mcpModeConfig true .ended ((chip reset).transfer mcpCmdReset m).2 := by
    simp only [chip, h.phase]
    have hasked : 0x87#8 &&& mcpModemask = mcpModeConfig := by decide
    exact ⟨rfl, h.lost, hasked, fun _ => rfl, rfl⟩
  exact deselect_meets (fun _ => rfl) hat fun m h => h

theorem transfer_writing (v addr : U8) (hphase : m.phase = .writing addr) :
    ((chip reset).transfer v m).2 = { m.write addr v with phase := .writing (addr + 1) } := by
  simp only [chip, hphase]
  rfl

/-- Values are written from an address on, less the first ones if these come too early. -/
def Wrote (values : List U8) (addr : U8) (settings : U8 → U8) (lost : Nat) (entered : Bool)
    (m : Chip) : Prop :=
  ∃ k ≤ values.length, (entered = true → k = 0) ∧
    ∃ phase, At (writeRegs (values.drop k) (addr + BitVec.ofNat 8 k) settings) (lost + k)
      mcpModeConfig (entered || decide (k < values.length)) phase m

theorem values_meets (values : List U8) : ∀ {settings : U8 → U8} {lost : Nat} {entered : Bool}
    {addr : U8} {m : Chip}, At settings lost mcpModeConfig entered (.writing addr) m →
    (∀ i < values.length, configOnly (addr + BitVec.ofNat 8 i) = true) →
    Meets (chip reset) Moves (fun _ m => Wrote values addr settings lost entered m)
      (Spi.transferAll values) m := by
  induction values with
  | nil =>
    intro settings lost entered addr m h _
    refine ⟨0, le_rfl, fun _ => rfl, .writing addr, ?_⟩
    simpa [writeRegs] using h
  | cons v vs ih =>
    intro settings lost entered addr m h hconfig
    have hfirst : configOnly addr = true := by
      have hzero := hconfig 0 (by simp)
      simpa using hzero
    have hshift : ∀ i : Nat, addr + BitVec.ofNat 8 (i + 1) = addr + 1 + BitVec.ofNat 8 i := by
      intro i
      bv_omega
    have hrest : ∀ i < vs.length, configOnly (addr + 1 + BitVec.ofNat 8 i) = true := by
      intro i hi
      rw [← hshift]
      exact hconfig (i + 1) (by simpa using hi)
    refine Spi.meets_transfer (at_stable fun _ => rfl) h fun m h => ?_
    rw [transfer_writing v addr h.phase]
    by_cases hmode : m.mode = mcpModeConfig
    · -- nothing is lost from here on
      have hat : At (Function.update settings addr v) lost mcpModeConfig true
          (.writing (addr + 1)) { m.write addr v with phase := .writing (addr + 1) } := by
        simp only [Chip.write, if_pos hfirst, if_pos hmode]
        exact ⟨by rw [h.settings], h.lost, h.asked, fun _ => hmode, rfl⟩
      refine (ih hat hrest).mono fun _ m hwrote => ?_
      obtain ⟨k, _, hzero, phase, hk⟩ := hwrote
      obtain rfl := hzero rfl
      refine ⟨0, by simp, fun _ => rfl, phase, ?_⟩
      simpa [writeRegs] using hk
    · have hnot : entered = false := by
        cases entered with
        | false => rfl
        | true => exact absurd (h.mode rfl) hmode
      subst hnot
      have hat : At settings (lost + 1) mcpModeConfig false (.writing (addr + 1))
          { m.write addr v with phase := .writing (addr + 1) } := by
        simp only [Chip.write, if_pos hfirst, if_neg hmode]
        exact ⟨h.settings, by rw [h.lost], h.asked, by simp, rfl⟩
      refine (ih hat hrest).mono fun _ m hwrote => ?_
      obtain ⟨k, hle, _, phase, hk⟩ := hwrote
      refine ⟨k + 1, by simpa using hle, by simp, phase, ?_⟩
      rw [List.drop_succ_cons, hshift, ← Nat.add_assoc, Nat.add_right_comm]
      simpa using hk

theorem writeMulti_meets {values : List U8} {addr : U8}
    (hconfig : ∀ i < values.length, configOnly (addr + BitVec.ofNat 8 i) = true)
    (h : At settings lost mcpModeConfig entered phase m) : Meets (chip reset) Moves
      (fun _ m => Wrote values addr settings lost entered m) (mcpWriteMulti addr values) m := by
  refine select_meets (fun _ => rfl) h fun m h => ?_
  refine quiet_meets (fun _ => rfl) h (fun _ => rfl) fun _ m h => ?_
  refine quiet_meets (fun _ => rfl) h (fun _ => rfl) fun _ m h => ?_
  refine (values_meets values h hconfig).seq fun _ m hwrote => ?_
  obtain ⟨k, hle, hzero, phase, hk⟩ := hwrote
  exact deselect_meets (fun _ => rfl) hk fun m h => ⟨k, hle, hzero, _, h⟩

/-- A single register is written like several. -/
theorem mcpWrite_eq (addr v : U8) : mcpWrite addr v = mcpWriteMulti addr [v] := rfl

def regsFrom (addr : U8) (n : Nat) (settings : U8 → U8) : List U8 :=
  (List.range n).map fun i => settings (addr + BitVec.ofNat 8 i)

/-- RXF0 and RXM0. -/
def filterRegs (settings : U8 → U8) : List U8 :=
  regsFrom 0x00#8 4 settings ++ regsFrom 0x20#8 4 settings

def filterBytes (id mask : U32) : List U8 := (mcpPutEID id).toList ++ (mcpPutEID mask).toList

def isFilter (addr : U8) : Prop :=
  addr.toNat < 0x04 ∨ (0x20 ≤ addr.toNat ∧ addr.toNat < 0x24)

instance (addr : U8) : Decidable (isFilter addr) := inferInstanceAs (Decidable (_ ∨ _))

/-- The first `k` registers of the filter are as they were, the others as they should be. -/
structure Torn (k : Nat) (id mask : U32) (settings settings' : U8 → U8) : Prop where
  filter : filterRegs settings' = (filterRegs settings).take k ++ (filterBytes id mask).drop k
  others : ∀ addr, ¬ isFilter addr → settings' addr = settings addr

theorem regsFrom_written {values : List U8} {n k : Nat} (addr : U8) (settings : U8 → U8)
    (hlen : values.length = n) (hn : n ≤ 256) (hk : k ≤ n) :
    regsFrom addr n (writeRegs (values.drop k) (addr + BitVec.ofNat 8 k) settings) =
      (regsFrom addr n settings).take k ++ values.drop k := by
  subst hlen
  refine List.ext_getElem (by simp [regsFrom]; omega) fun i hi _ => ?_
  have hi' : i < values.length := by simpa [regsFrom] using hi
  by_cases hlow : i < k
  · rw [List.getElem_append_left (by simp [regsFrom]; omega)]
    simp only [regsFrom, List.getElem_map, List.getElem_range, List.getElem_take]
    refine AvrCan.writeRegs_other _ _ _ _ fun j hj => ?_
    rw [List.length_drop] at hj
    bv_omega
  · rw [List.getElem_append_right (by simp [regsFrom]; omega)]
    have hplace : addr + BitVec.ofNat 8 i = addr + BitVec.ofNat 8 k + BitVec.ofNat 8 (i - k) := by
      bv_omega
    have hvalue := AvrCan.writeRegs_value (values.drop k) (addr + BitVec.ofNat 8 k) settings (i - k)
      (by simp; omega) (by simp; omega)
    have hback : k + (i - k) = i := by omega
    simp only [regsFrom, List.getElem_map, List.getElem_range, hplace, hvalue]
    simp [List.getD_eq_getElem?_getD, hback, hi', hk]

theorem regsFrom_other {values : List U8} {addr addr' : U8} {n : Nat} (settings : U8 → U8)
    (hapart : ∀ i < n, ∀ j < values.length, addr' + BitVec.ofNat 8 i ≠ addr + BitVec.ofNat 8 j) :
    regsFrom addr' n (writeRegs values addr settings) = regsFrom addr' n settings := by
  refine List.map_congr_left fun i hi => ?_
  exact AvrCan.writeRegs_other _ _ _ _ (hapart i (List.mem_range.mp hi))

@[simp] theorem putEID_length (v : U32) : (mcpPutEID v).toList.length = 4 := Vector.length_toList

/-- Where the writing stops being lost, it is not lost again. -/
theorem torn_writes {id mask : U32} {k l : Nat} (hk : k ≤ 4) (hl : l ≤ 4) (honce : k < 4 → l = 0)
    (settings : U8 → U8) : Torn (k + l) id mask settings
      (writeRegs ((mcpPutEID mask).toList.drop l) (0x20#8 + BitVec.ofNat 8 l)
        (writeRegs ((mcpPutEID id).toList.drop k) (0x00#8 + BitVec.ofNat 8 k) settings)) := by
  constructor
  · have hid := regsFrom_written 0x00#8 settings (putEID_length id) (by decide) hk
    have hmask := regsFrom_written 0x20#8 settings (putEID_length mask) (by decide) hl
    rw [filterRegs, regsFrom_other, hid, regsFrom_written 0x20#8 _ (putEID_length mask) (by decide)
      hl, regsFrom_other]
    · have hregs : ∀ addr, (regsFrom addr 4 settings).length = 4 := fun _ => by simp [regsFrom]
      rw [filterRegs, filterBytes, List.take_append, List.drop_append, hregs, putEID_length]
      by_cases hlow : k < 4
      · obtain rfl := honce hlow
        have hzero : k - 4 = 0 := by omega
        simp [hzero]
      · obtain rfl : k = 4 := by omega
        have hall : (regsFrom 0x00#8 4 settings).take (4 + l) = regsFrom 0x00#8 4 settings :=
          List.take_of_length_le (by rw [hregs]; omega)
        have hnone : (mcpPutEID id).toList.drop (4 + l) = [] :=
          List.drop_of_length_le (by rw [putEID_length]; omega)
        have hnone' : (mcpPutEID id).toList.drop 4 = [] :=
          List.drop_of_length_le (by rw [putEID_length])
        have hall' : (regsFrom 0x00#8 4 settings).take 4 = regsFrom 0x00#8 4 settings :=
          List.take_of_length_le (by rw [hregs])
        simp [hall, hnone, hall', hnone']
    · intro i hi j hj
      rw [List.length_drop, putEID_length] at hj
      bv_omega
    · intro i hi j hj
      rw [List.length_drop, putEID_length] at hj
      bv_omega
  · intro addr hnot
    simp only [isFilter, not_or, not_and, not_lt] at hnot
    rw [AvrCan.writeRegs_other, AvrCan.writeRegs_other]
    · intro j hj
      rw [List.length_drop, putEID_length] at hj
      bv_omega
    · intro j hj
      rw [List.length_drop, putEID_length] at hj
      bv_omega

theorem At.entering (h : At settings lost asked entered phase m) :
    At settings lost asked false phase m :=
  ⟨h.settings, h.lost, h.asked, by simp, h.phase⟩

/-- After writing the filter: if the controller is late, the first registers are lost. -/
def Filtered (id mask : U32) (settings : U8 → U8) (lost : Nat) (entered : Bool) (asked : U8)
    (m : Chip) : Prop :=
  ∃ k ≤ 8, (entered = true → k = 0) ∧ ∃ settings' phase, Torn k id mask settings settings' ∧
    At settings' (lost + k) asked false phase m

theorem setFilter0_meets {id mask : U32} (h : At settings lost mcpModeConfig entered phase m) :
    Meets (chip reset) Moves
      (fun _ m => Filtered id mask settings lost entered mcpModeConfig m)
      (mcpSetFilter0 id mask) m := by
  have hrxf : ∀ i < 4, configOnly (0x00#8 + BitVec.ofNat 8 i) = true := by decide
  have hrxm : ∀ i < 4, configOnly (0x20#8 + BitVec.ofNat 8 i) = true := by decide
  refine (writeMulti_meets (by rwa [putEID_length]) h).seq fun _ m hwrote => ?_
  obtain ⟨k, hk, hkzero, phase, h⟩ := hwrote
  refine (writeMulti_meets (by rwa [putEID_length]) h).mono fun _ m hwrote => ?_
  obtain ⟨l, hl, hlzero, phase, h⟩ := hwrote
  rw [putEID_length] at hk hl
  have hzero : entered = true → l = 0 := fun he => hlzero (by simp [he])
  have honce : k < 4 → l = 0 := fun hlt => hlzero (by simp [hlt])
  refine ⟨k + l, by omega, fun he => by rw [hkzero he, hzero he], _, phase,
    torn_writes hk hl honce settings, ?_⟩
  rw [← Nat.add_assoc]
  exact h.entering

/-- The controller is asked to go back to normal mode. -/
theorem normal_meets {id mask : U32} (h : Filtered id mask settings lost entered mcpModeConfig m) :
    Meets (chip reset) Moves
      (fun r m => r = true ∧ Filtered id mask settings lost entered mcpModeNormal m)
      (mcpChangeMode mcpModeNormal) m := by
  obtain ⟨k, hk, hzero, settings', phase, htorn, hat⟩ := h
  refine (changeMode_meets false rfl (by simp) (by simp) hat).mono fun r m hpost => ?_
  exact ⟨hpost.1, k, hk, hzero, settings', _, htorn, hpost.2⟩

/-- The settings after a reset with the bit timing written. -/
def timed (reset : U8 → U8) : U8 → U8 :=
  writeRegs [AvrCan.mcpCnf3Val] AvrCan.mcpRegCnf3
    (writeRegs [AvrCan.mcpCnf2Val] AvrCan.mcpRegCnf2
      (writeRegs [AvrCan.mcpCnf1Val] AvrCan.mcpRegCnf1 reset))

theorem write_meets {addr v : U8} (hconfig : configOnly addr = true)
    (h : At settings lost mcpModeConfig true phase m) : Meets (chip reset) Moves
      (fun _ m => ∃ phase, At (writeRegs [v] addr settings) lost mcpModeConfig true phase m)
      (mcpWrite addr v) m := by
  rw [mcpWrite_eq]
  refine (writeMulti_meets (by simpa using hconfig) h).mono fun _ m hwrote => ?_
  obtain ⟨k, _, hzero, phase, hat⟩ := hwrote
  obtain rfl := hzero rfl
  exact ⟨phase, by simpa using hat⟩

theorem setup_meets {id mask : U32} (h : At settings lost asked false phase m) :
    Meets (chip reset) Moves
      (fun r m => r = true ∧ Filtered id mask (timed reset) lost true mcpModeNormal m)
      (mcpSetup id mask) m := by
  refine (reset_meets h).seq fun _ m h => ?_
  refine (changeMode_meets true rfl (fun _ => rfl) (fun _ => ⟨rfl, rfl⟩) h).seq fun r m hr => ?_
  obtain ⟨rfl, h⟩ := hr
  refine (write_meets (by decide) h).seq fun _ m h => ?_
  obtain ⟨_, h⟩ := h
  refine (write_meets (by decide) h).seq fun _ m h => ?_
  obtain ⟨_, h⟩ := h
  refine (write_meets (by decide) h).seq fun _ m h => ?_
  obtain ⟨_, h⟩ := h
  exact (setFilter0_meets h).seq fun _ m h => normal_meets h

theorem first_meets {id mask : U32} (h : At settings lost asked false phase m) :
    Meets (chip reset) Moves
      (fun r m => r = (true, true) ∧ Filtered id mask (timed reset) lost true mcpModeNormal m)
      (cnCANInit false id mask) m :=
  (setup_meets h).seq fun r _ hr => ⟨by rw [hr.1], hr.2⟩

theorem again_meets {id mask : U32} (h : At settings lost asked false phase m) :
    Meets (chip reset) Moves
      (fun r m => r = (true, true) ∧ Filtered id mask settings lost false mcpModeNormal m)
      (cnCANInit true id mask) m := by
  refine (changeMode_meets false rfl (by simp) (by simp) h).seq fun r m hr => ?_
  obtain ⟨rfl, h⟩ := hr
  refine (setFilter0_meets h).seq fun _ m h => ?_
  refine (normal_meets h).seq fun r m hr => ?_
  obtain ⟨rfl, h⟩ := hr
  exact ⟨rfl, h⟩

/-- The arguments of a call. -/
structure Call where
  id : U32
  mask : U32

/-- The variable `inited`, the call that is running with what is left of it, and the
controller. -/
structure Session where
  inited : Bool
  running : Option (Call × Spi (Bool × Bool))
  chip : Chip

inductive Step where
  | call (c : Call)
  | action
  | move (x : Move)

inductive Outcome where
  | returned (c : Call) (r : Bool)

def step (reset : U8 → U8) : Machine Session Step Outcome
  | s, .call c =>
    match s.running with
    | none => some ({ s with running := some (c, cnCANInit s.inited c.id c.mask) }, [])
    | some _ => none
  | s, .action =>
    match s.running with
    | none => none
    | some (c, p) =>
      let (p, m) := p.step (chip reset) s.chip
      match p.returned with
      | none => some (⟨s.inited, some (c, p), m⟩, [])
      | some (r, inited) => some (⟨inited, none, m⟩, [.returned c r])
  | s, .move x => some ({ s with chip := s.chip.move x }, [])

abbrev Trans := Transition Session Step Outcome

/-- The call that a transition begins, and the state it begins in. -/
def called (x : Trans) : Option (Call × Session) :=
  match x.input with
  | .call c => some (c, x.pre)
  | _ => none

/-- The last call, and the state it began in. -/
def began (tr : List Trans) : Option (Call × Session) := (tr.filterMap called).getLast?

inductive Stepped (reset : U8 → U8) (s : Session) : Step → Session → List Outcome → Prop where
  | call (c : Call) : s.running = none →
      Stepped reset s (.call c) { s with running := some (c, cnCANInit s.inited c.id c.mask) } []
  | goes {c : Call} {p : Spi (Bool × Bool)} : s.running = some (c, p) →
      (p.step (chip reset) s.chip).1.returned = none →
      Stepped reset s .action
        ⟨s.inited, some (c, (p.step (chip reset) s.chip).1), (p.step (chip reset) s.chip).2⟩ []
  | returns {c : Call} {p : Spi (Bool × Bool)} {r inited : Bool} : s.running = some (c, p) →
      (p.step (chip reset) s.chip).1.returned = some (r, inited) →
      Stepped reset s .action ⟨inited, none, (p.step (chip reset) s.chip).2⟩ [.returned c r]
  | move (x : Move) : Stepped reset s (.move x) { s with chip := s.chip.move x } []

theorem step_stepped {s s' : Session} {x : Step} {outs : List Outcome}
    (h : step reset s x = some (s', outs)) : Stepped reset s x s' outs := by
  cases x with
  | call c =>
    simp only [step] at h
    split at h
    · cases h
      exact .call c ‹_›
    · cases h
  | action =>
    simp only [step] at h
    split at h
    · cases h
    · split at h
      · cases h
        exact .goes ‹_› ‹_›
      · cases h
        exact .returns ‹_› ‹_›
  | move x =>
    cases h
    exact .move x

/-- A call has been made in `s₀`, and `k` of its writes were lost. -/
structure Left (reset : U8 → U8) (k : Nat) (c : Call) (s₀ : Session) (m : Chip) : Prop where
  lost : m.lost = s₀.chip.lost + k
  first : s₀.inited = false → k = 0
  filter : filterRegs m.settings =
    (filterRegs s₀.chip.settings).take k ++ (filterBytes c.id c.mask).drop k
  others : ∀ addr, ¬ isFilter addr → m.settings addr = timed reset addr

/-- What the calls up to now have done. -/
structure Inits (reset : U8 → U8) (tr : List Trans) (s : Session) : Prop where
  trues : ∀ c r, .returned c r ∈ outputs tr → r = true
  rest : s.running = none → s.inited = (began tr).isSome ∧
    ∀ c s₀, began tr = some (c, s₀) → ∃ k ≤ 8, Left reset k c s₀ s.chip
  call : ∀ c p, s.running = some (c, p) → p.returned = none ∧
    ∃ s₀, began tr = some (c, s₀) ∧ Meets (chip reset) Moves
      (fun r m => r = (true, true) ∧ ∃ k ≤ 8, Left reset k c s₀ m) p s.chip

variable {tr : List Trans}

theorem began_quiet {x : Trans} (h : called x = none) : began (tr ++ [x]) = began tr := by
  simp [began, h]

theorem init_unreturned (inited : Bool) (id mask : U32) :
    (cnCANInit inited id mask).returned = none := by
  cases inited <;> rfl

theorem call_meets (c : Call) (s₀ : Session)
    (h : s₀.inited = true → ∀ addr, ¬ isFilter addr → s₀.chip.settings addr = timed reset addr) :
    Meets (chip reset) Moves (fun r m => r = (true, true) ∧ ∃ k ≤ 8, Left reset k c s₀ m)
      (cnCANInit s₀.inited c.id c.mask) s₀.chip := by
  have hat : At s₀.chip.settings s₀.chip.lost (s₀.chip.canctrl &&& mcpModemask) false
      s₀.chip.phase s₀.chip := ⟨rfl, rfl, rfl, by simp, rfl⟩
  cases hi : s₀.inited with
  | false =>
    refine (first_meets hat).mono fun r m hpost => ?_
    obtain ⟨hr, k, hk, hzero, settings', phase, htorn, hleft⟩ := hpost
    obtain rfl := hzero rfl
    refine ⟨hr, 0, hk, hleft.lost, fun _ => rfl, ?_, ?_⟩
    · rw [hleft.settings]
      simpa using htorn.filter
    · rw [hleft.settings]
      exact htorn.others
  | true =>
    refine (again_meets hat).mono fun r m hpost => ?_
    obtain ⟨hr, k, hk, _, settings', phase, htorn, hleft⟩ := hpost
    refine ⟨hr, k, hk, hleft.lost, by simp [hi], ?_, ?_⟩
    · rw [hleft.settings]
      exact htorn.filter
    · intro addr hnot
      rw [hleft.settings, htorn.others addr hnot]
      exact h hi addr hnot

theorem inits_step {s s' : Session} {x : Step} {outs : List Outcome} (h : Inits reset tr s)
    (hstep : Stepped reset s x s' outs) : Inits reset (tr ++ [⟨s, x, outs, s'⟩]) s' := by
  cases hstep with
  | call c hrun =>
    obtain ⟨hinited, hrest⟩ := h.rest hrun
    refine ⟨by simpa using h.trues, by simp, ?_⟩
    rintro c' p he
    cases he
    refine ⟨init_unreturned .., s, by simp [began, called], call_meets c s fun hi => ?_⟩
    rw [hinited, Option.isSome_iff_exists] at hi
    obtain ⟨⟨c', s₀⟩, hlast⟩ := hi
    obtain ⟨k, _, hleft⟩ := hrest c' s₀ hlast
    exact hleft.others
  | @goes c p hrun hret =>
    obtain ⟨hnot, s₀, hbegan, hmeets⟩ := h.call c p hrun
    refine ⟨by simpa using h.trues, by simp, ?_⟩
    rintro c' p' he
    cases he
    refine ⟨hret, s₀, ?_, hmeets.step⟩
    rw [began_quiet rfl, hbegan]
  | @returns c p r inited hrun hret =>
    obtain ⟨hnot, s₀, hbegan, hmeets⟩ := h.call c p hrun
    obtain ⟨hr, hleft⟩ := hmeets.step.ended hret
    obtain ⟨rfl, rfl⟩ := Prod.mk.inj hr
    refine ⟨?_, fun _ => ?_, by simp⟩
    · intro c' r' hmem
      simp only [Mealy.outputs_append, Mealy.outputs_singleton, List.mem_append,
        List.mem_singleton] at hmem
      cases hmem with
      | inl hmem => exact h.trues c' r' hmem
      | inr hmem =>
        cases hmem
        rfl
    · rw [began_quiet rfl, hbegan]
      refine ⟨rfl, fun c' s₀' he => ?_⟩
      cases he
      exact hleft
  | move x =>
    refine ⟨by simpa using h.trues, fun hrun => ?_, fun c p hrun => ?_⟩
    · rw [began_quiet rfl]
      obtain ⟨hinited, hrest⟩ := h.rest hrun
      refine ⟨hinited, fun c s₀ hlast => ?_⟩
      obtain ⟨k, hk, hleft⟩ := hrest c s₀ hlast
      refine ⟨k, hk, ?_⟩
      cases x with
      | enter => exact ⟨hleft.lost, hleft.first, hleft.filter, hleft.others⟩
      | others regs => exact ⟨hleft.lost, hleft.first, hleft.filter, hleft.others⟩
    · obtain ⟨hnot, s₀, hbegan, hmeets⟩ := h.call c p hrun
      refine ⟨hnot, s₀, ?_, hmeets.moved hnot ⟨x, rfl⟩⟩
      rw [began_quiet rfl, hbegan]

theorem inits_run (m : Chip) {s : Session} (h : Run (step reset) ⟨false, none, m⟩ tr s) :
    Inits reset tr s := by
  refine h.invariant (I := Inits reset) ⟨by simp, fun _ => ⟨rfl, by simp [began]⟩, by simp⟩ ?_
  intro _ _ _ _ _ _ hI hstep
  exact inits_step hI (step_stepped hstep)

/-- From a reset on, in any order of calls, their actions on the bus and what the controller
does: every call returns true. After the first call the bit timing is set and the filter
is that of the call. A later call writes the registers of the filter one by one, and those
that come before the controller has entered configuration mode are lost: the filter between
two calls begins as it was before the last one and goes on as that one wants it. -/
theorem setup_histories (reset : U8 → U8) (m : Chip) {s : Session}
    (h : Run (step reset) ⟨false, none, m⟩ tr s) :
    (∀ c r, .returned c r ∈ outputs tr → r = true) ∧
    (s.running = none → ∀ c s₀, began tr = some (c, s₀) → ∃ k ≤ 8,
      s.chip.lost = s₀.chip.lost + k ∧ (s₀.inited = false → k = 0) ∧
      filterRegs s.chip.settings =
        (filterRegs s₀.chip.settings).take k ++ (filterBytes c.id c.mask).drop k ∧
      ∀ addr, ¬ isFilter addr → s.chip.settings addr = timed reset addr) := by
  have hinits := inits_run m h
  refine ⟨hinits.trues, fun hrun c s₀ hlast => ?_⟩
  obtain ⟨k, hk, hleft⟩ := (hinits.rest hrun).2 c s₀ hlast
  exact ⟨k, hk, hleft.lost, hleft.first, hleft.filter, hleft.others⟩

section Torn

def devFilter (devId : U8) : Call := ⟨cnCANDevMask cnCanTxFilterId devId, cnCanTxFilterMask⟩

/-- A call for the device 42, then one for the device 7 that finds the controller in normal
mode until the first register is written. -/
def tornInputs : List Step :=
  .call (devFilter 42) :: List.replicate 56 .action ++ [.move .enter, .call (devFilter 7)] ++
    List.replicate 15 .action ++ [.move .enter] ++ List.replicate 23 .action

def powered : Session := ⟨false, none, ⟨fun _ => 0, fun _ => 0, 0, 0, 0, .deselected⟩⟩

theorem setup_histories_torn : ∃ tr s s₀, Run (step fun _ => 0) powered tr s ∧
    began tr = some (devFilter 7, s₀) ∧ (∀ c r, .returned c r ∈ outputs tr → r = true) ∧
    filterRegs s.chip.settings =
      (filterRegs s₀.chip.settings).take 1 ++
        (filterBytes (devFilter 7).id (devFilter 7).mask).drop 1 := by
  obtain ⟨tr, s, hrun, hp⟩ := Mealy.run_of_exec_any (M := step fun _ => 0) (s := powered)
    (p := fun r => decide (r.2.running.isNone = true ∧ r.2.chip.lost = 1 ∧
      (began r.1).map (fun b => (b.1.id, b.1.mask, b.2.chip.lost)) =
        some ((devFilter 7).id, (devFilter 7).mask, 0)))
    tornInputs (by decide +kernel)
  obtain ⟨hrest, hlost, hbegan⟩ := of_decide_eq_true hp
  obtain ⟨⟨⟨id, mask⟩, s₀⟩, hlast, he⟩ := Option.map_eq_some_iff.mp hbegan
  obtain ⟨rfl, he⟩ := Prod.mk.inj he
  obtain ⟨rfl, hlost₀⟩ := Prod.mk.inj he
  obtain ⟨htrues, hfilters⟩ := setup_histories (fun _ => 0) powered.chip hrun
  obtain ⟨k, _, hk, _, hfilter, _⟩ := hfilters (Option.isNone_iff_eq_none.mp hrest) _ _ hlast
  obtain rfl : k = 1 := by
    rw [hlost, hlost₀] at hk
    omega
  exact ⟨tr, s, s₀, hrun, hlast, htrues, hfilter⟩

end Torn

end CANnuccia.McpSetup

import CANnuccia.AvrCan
import CANnuccia.Masks

/-!
# The acceptance filter on AVR

`mcpSetFilter0` writes an identifier and a mask to the registers of filter 0 in the layout
of the controller. It is called in configuration mode, where these can be written.
-/
namespace CANnuccia.AvrCan

open Util Masks
open Spi (Slave spiSelect spiTransfer spiDeselect transferAll)

def mcpCmdWrite : U8 := 0x02#8

def mcpRegRxf0sidh : U8 := 0x00#8
def mcpRegRxm0sidh : U8 := 0x20#8

def mcpWriteMulti (addr : U8) (values : List U8) : Spi Unit := do
  spiSelect
  let _ ← spiTransfer mcpCmdWrite
  let _ ← spiTransfer addr
  transferAll values
  spiDeselect

def mcpSetFilter0 (id mask : U32) : Spi Unit := do
  mcpWriteMulti mcpRegRxf0sidh (mcpPutEID id).toList
  mcpWriteMulti mcpRegRxm0sidh (mcpPutEID mask).toList

/-- What the selected controller does with the next byte of a WRITE. -/
inductive Writing where
  | deselected
  | instruction
  | address
  | value (addr : U8)
  | ended

structure Registers where
  regs : U8 → U8
  session : Writing

def Registers.transfer (byte : U8) (m : Registers) : U8 × Registers :=
  match m.session with
  | .deselected => (0, m)
  | .instruction =>
    (0, { m with session := if byte = 0x02#8 then .address else .ended })
  | .address => (0, { m with session := .value byte })
  | .value addr => (0, ⟨Function.update m.regs addr byte, .value (addr + 1)⟩)
  | .ended => (0, m)

def registerFile : Slave Registers where
  select m := { m with session := .instruction }
  transfer := Registers.transfer
  deselect m := { m with session := .deselected }

/-- The id registers of a frame, from SIDH on, agree with RXF0 on every bit set in RXM0. -/
def Registers.accepts (m : Registers) (eid : Eid) : Prop :=
  ∀ k < 4, eid.toList.getD k 0 &&& m.regs (0x20#8 + BitVec.ofNat 8 k) =
    m.regs (0x00#8 + BitVec.ofNat 8 k) &&& m.regs (0x20#8 + BitVec.ofNat 8 k)

/-- The registers after some values are written from an address on. -/
def writeRegs : List U8 → U8 → (U8 → U8) → U8 → U8
  | [], _, regs => regs
  | v :: vs, addr, regs => writeRegs vs (addr + 1) (Function.update regs addr v)

theorem absorb_values (values : List U8) : ∀ (addr : U8) (regs : U8 → U8),
    ∃ session, registerFile.absorb values ⟨regs, .value addr⟩ =
      ⟨writeRegs values addr regs, session⟩ := by
  induction values with
  | nil =>
    intro addr regs
    exact ⟨_, rfl⟩
  | cons v vs ih =>
    intro addr regs
    exact ih (addr + 1) (Function.update regs addr v)

theorem run_writeMulti (addr : U8) (values : List U8) (m : Registers) :
    ((mcpWriteMulti addr values).run registerFile m).2 =
      ⟨writeRegs values addr m.regs, .deselected⟩ := by
  obtain ⟨session, habsorb⟩ := absorb_values values addr m.regs
  have hstart : (registerFile.transfer addr (registerFile.transfer mcpCmdWrite
      (registerFile.select m)).2).2 = ⟨m.regs, .value addr⟩ := rfl
  simp only [mcpWriteMulti, Spi.select_bind, Spi.transfer_bind, Spi.run_select, Spi.run_transfer,
    Spi.run_transferAll, hstart, habsorb]
  rfl

/-- Only the registers from the address on are written. -/
theorem writeRegs_other (values : List U8) : ∀ (addr : U8) (regs : U8 → U8) (a : U8),
    (∀ k < values.length, a ≠ addr + BitVec.ofNat 8 k) → writeRegs values addr regs a = regs a := by
  induction values with
  | nil =>
    intro addr regs a _
    rfl
  | cons v vs ih =>
    intro addr regs a h
    have hfirst : a ≠ addr := by
      have hzero := h 0 (by simp)
      simpa using hzero
    rw [writeRegs, ih (addr + 1) _ a, Function.update_of_ne hfirst]
    intro k hk hak
    refine h (k + 1) (by simpa using hk) ?_
    rw [hak]
    bv_omega

theorem writeRegs_value (values : List U8) : ∀ (addr : U8) (regs : U8 → U8) (k : Nat),
    values.length ≤ 256 → k < values.length →
    writeRegs values addr regs (addr + BitVec.ofNat 8 k) = values.getD k 0 := by
  induction values with
  | nil =>
    intro addr regs k _ hk
    cases hk
  | cons v vs ih =>
    intro addr regs k hlen hk
    rw [List.length_cons] at hlen hk
    cases k with
    | zero =>
      have hkept : ∀ j < vs.length, addr + BitVec.ofNat 8 0 ≠ addr + 1 + BitVec.ofNat 8 j := by
        intro j hj
        bv_omega
      rw [writeRegs, writeRegs_other _ _ _ _ hkept]
      simp
    | succ k =>
      have hnext : addr + BitVec.ofNat 8 (k + 1) = addr + 1 + BitVec.ofNat 8 k := by
        bv_omega
      rw [writeRegs, hnext, ih _ _ k (by omega) (by omega), List.getD_cons_succ]

/-- The bit of the identifier that a bit of the four registers is; the others are the same
for all identifiers. -/
def origin (k j : Nat) : Option Nat :=
  if k = 0 then some (j + 6)
  else if k = 1 then (if j < 2 then some (j + 30) else if j < 5 then none else some (j - 2))
  else if k = 2 then some (j + 14)
  else some (j + 22)

/-- Where a bit of the identifier is moved to. -/
def place (i : Nat) : Nat × Nat :=
  if i < 6 then (1, i + 2) else if i < 14 then (0, i - 6) else if i < 22 then (2, i - 14)
  else if i < 30 then (3, i - 22) else (1, i - 30)

/-- Every one of the 29 bits has a place of its own. -/
theorem place_origin : ∀ i < 32, 3 ≤ i →
    (place i).1 < 4 ∧ (place i).2 < 8 ∧ origin (place i).1 (place i).2 = some i := by decide

theorem origin_range : ∀ k < 4, ∀ j < 8, ∀ i ∈ origin k j, 3 ≤ i ∧ i < 32 := by decide

theorem putEID_bit (id : U32) {k j : Nat} (hk : k < 4) (hj : j < 8) :
    ((mcpPutEID id).toList.getD k 0).getLsbD j =
      ((origin k j).map id.getLsbD).getD (decide (j = 3)) := by
  interval_cases k <;> interval_cases j <;> simp [mcpPutEID, origin, mcpRxfsidlExide]

/-- Identifiers agree under a mask if their registers do under those of the mask. -/
theorem agree_iff (id mask rx : U32) :
    (∀ k < 4, (mcpPutEID rx).toList.getD k 0 &&& (mcpPutEID mask).toList.getD k 0 =
      (mcpPutEID id).toList.getD k 0 &&& (mcpPutEID mask).toList.getD k 0) ↔
      rx &&& mask &&& ~~~0x00000007#32 = id &&& mask &&& ~~~0x00000007#32 := by
  have hhigh : ∀ i < 32, (~~~0x00000007#32).getLsbD i = decide (3 ≤ i) := by decide
  simp only [and_mask_iff, BitVec.and_assoc, BitVec.getLsbD_and]
  constructor
  · intro h i hi hm
    rw [Bool.and_eq_true, hhigh i hi, decide_eq_true_eq] at hm
    obtain ⟨hk, hj, horigin⟩ := place_origin i hi hm.2
    have hplace := h _ hk _ hj
    simp only [putEID_bit _ hk hj, horigin, Option.map_some, Option.getD_some] at hplace
    exact hplace hm.1
  · intro h k hk j hj hm
    rw [putEID_bit _ hk hj] at hm ⊢
    rw [putEID_bit _ hk hj]
    cases horigin : origin k j with
    | none => rfl
    | some i =>
      obtain ⟨hlow, hi⟩ := origin_range k hk j hj i horigin
      rw [horigin] at hm
      refine h i hi ?_
      rw [hhigh i hi, decide_eq_true hlow, Bool.and_true]
      exact hm

/-- Filter 0 holds the identifier and its mask. -/
theorem setFilter0_regs (id mask : U32) (m : Registers) {k : Nat} (hk : k < 4) :
    ((mcpSetFilter0 id mask).run registerFile m).2.regs (0x00#8 + BitVec.ofNat 8 k) =
        (mcpPutEID id).toList.getD k 0 ∧
      ((mcpSetFilter0 id mask).run registerFile m).2.regs (0x20#8 + BitVec.ofNat 8 k) =
        (mcpPutEID mask).toList.getD k 0 := by
  have hlen : ∀ v : U32, (mcpPutEID v).toList.length = 4 := fun v => Vector.length_toList
  have hregs : ((mcpSetFilter0 id mask).run registerFile m).2.regs =
      writeRegs (mcpPutEID mask).toList 0x20#8 (writeRegs (mcpPutEID id).toList 0x00#8 m.regs) := by
    rw [mcpSetFilter0, Spi.run_bind, run_writeMulti, run_writeMulti]
    rfl
  rw [hregs]
  constructor
  · rw [writeRegs_other]
    · exact writeRegs_value _ _ _ _ (by rw [hlen]; decide) (by rwa [hlen])
    · intro j hj
      rw [hlen] at hj
      bv_omega
  · exact writeRegs_value _ _ _ _ (by rw [hlen]; decide) (by rwa [hlen])

/-- The filter that is set accepts the identifiers that agree with `id` under the mask. -/
theorem filter_accepts (id mask rx : U32) (m : Registers) :
    ((mcpSetFilter0 id mask).run registerFile m).2.accepts (mcpPutEID rx) ↔
      rx &&& mask &&& ~~~0x00000007#32 = id &&& mask &&& ~~~0x00000007#32 := by
  rw [← agree_iff, Registers.accepts]
  refine forall₂_congr fun k hk => ?_
  rw [(setFilter0_regs id mask m hk).1, (setFilter0_regs id mask m hk).2]

end CANnuccia.AvrCan

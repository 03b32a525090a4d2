import CANnuccia.Frames
import CANnuccia.Receive

/-!
# How much of a frame a call of cnCANRecv returns

A length code has four bits, but a payload has eight bytes at most. Neither backend cuts
the code to that, so it is left to the caller not to ask for more.
-/
namespace CANnuccia.Lengths

open Util Mcp

/-- What a call returns, and writes to the places of `data`, for a frame with a length
code and a payload. -/
structure Cuts (maxLen dlc : Nat) (payload : Nat → U8) (ret : Int) (writes : Nat → U8 → Prop) :
    Prop where
  ret : ret = min (min maxLen dlc) 8
  writes : ∀ i b, writes i b ↔ i < min (min maxLen dlc) 8 ∧ b = payload i

/-- On STM32, for the frame in FIFO 0. -/
def Stm32Cuts (maxLen : U32) (c : Stm32Can.Can) : Prop :=
  let got := Stm32Can.cnCANRecv maxLen c
  Cuts maxLen.toNat c.dlc c.inbox.byte got.ret fun i b => (i, b) ∈ got.data

/-- On AVR, for the frame in a mailbox. -/
def AvrCuts (recvId : Bool) (maxLen : U16) (n : Fin 2) (m : Controller) : Prop :=
  let got := ((AvrCan.cnCANRecv recvId maxLen).run slave m).1
  Cuts maxLen.toNat (AvrCan.lengthCode (m.rxb n)) (AvrCan.payload (m.rxb n)) got.ret
    fun i b => got.data[i]? = some b

/-- A call that writes the first bytes of something. -/
theorem cuts_iff {maxLen dlc count : Nat} {payload reg : Nat → U8} {ret : Int}
    {writes : Nat → U8 → Prop} (h : ∀ i b, writes i b ↔ i < count ∧ b = reg i) :
    Cuts maxLen dlc payload ret writes ↔ ret = min (min maxLen dlc) 8 ∧
      count = min (min maxLen dlc) 8 ∧ ∀ i < count, reg i = payload i := by
  constructor
  · rintro ⟨hret, hwrites⟩
    have hall : ∀ i b, i < count ∧ b = reg i ↔ i < min (min maxLen dlc) 8 ∧ b = payload i :=
      fun i b => (h i b).symm.trans (hwrites i b)
    have hle : ¬ count < min (min maxLen dlc) 8 := fun hlt =>
      Nat.lt_irrefl count ((hall count (payload count)).mpr ⟨hlt, rfl⟩).1
    have hge : ¬ min (min maxLen dlc) 8 < count := fun hlt =>
      Nat.lt_irrefl _ ((hall _ (reg _)).mp ⟨hlt, rfl⟩).1
    exact ⟨hret, by omega, fun i hi => ((hall i (reg i)).mp ⟨hi, rfl⟩).2⟩
  · rintro ⟨hret, hcount, hsame⟩
    refine ⟨hret, fun i b => ?_⟩
    rw [h, ← hcount]
    constructor
    · rintro ⟨hi, rfl⟩
      exact ⟨hi, hsame i hi⟩
    · rintro ⟨hi, rfl⟩
      exact ⟨hi, (hsame i hi).symm⟩

theorem stm32Cuts_iff {maxLen : U32} {c : Stm32Can.Can}
    (hfull : c.rf0r &&& Stm32Can.canRfrFmp ≠ 0) :
    Stm32Cuts maxLen c ↔ c.dlc ≤ 8 ∨ maxLen.toNat ≤ 8 := by
  obtain ⟨hret, _, hdata⟩ := Stm32Can.recv_eq maxLen hfull
  have hwrites : ∀ i b, (i, b) ∈ (Stm32Can.cnCANRecv maxLen c).data ↔
      i < min (min maxLen.toNat c.dlc) 8 ∧ b = c.inbox.byte i := by
    intro i b
    rw [hdata, List.mem_map]
    constructor
    · rintro ⟨k, hk, hkb⟩
      cases hkb
      rw [List.mem_reverse, List.mem_range] at hk
      exact ⟨hk, rfl⟩
    · rintro ⟨hi, rfl⟩
      exact ⟨i, by rwa [List.mem_reverse, List.mem_range], rfl⟩
  rw [Stm32Cuts, cuts_iff hwrites, hret]
  simp only [implies_true, and_true, Nat.cast_inj]
  omega

/-- What a call returns and writes that takes some registers for a mailbox. -/
theorem received_cuts {maxLen : U16} {dlc : Nat} {recvId : Bool} {payload reg : Nat → U8} :
    Cuts maxLen.toNat dlc payload (AvrCan.received recvId maxLen reg).ret
        (fun i b => (AvrCan.received recvId maxLen reg).data[i]? = some b) ↔
      min (reg 4 &&& 0x0F#8).toNat maxLen.toNat = min (min maxLen.toNat dlc) 8 ∧
        ∀ i < min (reg 4 &&& 0x0F#8).toNat maxLen.toNat, reg (5 + i) = payload i := by
  have hwrites : ∀ i b, (AvrCan.received recvId maxLen reg).data[i]? = some b ↔
      i < min (reg 4 &&& 0x0F#8).toNat maxLen.toNat ∧ b = reg (5 + i) := by
    intro i b
    simp only [AvrCan.received, List.getElem?_map, Option.map_eq_some_iff,
      List.getElem?_eq_some_iff, List.getElem_range, List.length_range]
    constructor
    · rintro ⟨k, ⟨hi, rfl⟩, rfl⟩
      exact ⟨hi, rfl⟩
    · rintro ⟨hi, rfl⟩
      exact ⟨i, ⟨hi, rfl⟩, rfl⟩
  rw [cuts_iff hwrites]
  simp only [AvrCan.received, Nat.cast_inj]
  constructor
  · rintro ⟨_, hcount, hsame⟩
    exact ⟨hcount, hsame⟩
  · rintro ⟨hcount, hsame⟩
    exact ⟨hcount, hcount, hsame⟩

/-- A call that takes a mailbox's own registers. -/
theorem received_own {recvId : Bool} {maxLen : U16} {m : Controller} :
    Cuts maxLen.toNat (AvrCan.lengthCode (m.rxb 0)) (AvrCan.payload (m.rxb 0))
        (AvrCan.received recvId maxLen (AvrCan.readFrom m 0 0)).ret
        (fun i v => (AvrCan.received recvId maxLen (AvrCan.readFrom m 0 0)).data[i]? = some v) ↔
      AvrCan.lengthCode (m.rxb 0) ≤ 8 ∨ maxLen.toNat ≤ 8 := by
  have hcode : (AvrCan.readFrom m 0 0 4 &&& 0x0F#8).toNat = AvrCan.lengthCode (m.rxb 0) := by
    simp [AvrCan.readFrom, AvrCan.lengthCode]
  have hpayload : ∀ i < 8, AvrCan.readFrom m 0 0 (5 + i) = AvrCan.payload (m.rxb 0) i := by
    intro i hi
    rw [AvrCan.readFrom_register (by omega), AvrCan.payload, Nat.zero_add]
  rw [received_cuts, hcode]
  constructor
  · rintro ⟨hcount, _⟩
    omega
  · intro hlen
    exact ⟨by omega, fun i hi => hpayload i (by omega)⟩

theorem avrCuts_first {recvId : Bool} {maxLen : U16} {m : Controller} (h₀ : m.rxif 0 = true) :
    AvrCuts recvId maxLen 0 m ↔
      AvrCan.lengthCode (m.rxb 0) ≤ 8 ∨ maxLen.toNat ≤ 8 := by
  rw [AvrCuts, AvrCan.run_first h₀, received_own]

/-- The length and the bytes come out of the payload that is left in mailbox 0. -/
theorem avrCuts_second {recvId : Bool} {maxLen : U16} {m : Controller} (h₀ : m.rxif 0 = false)
    (h₁ : m.rxif 1 = true) :
    AvrCuts recvId maxLen 1 m ↔
      min (AvrCan.readFrom m 0 5 4 &&& 0x0F#8).toNat maxLen.toNat =
          min (min maxLen.toNat (AvrCan.lengthCode (m.rxb 1))) 8 ∧
        ∀ i < min (AvrCan.readFrom m 0 5 4 &&& 0x0F#8).toNat maxLen.toNat,
          AvrCan.readFrom m 0 5 (5 + i) = AvrCan.payload (m.rxb 1) i := by
  rw [AvrCuts, AvrCan.run_second h₀ h₁, received_cuts]

/-- A frame comes as long as it is, cut to what fits, exactly where its length code or the
place for it is not above eight. For a frame in mailbox 1 it does where the bytes that are
left in mailbox 0 happen to be its own. -/
theorem lengths_cut (recvId : Bool) (maxLen : U32) (maxLen' : U16) (c : Stm32Can.Can)
    (m : Controller) :
    (c.rf0r &&& Stm32Can.canRfrFmp ≠ 0 →
      (Stm32Cuts maxLen c ↔ c.dlc ≤ 8 ∨ maxLen.toNat ≤ 8)) ∧
    (m.rxif 0 = true → (AvrCuts recvId maxLen' 0 m ↔
      AvrCan.lengthCode (m.rxb 0) ≤ 8 ∨ maxLen'.toNat ≤ 8)) ∧
    (m.rxif 0 = false → m.rxif 1 = true → (AvrCuts recvId maxLen' 1 m ↔
      min (AvrCan.readFrom m 0 5 4 &&& 0x0F#8).toNat maxLen'.toNat =
          min (min maxLen'.toNat (AvrCan.lengthCode (m.rxb 1))) 8 ∧
        ∀ i < min (AvrCan.readFrom m 0 5 4 &&& 0x0F#8).toNat maxLen'.toNat,
          AvrCan.readFrom m 0 5 (5 + i) = AvrCan.payload (m.rxb 1) i)) :=
  ⟨stm32Cuts_iff, avrCuts_first, avrCuts_second⟩

/-- A frame in one receive mailbox of an AVR device, and what the other has. -/
def avrFull (n : Fin 2) (b other : Mailbox) : Controller :=
  { resetController with
    rxb := fun k => if k = n then b else other
    rxif := Function.update resetController.rxif n true }

/-- A frame of one byte, and payloads left in mailbox 0 from D4 on. -/
def oneByte : Mailbox := #v[0, 0x08, 0, 0, 1, 7, 0, 0, 0, 0, 0, 0, 0]
def leftOver : Mailbox := #v[0, 0x08, 0, 0, 8, 0, 0, 0, 0, 1, 7, 0, 0]

/-- The same with a length code of fifteen. -/
def longCode : Mailbox := #v[0, 0x08, 0, 0, 15, 7, 0, 0, 0, 0, 0, 0, 0]

theorem lengths_cut_one :
    Stm32Cuts 8 (Stm32Can.idleCan.pending ⟨0x00000004#32, 1, 7, 0⟩) ∧
      AvrCuts true 8 0 (avrFull 0 oneByte oneByte) ∧
      AvrCuts true 8 1 (avrFull 1 oneByte leftOver) := by
  have hstm32 := (lengths_cut true 8 8 (Stm32Can.idleCan.pending ⟨0x00000004#32, 1, 7, 0⟩)
    resetController).1 (by decide)
  have hfirst := (lengths_cut true 8 8 Stm32Can.idleCan (avrFull 0 oneByte oneByte)).2.1 rfl
  have hsecond := (lengths_cut true 8 8 Stm32Can.idleCan (avrFull 1 oneByte leftOver)).2.2 rfl rfl
  exact ⟨hstm32.mpr (.inl (by decide)), hfirst.mpr (.inl (by decide)),
    hsecond.mpr (by decide)⟩

/-- A frame whose length code is fifteen is reported to have as many bytes. -/
theorem lengths_long :
    ¬ Stm32Cuts 16 (Stm32Can.idleCan.pending ⟨0x00000004#32, 15, 7, 0⟩) ∧
      ¬ AvrCuts true 16 0 (avrFull 0 longCode oneByte) := by
  constructor
  · intro h
    have hret := h.ret
    revert hret
    decide
  · intro h
    have hret := h.ret
    revert hret
    decide

end CANnuccia.Lengths

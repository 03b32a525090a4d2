import CANnuccia.AvrCan

/-!
# Identifiers in registers and back

`mcpPutEID` and `mcpGetEID` disagree about the place of eleven bits: neither undoes the
other.
-/
namespace CANnuccia.AvrCan

open Util CanMsgs Mcp

/-- Where the bits of an identifier come from after encoding and decoding. -/
theorem getEID_putEID (id : U32) : mcpGetEID (mcpPutEID id) =
    (id &&& 0xFFFFC000#32) ||| ((id >>> 3) &&& 0x000007FF#32) := by
  apply BitVec.eq_of_getLsbD_eq
  intro i hi
  interval_cases i <;> simp [mcpGetEID, mcpPutEID, mcpRxfsidlExide]

/-- Bits 3 to 13 come back if each is the one three above it, and the last three if they
are zero. -/
theorem getEID_putEID_iff (id : U32) :
    mcpGetEID (mcpPutEID id) >>> 3 = id >>> 3 ↔ id &&& 0x00003FF8#32 = 0 := by
  rw [getEID_putEID]
  constructor
  · intro h
    have hbit : ∀ i < 11, id.getLsbD (i + 3) = (decide (i < 8) && id.getLsbD (i + 6)) := by
      intro i hi
      have hi' := congrArg (fun v => v.getLsbD i) h
      interval_cases i <;> simpa using hi'.symm
    have hzero : ∀ n i, i < 11 → 11 - i ≤ n → id.getLsbD (i + 3) = false := by
      intro n
      induction n with
      | zero =>
        intro i hi hn
        omega
      | succ n ih =>
        intro i hi hn
        rw [hbit i hi]
        by_cases hlow : i < 8
        · rw [ih (i + 3) (by omega) (by omega), Bool.and_false]
        · rw [decide_eq_false hlow, Bool.false_and]
    apply BitVec.eq_of_getLsbD_eq
    intro i hi
    have hi' := fun hlow => hzero 11 (i - 3) hlow (by omega)
    interval_cases i <;> simp at hi' <;> simp [hi']
  · intro h
    have hzero : ∀ i < 11, id.getLsbD (i + 3) = false := by
      intro i hi
      have hi' := congrArg (fun v => v.getLsbD (i + 3)) h
      interval_cases i <;> simpa using hi'
    apply BitVec.eq_of_getLsbD_eq
    intro i hi
    have hi' := hzero i
    have hi₃ := hzero (i + 3)
    interval_cases i <;> simp at hi' hi₃ <;> simp [hi', hi₃]

theorem getEID_putEID_kind_iff (id : U32) :
    mcpGetEID (mcpPutEID id) &&& cnCanMsgidMask = id &&& cnCanMsgidMask ↔
      id &&& 0x00003000#32 = 0 := by
  rw [getEID_putEID]
  constructor
  · intro h
    apply BitVec.eq_of_getLsbD_eq
    intro i hi
    have hi' := congrArg (fun v => v.getLsbD i) h
    clear h
    interval_cases i <;> simp_all [cnCanMsgidMask]
  · intro h
    apply BitVec.eq_of_getLsbD_eq
    intro i hi
    have hi' := congrArg (fun v => v.getLsbD i) h
    clear h
    interval_cases i <;> simp_all [cnCanMsgidMask]

/-- Bits 5 to 7 of SIDL are lost, and bits 0 to 2 of SIDH come in their place. -/
theorem putEID_getEID (regs : Eid) : mcpPutEID (mcpGetEID regs) =
    #v[regs.sidh >>> 3, 0x08#8 ||| (regs.sidh <<< 5) ||| (regs.sidl &&& 0x03#8), regs.eid8,
      regs.eid0] := by
  have hsidh : ((mcpGetEID regs &&& 0x00003FC0#32) >>> 6).setWidth 8 = regs.sidh >>> 3 := by
    apply BitVec.eq_of_getLsbD_eq
    intro i hi
    interval_cases i <;> simp [mcpGetEID]
  have heid8 : ((mcpGetEID regs &&& 0x003FC000#32) >>> 14).setWidth 8 = regs.eid8 := by
    apply BitVec.eq_of_getLsbD_eq
    intro i hi
    interval_cases i <;> simp [mcpGetEID]
  have heid0 : ((mcpGetEID regs &&& 0x3FC00000#32) >>> 22).setWidth 8 = regs.eid0 := by
    apply BitVec.eq_of_getLsbD_eq
    intro i hi
    interval_cases i <;> simp [mcpGetEID]
  have hsidl : ((((0x08#8 : U8).setWidth 32 ||| (mcpGetEID regs &&& 0xC0000000#32) >>> 30).setWidth
      8).setWidth 32 ||| (mcpGetEID regs &&& 0x00000038#32) <<< 2).setWidth 8 =
      0x08#8 ||| (regs.sidh <<< 5) ||| (regs.sidl &&& 0x03#8) := by
    apply BitVec.eq_of_getLsbD_eq
    intro i hi
    interval_cases i <;> simp [mcpGetEID]
  apply Vector.ext
  intro i hi
  match i, hi with
  | 0, _ => exact hsidh
  | 1, _ => exact hsidl
  | 2, _ => exact heid8
  | 3, _ => exact heid0

/-- The same registers, bits 2 and 4 of SIDL apart, which no filter or mailbox uses. -/
structure SameEid (a b : Eid) : Prop where
  sidh : a.sidh = b.sidh
  sidl : a.sidl &&& 0xEB#8 = b.sidl &&& 0xEB#8
  eid8 : a.eid8 = b.eid8
  eid0 : a.eid0 = b.eid0

theorem putEID_getEID_iff {regs : Eid} (hexide : regs.sidl &&& mcpRxfsidlExide ≠ 0) :
    SameEid (mcpPutEID (mcpGetEID regs)) regs ↔ regs.sidh = 0 ∧ regs.sidl &&& 0xE0#8 = 0 := by
  have hsidh : ∀ b : U8, b >>> 3 = b ↔ b = 0 := by decide
  have hsidl : ∀ b : U8, b &&& mcpRxfsidlExide ≠ 0 →
      ((0x08#8 ||| ((0 : U8) <<< 5) ||| (b &&& 0x03#8)) &&& 0xEB#8 = b &&& 0xEB#8 ↔ b &&& 0xE0#8 = 0) := by
    decide
  rw [putEID_getEID]
  constructor
  · intro h
    have hzero := (hsidh regs.sidh).mp h.sidh
    have hlow : (0x08#8 ||| (regs.sidh <<< 5) ||| (regs.sidl &&& 0x03#8)) &&& 0xEB#8 =
        regs.sidl &&& 0xEB#8 := h.sidl
    rw [hzero, hsidl _ hexide] at hlow
    exact ⟨hzero, hlow⟩
  · rintro ⟨hzero, hlow⟩
    have hsame : (0x08#8 ||| (regs.sidh <<< 5) ||| (regs.sidl &&& 0x03#8)) &&& 0xEB#8 =
        regs.sidl &&& 0xEB#8 := by
      rw [hzero, hsidl _ hexide]
      exact hlow
    exact ⟨(hsidh regs.sidh).mpr hzero, hsame, rfl, rfl⟩

/-- Decoding undoes encoding exactly where bits 3 to 13 are zero, and keeps the kind
exactly where bits 12 and 13 are. Encoding undoes decoding exactly where SIDH and the
identifier bits next to it are zero. -/
theorem codec_round_trip (id : U32) {regs : Eid} (hexide : regs.sidl &&& mcpRxfsidlExide ≠ 0) :
    (mcpGetEID (mcpPutEID id) >>> 3 = id >>> 3 ↔ id &&& 0x00003FF8#32 = 0) ∧
    (mcpGetEID (mcpPutEID id) &&& cnCanMsgidMask = id &&& cnCanMsgidMask ↔
      id &&& 0x00003000#32 = 0) ∧
    (SameEid (mcpPutEID (mcpGetEID regs)) regs ↔ regs.sidh = 0 ∧ regs.sidl &&& 0xE0#8 = 0) :=
  ⟨getEID_putEID_iff id, getEID_putEID_kind_iff id, putEID_getEID_iff hexide⟩

/-- The registers of the identifier 0xCA000004 come back. -/
theorem codec_round_trip_zero :
    mcpGetEID (mcpPutEID 0xCA000004#32) >>> 3 = 0xCA000004#32 >>> 3 ∧
      SameEid (mcpPutEID (mcpGetEID #v[0x00#8, 0x0B#8, 0x00#8, 0x28#8]))
        #v[0x00#8, 0x0B#8, 0x00#8, 0x28#8] := by
  have h := @codec_round_trip 0xCA000004#32 #v[0x00#8, 0x0B#8, 0x00#8, 0x28#8] (by decide)
  exact ⟨h.1.mpr (by decide), h.2.2.mpr (by decide)⟩

/-- A PROG_REQ to device 42 comes back as no message at all, and registers with a SIDH as
others. -/
theorem codec_drifts :
    mcpGetEID (mcpPutEID 0xCA0012A4#32) &&& cnCanMsgidMask ≠ cnCanMsgProgReq ∧
      mcpGetEID (mcpPutEID 0xCA0012A4#32) >>> 3 ≠ 0xCA0012A4#32 >>> 3 ∧
      ¬ SameEid (mcpPutEID (mcpGetEID #v[0x4A#8, 0x8B#8, 0x00#8, 0x28#8]))
        #v[0x4A#8, 0x8B#8, 0x00#8, 0x28#8] := by
  refine ⟨by decide, by decide, fun h => ?_⟩
  exact absurd h.sidh (by decide)

end CANnuccia.AvrCan

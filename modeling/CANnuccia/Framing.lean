import CANnuccia.AvrCan

/-!
# The frame that the AVR backend sends

The length that a message is cut to governs its length code, the bytes that are copied
and the value returned.
-/
namespace CANnuccia.AvrCan

open Util CanMsgs Mcp

theorem copy_reads (data : Nat → U8) (is : List Nat) : ∀ s : SendBuffer,
    (is.foldl (SendBuffer.copy data) s).reads = s.reads ++ is := by
  induction is with
  | nil =>
    intro s
    rw [List.append_nil]
    rfl
  | cons i is ih =>
    intro s
    have hfirst : (s.copy data i).reads = s.reads ++ [i] := rfl
    rw [List.foldl_cons, ih, hfirst, List.append_assoc, List.singleton_append]

theorem copy_writes (data : Nat → U8) (is : List Nat) : ∀ s : SendBuffer,
    (is.foldl (SendBuffer.copy data) s).writes =
      s.writes ++ is.map fun i => (5#16 + BitVec.ofNat 16 i).toNat := by
  induction is with
  | nil =>
    intro s
    rw [List.map_nil, List.append_nil]
    rfl
  | cons i is ih =>
    intro s
    have hfirst : (s.copy data i).writes =
        s.writes ++ [(5#16 + BitVec.ofNat 16 i).toNat] := rfl
    rw [List.foldl_cons, ih, hfirst, List.append_assoc, List.singleton_append, List.map_cons]

theorem fillBuffer_reads (id : U32) (len : U16) (data : Nat → U8) :
    (fillBuffer id len data).reads = List.range len.toNat := by
  rw [fillBuffer, copy_reads]
  split <;> rfl

theorem mem_fillBuffer_writes {id : U32} {len : U16} {data : Nat → U8} {i : Nat}
    (hi : i < len.toNat) :
    (5#16 + BitVec.ofNat 16 i).toNat ∈ (fillBuffer id len data).writes := by
  rw [fillBuffer, copy_writes]
  exact List.mem_append_right _ (List.mem_map_of_mem (List.mem_range.mpr hi))

/-- The length that is meant. -/
def sentLen (len : U16) : Nat := min len.toNat 8

theorem eight_toNat : (8 : U16).toNat = 8 := rfl

/-- The cap takes the larger one. -/
theorem capLen_toNat (len : U16) : (capLen len).toNat = max len.toNat 8 := by
  rw [capLen]
  split
  · rename_i hlong
    rw [gt_iff_lt, BitVec.lt_def, eight_toNat] at hlong
    omega
  · rename_i hshort
    rw [gt_iff_lt, BitVec.lt_def, eight_toNat] at hshort
    rw [eight_toNat]
    omega

/-- What a call returned, the mailbox it loaded and its buffer frame the message. -/
structure Framed (id : U32) (len : U16) (data : Nat → U8) (ret : Int) (b : Mailbox)
    (s : SendBuffer) : Prop where
  dlc : b.dlc &&& 0x0F#8 = BitVec.ofNat 8 (sentLen len)
  rtr : b.dlc &&& mcpBdlcRtr ≠ 0 ↔ id &&& cnCanRtr ≠ 0
  payload : ∀ i < sentLen len, b.toList[5 + i]? = some (data i)
  ret : ret = sentLen len
  reads : ∀ i ∈ s.reads, i < sentLen len
  writes : ∀ i ∈ s.writes, i ≤ 12

/-- A call requests a mailbox to be sent that holds its message. -/
def Frames (id : U32) (len : U16) (data : Nat → U8) (m : Controller) : Prop :=
  let called := (cnCANSend id len data).run slave m
  ∃ n, m.txreq n = false ∧ called.2.txreq n = true ∧
    Framed id len data called.1 (called.2.txb n) (fillBuffer id (capLen len) data)

/-- The last byte that the loop reads has to be one of the message. -/
theorem Framed.len_eq {id : U32} {len : U16} {data : Nat → U8} {ret : Int} {b : Mailbox}
    (h : Framed id len data ret b (fillBuffer id (capLen len) data)) : len = 8 := by
  have hcap := capLen_toNat len
  have hlast := h.reads ((capLen len).toNat - 1) (by
    rw [fillBuffer_reads, List.mem_range]
    omega)
  rw [sentLen] at hlast
  have hlen : len.toNat = (8 : U16).toNat := by
    rw [eight_toNat]
    omega
  exact BitVec.eq_of_toNat_eq hlen

/-- Eight bytes are the length that no cap changes. -/
theorem framed_eight (id : U32) (data : Nat → U8) :
    Framed id 8 data 8 (fillBuffer id 8 data).buffer (fillBuffer id 8 data) := by
  rw [fillBuffer_eight]
  refine ⟨?_, ?_, ?_, rfl, ?_, ?_⟩
  · show (if id &&& cnCanRtr ≠ 0 then 0x48#8 else 0x08#8) &&& 0x0F#8 = 8
    split_ifs <;> rfl
  · show (if id &&& cnCanRtr ≠ 0 then 0x48#8 else 0x08#8) &&& mcpBdlcRtr ≠ 0 ↔ _
    by_cases hrtr : id &&& cnCanRtr ≠ 0
    · rw [if_pos hrtr, iff_true_right hrtr]
      decide
    · rw [if_neg hrtr, iff_false_right hrtr]
      decide
  · intro i hi
    have hlane : i < 8 := hi
    interval_cases i <;> rfl
  · intro i hi
    simp only [List.mem_cons, List.not_mem_nil, or_false] at hi
    have hlt : i < 8 := by omega
    exact hlt
  · intro i hi
    split_ifs at hi <;> simp at hi <;> omega

/-- Messages with more than eight bytes are written past the end of the buffer. -/
theorem overflow_iff (id : U32) (len : U16) (data : Nat → U8) :
    (∃ i ∈ (fillBuffer id (capLen len) data).writes, 12 < i) ↔ 8 < len := by
  have hcap := capLen_toNat len
  constructor
  · rintro ⟨i, hi, hpast⟩
    by_contra hshort
    rw [capLen_short (BitVec.not_lt.mp hshort)] at hi
    have hinside := (framed_eight id data).writes i hi
    omega
  · intro hlong
    rw [BitVec.lt_def, eight_toNat] at hlong
    exact ⟨13, mem_fillBuffer_writes (i := 8) (by omega), by decide⟩

/-- A message is framed exactly if it has eight bytes. -/
theorem frames_iff {id : U32} {len : U16} {data : Nat → U8} {m : Controller}
    (hfree : ∃ n, m.txreq n = false) : Frames id len data m ↔ len = 8 := by
  constructor
  · rintro ⟨n, _, _, hframed⟩
    exact hframed.len_eq
  · rintro rfl
    obtain ⟨n, hstatus, hn⟩ := freeMailbox_exists hfree
    have hcap : capLen 8 = 8 := rfl
    refine ⟨n, hn, ?_, ?_⟩
    · rw [send_run hstatus]
      exact Function.update_self ..
    · simp only [send_run hstatus, hcap, Function.update_self]
      exact framed_eight id data

/-- A frame of eight bytes. -/
theorem frames_iff_eight :
    Frames 0xCB0012A4#32 8 (fun i => BitVec.ofNat 8 i) resetController :=
  (frames_iff ⟨0, rfl⟩).mpr rfl

/-- A PROG_REQ_RESP, an answer without a payload and a message that is too long. -/
theorem frames_others :
    ¬ Frames 0xCB0012A4#32 5 (fun i => BitVec.ofNat 8 i) resetController ∧
    ¬ Frames 0xCB0032A4#32 0 (fun _ => 0) resetController ∧
    ¬ Frames 0xCB0012A4#32 9 (fun i => BitVec.ofNat 8 i) resetController := by
  refine ⟨?_, ?_, ?_⟩ <;>
  · rintro ⟨n, _, _, hframed⟩
    exact absurd hframed.len_eq (by decide)

end CANnuccia.AvrCan

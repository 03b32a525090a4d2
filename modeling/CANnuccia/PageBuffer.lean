import CANnuccia.Pump
import CANnuccia.Overlay

/-!
# The page buffer

SEEK and WRITE move the write head and fill the buffer; neither touches the
selected page, and the head never leaves the buffer.
-/
namespace CANnuccia.Pump

open Util CanMsgs Overlay

variable {B : Backend}

@[simp] theorem seek_addr (data : List U8) (p : Page B) : (seek data p).addr = p.addr := by
  unfold seek
  dsimp only
  split_ifs <;> rfl

@[simp] theorem write_addr (bs : List U8) (p : Page B) : (write bs p).addr = p.addr := by
  induction bs generalizing p with
  | nil => rfl
  | cons b bs ih =>
    rw [write]
    split
    · rw [ih]
    · rfl

/-- Two messages fill the buffer like one. -/
theorem write_append (as bs : List U8) (p : Page B) :
    write (as ++ bs) p = write bs (write as p) := by
  induction as generalizing p with
  | nil => rfl
  | cons a as ih =>
    rw [List.cons_append, write, write]
    split
    · exact ih _
    · rename_i hfull
      cases bs with
      | nil => rfl
      | cons b bs => rw [write, dif_neg hfull]

/-- A WRITE lays its bytes over the buffer from the head on, as far as they fit, and
moves the head behind them. -/
theorem write_spec (bs : List U8) (p : Page B)
    (ho : p.writeOffset.toNat ≤ B.cnFlashPageSize.toNat) :
    (write bs p).writes.toList = lay p.writes.toList p.writeOffset.toNat bs ∧
      (write bs p).writeOffset.toNat =
        min (p.writeOffset.toNat + bs.length) B.cnFlashPageSize.toNat := by
  induction bs generalizing p with
  | nil => simp [write, ho]
  | cons b bs ih =>
    rw [write]
    split
    · rename_i hlt
      rw [BitVec.lt_def] at hlt
      have hmax := B.cnFlashPageSize.isLt
      have hnext : (p.writeOffset + 1).toNat = p.writeOffset.toNat + 1 := by
        have hone : (1 : BitVec B.w).toNat = 1 % 2 ^ B.w := rfl
        rw [BitVec.toNat_add, hone, Nat.add_mod_mod]
        exact Nat.mod_eq_of_lt (by omega)
      obtain ⟨hbytes, hhead⟩ := ih { p with
        writes := p.writes.set p.writeOffset.toNat b hlt
        writeOffset := p.writeOffset + 1 } (by simp only [hnext]; omega)
      rw [hbytes, hhead, hnext, Vector.toList_set, lay_cons _ _ _ (by simpa using hlt),
        List.length_cons]
      exact ⟨rfl, by rw [Nat.add_assoc, Nat.add_comm 1]⟩
    · rename_i hfull
      rw [BitVec.lt_def] at hfull
      have hlen : p.writes.toList.length = B.cnFlashPageSize.toNat := Vector.length_toList
      rw [lay_full _ _ (by omega)]
      exact ⟨rfl, by omega⟩

/-- A whole page written from the start of the buffer replaces it. -/
theorem write_all {bs : List U8} {p : Page B} (ho : p.writeOffset.toNat = 0)
    (hlen : bs.length = B.cnFlashPageSize.toNat) : (write bs p).writes.toList = bs := by
  rw [(write_spec bs p (by omega)).1, ho]
  exact lay_all _ _ (by rw [hlen, Vector.length_toList])

end CANnuccia.Pump

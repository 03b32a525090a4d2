import CANnuccia.Select

/-!
# The bounds of cnFlashFill

Both drivers copy two bytes a turn, counted by `bytesWritten`. Only the AVR driver tests for
the end of the page, and neither for a last byte that is alone.
-/
namespace CANnuccia

open Util

variable {w : Nat}

/-- A turn reads two bytes of the data from index `src` on and stores them at `addr`. -/
structure Turn (w : Nat) where
  src : Nat
  addr : BitVec w

def Turn.reads (u : Turn w) : List Nat := [u.src, u.src + 1]

/-- The turns of a copy loop that goes on while `go` holds of `bytesWritten`, for at most
`fuel` tests. A store at an address that `bus` refuses is a bus error. -/
def copyTurns (go bus : BitVec w → Bool) :
    Nat → BitVec w → Nat → BitVec w → Option (BitVec w × List (Turn w))
  | 0, _, _, _ => none
  | fuel + 1, bytesWritten, src, addr =>
    if go bytesWritten then
      if bus addr then
        (copyTurns go bus fuel (bytesWritten + 2) (src + 2) (addr + 2)).map fun r =>
          (r.1, ⟨src, addr⟩ :: r.2)
      else none
    else some (bytesWritten, [])

variable {go bus : BitVec w → Bool} {fuel src : Nat} {b a n : BitVec w} {ts : List (Turn w)}

theorem copyTurns_end (hgo : go b = false) : copyTurns go bus (fuel + 1) b src a = some (b, []) := by
  rw [copyTurns, hgo]
  rfl

theorem copyTurns_turn (hgo : go b = true) (hbus : bus a = true) :
    copyTurns go bus (fuel + 1) b src a =
      (copyTurns go bus fuel (b + 2) (src + 2) (a + 2)).map fun r => (r.1, ⟨src, a⟩ :: r.2) := by
  rw [copyTurns, if_pos hgo, if_pos hbus]

theorem copyTurns_bus (hgo : go b = true) (hbus : bus a = false) :
    copyTurns go bus fuel b src a = none := by
  cases fuel with
  | zero => rfl
  | succ fuel => rw [copyTurns, hgo, hbus]; rfl

/-- A loop that ended had failed its test, or made a turn and went on. -/
theorem copyTurns_cases (h : copyTurns go bus fuel b src a = some (n, ts)) :
    ∃ k, fuel = k + 1 ∧ ((go b = false ∧ n = b ∧ ts = []) ∨
      (go b = true ∧ bus a = true ∧ ∃ us, ts = ⟨src, a⟩ :: us ∧
        copyTurns go bus k (b + 2) (src + 2) (a + 2) = some (n, us))) := by
  cases fuel with
  | zero => cases h
  | succ k =>
    refine ⟨k, rfl, ?_⟩
    cases hgo : go b with
    | false =>
      rw [copyTurns_end hgo] at h
      cases h
      exact .inl ⟨rfl, rfl, rfl⟩
    | true =>
      cases hbus : bus a with
      | false =>
        rw [copyTurns_bus hgo hbus] at h
        cases h
      | true =>
        rw [copyTurns_turn hgo hbus, Option.map_eq_some_iff] at h
        obtain ⟨⟨n, us⟩, hrest, heq⟩ := h
        cases heq
        exact .inr ⟨rfl, rfl, us, rfl, hrest⟩

/-- More tests than are made change nothing. -/
theorem copyTurns_more {fuel' : Nat} (hfuel : fuel ≤ fuel')
    (h : copyTurns go bus fuel b src a = some (n, ts)) :
    copyTurns go bus fuel' b src a = some (n, ts) := by
  induction fuel generalizing fuel' b src a ts with
  | zero => cases h
  | succ fuel ih =>
    obtain ⟨k, hk, hcases⟩ := copyTurns_cases h
    obtain ⟨fuel', rfl⟩ : ∃ k, fuel' = k + 1 := ⟨fuel' - 1, by omega⟩
    cases hk
    rcases hcases with ⟨hgo, rfl, rfl⟩ | ⟨hgo, hbus, us, rfl, hrest⟩
    · exact copyTurns_end hgo
    · rw [copyTurns_turn hgo hbus, ih (by omega) hrest]
      rfl

theorem add_next (b : BitVec w) (j : Nat) :
    b + 2 + BitVec.ofNat w (2 * j) = b + BitVec.ofNat w (2 * (j + 1)) := by
  have hsum : (2 : BitVec w) + BitVec.ofNat w (2 * j) = BitVec.ofNat w (2 * (j + 1)) := by
    rw [show 2 * (j + 1) = 2 + 2 * j by omega, BitVec.ofNat_add]
    rfl
  rw [BitVec.add_assoc, hsum]

theorem add_zero_turns (b : BitVec w) : b + BitVec.ofNat w (2 * 0) = b := BitVec.add_zero b

/-- `m` turns in a row. -/
def turnsFrom (src : Nat) (a : BitVec w) (m : Nat) : List (Turn w) :=
  (List.range m).map fun j => ⟨src + 2 * j, a + BitVec.ofNat w (2 * j)⟩

theorem turnsFrom_succ (src : Nat) (a : BitVec w) (m : Nat) :
    turnsFrom src a (m + 1) = ⟨src, a⟩ :: turnsFrom (src + 2) (a + 2) m := by
  rw [turnsFrom, turnsFrom, List.range_succ_eq_map, List.map_cons, List.map_map]
  congr 1
  · rw [Nat.mul_zero, Nat.add_zero, BitVec.add_zero]
  · refine List.map_congr_left fun j _ => ?_
    rw [add_next, Function.comp, Nat.succ_eq_add_one, show src + 2 + 2 * j = src + 2 * (j + 1) by omega]

/-- The loop ends at the first test that fails. The induction is on the turns before. -/
theorem copyTurns_spec {m : Nat} (hfuel : m < fuel)
    (hturns : ∀ j < m, go (b + BitVec.ofNat w (2 * j)) = true ∧ bus (a + BitVec.ofNat w (2 * j)) = true)
    (hend : go (b + BitVec.ofNat w (2 * m)) = false) :
    copyTurns go bus fuel b src a = some (b + BitVec.ofNat w (2 * m), turnsFrom src a m) := by
  induction m generalizing fuel b src a with
  | zero =>
    obtain ⟨fuel, rfl⟩ : ∃ k, fuel = k + 1 := ⟨fuel - 1, by omega⟩
    rw [add_zero_turns] at hend ⊢
    exact copyTurns_end hend
  | succ m ih =>
    obtain ⟨fuel, rfl⟩ : ∃ k, fuel = k + 1 := ⟨fuel - 1, by omega⟩
    have hfirst := hturns 0 (by omega)
    rw [add_zero_turns, add_zero_turns] at hfirst
    have hrest : copyTurns go bus fuel (b + 2) (src + 2) (a + 2) =
        some (b + 2 + BitVec.ofNat w (2 * m), turnsFrom (src + 2) (a + 2) m) := by
      apply ih (by omega)
      · intro j hj
        rw [add_next, add_next]
        exact hturns (j + 1) (by omega)
      · rw [add_next]
        exact hend
    rw [copyTurns_turn hfirst.1 hfirst.2, hrest, turnsFrom_succ, add_next]
    rfl

/-- Every turn is made whose test is passed, and those of the turns before. -/
theorem copyTurns_mem {m : Nat} (h : copyTurns go bus fuel b src a = some (n, ts))
    (hgo : ∀ j ≤ m, go (b + BitVec.ofNat w (2 * j)) = true) :
    ⟨src + 2 * m, a + BitVec.ofNat w (2 * m)⟩ ∈ ts := by
  induction m generalizing fuel b src a ts with
  | zero =>
    have hfirst := hgo 0 (Nat.le_refl 0)
    rw [add_zero_turns] at hfirst ⊢
    obtain ⟨k, -, ⟨hstop, -, -⟩ | ⟨-, -, us, rfl, -⟩⟩ := copyTurns_cases h
    · rw [hfirst] at hstop
      cases hstop
    · exact List.mem_cons_self ..
  | succ m ih =>
    have hfirst := hgo 0 (Nat.zero_le _)
    rw [add_zero_turns] at hfirst
    obtain ⟨k, -, ⟨hstop, -, -⟩ | ⟨-, -, us, rfl, hrest⟩⟩ := copyTurns_cases h
    · rw [hfirst] at hstop
      cases hstop
    · have hmem := ih hrest fun j hj => by
        rw [add_next]
        exact hgo (j + 1) (by omega)
      rw [add_next, show src + 2 + 2 * m = src + 2 * (m + 1) by omega] at hmem
      exact List.mem_cons_of_mem _ hmem

/-- A loop whose test never fails does not end. -/
theorem copyTurns_endless (hgo : ∀ j, go (b + BitVec.ofNat w (2 * j)) = true) :
    copyTurns go bus fuel b src a = none := by
  rw [Option.eq_none_iff_forall_ne_some]
  rintro ⟨n, ts⟩ h
  induction fuel generalizing b src a ts with
  | zero => cases h
  | succ fuel ih =>
    have hfirst := hgo 0
    rw [add_zero_turns] at hfirst
    obtain ⟨k, hk, ⟨hstop, -, -⟩ | ⟨-, -, us, -, hrest⟩⟩ := copyTurns_cases h
    · rw [hfirst] at hstop
      cases hstop
    · cases hk
      exact ih (fun j => by rw [add_next]; exact hgo (j + 1)) us hrest

namespace Stm32Flash

/-- The test of the loop. -/
def goesOn (size bytesWritten : U32) : Bool := decide (bytesWritten < size)

/-- Only whole half words can be stored into flash. -/
def halfWord (dest : U32) : Bool := decide (dest.toNat % 2 = 0)

/-- The turns of `cnFlashFill`, and what it returns. -/
def fillTurns (fuel : Nat) (offset size : U32) (f : Flash) : Option (U32 × List (Turn 32)) :=
  if f.curPageAddr = 0 then some (0, [])
  else copyTurns (goesOn size) halfWord fuel 0 0 (f.curPageAddr + offset)

def stores (u : Turn 32) : List Nat := [u.addr.toNat, u.addr.toNat + 1]

def storeTurn (data : Nat → U8) (f : Flash) (u : Turn 32) : Flash :=
  (waitForFlash f).storeHW u.addr (word (data u.src) (data (u.src + 1)))

theorem fillLoop_turns {size : U32} (data : Nat → U8) {fuel src : Nat} {b dest n : U32}
    {ts : List (Turn 32)} (h : copyTurns (goesOn size) halfWord fuel b src dest = some (n, ts))
    (f : Flash) : fillLoop size data fuel b src dest f =
      some (n, waitForFlash (ts.foldl (storeTurn data) f)) := by
  induction fuel generalizing b src dest ts f with
  | zero => cases h
  | succ fuel ih =>
    obtain ⟨k, hk, ⟨hstop, rfl, rfl⟩ | ⟨hgo, -, us, rfl, hrest⟩⟩ := copyTurns_cases h
    · rw [fillLoop, if_neg (of_decide_eq_false hstop)]
      rfl
    · cases hk
      rw [fillLoop, if_pos (of_decide_eq_true hgo), ih hrest]
      rfl

/-- The turns make up the driver's function, where no store is a bus error. -/
theorem cnFlashFill_turns {offset size n : U32} {f : Flash} {fuel : Nat} {ts : List (Turn 32)}
    (hopen : f.curPageAddr ≠ 0) (hfuel : fuel ≤ size.toNat + 1)
    (h : fillTurns fuel offset size f = some (n, ts)) (data : Nat → U8) :
    cnFlashFill offset size data f = some (n, waitForFlash (ts.foldl (storeTurn data) f)) := by
  rw [fillTurns, if_neg hopen] at h
  rw [cnFlashFill, if_neg hopen, fillLoop_turns data (copyTurns_more hfuel h)]

end Stm32Flash

namespace AvrFlash

/-- The test of the loop. -/
def goesOn (offset size bytesWritten : U16) : Bool :=
  decide (bytesWritten < size ∧ bytesWritten + offset < cnFlashPageSize)

/-- The turns of `cnFlashFill`, and what it returns. -/
def fillTurns (fuel : Nat) (offset size : U16) (f : Flash) : Option (U16 × List (Turn 16)) :=
  if f.curPageAddr = 0 then some (0, [])
  else copyTurns (goesOn offset size) (fun _ => true) fuel 0 0 (f.curPageAddr + offset)

/-- The bytes of the page that the filled word of the temporary buffer is for. -/
def stores (f : Flash) (u : Turn 16) : List Nat :=
  let a := pageBase f.curPageAddr + u.addr.toNat % 128 / 2 * 2
  [a, a + 1]

def storeTurn (data : Nat → U8) (f : Flash) (u : Turn 16) : Flash :=
  bootPageFillSafe u.addr (word (data u.src) (data (u.src + 1))) f

theorem fillLoop_turns {offset size : U16} (data : Nat → U8) {fuel src : Nat} {b addr n : U16}
    {ts : List (Turn 16)}
    (h : copyTurns (goesOn offset size) (fun _ => true) fuel b src addr = some (n, ts)) (f : Flash) :
    fillLoop offset size data fuel b src addr f = some (n, ts.foldl (storeTurn data) f) := by
  induction fuel generalizing b src addr ts f with
  | zero => cases h
  | succ fuel ih =>
    obtain ⟨k, hk, ⟨hstop, rfl, rfl⟩ | ⟨hgo, -, us, rfl, hrest⟩⟩ := copyTurns_cases h
    · rw [fillLoop, if_neg (of_decide_eq_false hstop)]
      rfl
    · cases hk
      rw [fillLoop, if_pos (of_decide_eq_true hgo), ih hrest]
      rfl

theorem cnFlashFill_turns {offset size n : U16} {f : Flash} {fuel : Nat} {ts : List (Turn 16)}
    (hopen : f.curPageAddr ≠ 0) (hfuel : fuel ≤ 65)
    (h : fillTurns fuel offset size f = some (n, ts)) (data : Nat → U8) :
    cnFlashFill offset size data f = some (n, ts.foldl (storeTurn data) f) := by
  rw [fillTurns, if_neg hopen] at h
  rw [cnFlashFill, if_neg hopen, fillLoop_turns data (copyTurns_more hfuel h)]

end AvrFlash

/-- No byte of the data is read at `size` or beyond, the stores are in the range that was
asked for and in the page, and they are counted. -/
structure Contained (page offset size pageSize n : Nat) (reads stores : List Nat) : Prop where
  reads : ∀ i ∈ reads, i < size
  range : ∀ a ∈ stores, page + offset ≤ a ∧ a < page + offset + size
  page : ∀ a ∈ stores, page ≤ a ∧ a < page + pageSize
  count : n = stores.length

def Target.curPageAddr : (t : Target) → t.backend.flash.Flash → BitVec t.backend.w
  | .stm32 => Stm32Flash.Flash.curPageAddr
  | .avr => AvrFlash.Flash.curPageAddr

def Target.fillTurns : (t : Target) → Nat → BitVec t.backend.w → BitVec t.backend.w →
    t.backend.flash.Flash → Option (BitVec t.backend.w × List (Turn t.backend.w))
  | .stm32 => Stm32Flash.fillTurns
  | .avr => AvrFlash.fillTurns

def Target.stores : (t : Target) → t.backend.flash.Flash → Turn t.backend.w → List Nat
  | .stm32 => fun _ => Stm32Flash.stores
  | .avr => AvrFlash.stores

def Target.flashEnd : Target → Nat
  | .stm32 => Stm32Flash.flashEnd.toNat
  | .avr => AvrFlash.flashSize.toNat

/-- A write cycle is open on a page of the flash. -/
structure OpenOnPage (t : Target) (f : t.backend.flash.Flash) : Prop where
  opened : t.curPageAddr f ≠ 0
  aligned : (t.curPageAddr f).toNat % t.pageSize = 0
  inside : (t.curPageAddr f).toNat < t.flashEnd

/-- The turns come to an end, and are contained. -/
def TurnsContained (page pageSize : Nat) (offset size : BitVec w)
    (turns : Nat → Option (BitVec w × List (Turn w))) (stores : Turn w → List Nat) : Prop :=
  ∃ fuel n ts, turns fuel = some (n, ts) ∧
    Contained page offset.toNat size.toNat pageSize n.toNat (ts.flatMap Turn.reads)
      (ts.flatMap stores)

/-- `cnFlashFill` ends, and stays inside its page and its data. -/
def FillContained (t : Target) (offset size : BitVec t.backend.w) (f : t.backend.flash.Flash) :
    Prop :=
  TurnsContained (t.curPageAddr f).toNat t.pageSize offset size
    (fun fuel => t.fillTurns fuel offset size f) (t.stores f)

/-- There is nothing to copy, or both ends are even and, on STM32, in the page. On AVR the
end of the page also ends a copy, whatever the size is. -/
def Target.FillFits : Target → Nat → Nat → Prop
  | .stm32, offset, size =>
    size = 0 ∨ (offset % 2 = 0 ∧ size % 2 = 0 ∧ offset + size ≤ 1024)
  | .avr, offset, size =>
    size = 0 ∨ 128 ≤ offset ∨ (offset % 2 = 0 ∧ (size % 2 = 0 ∨ 128 < offset + size))

instance (t : Target) (offset size : Nat) : Decidable (t.FillFits offset size) := by
  cases t
  · exact inferInstanceAs (Decidable (_ ∨ _))
  · exact inferInstanceAs (Decidable (_ ∨ _))

/-- Turns that store what they read next to each other. -/
theorem contained_turns {page offset size pageSize m : Nat} {stores : Turn w → List Nat}
    (hstores : ∀ j < m, stores ⟨0 + 2 * j, a + BitVec.ofNat w (2 * j)⟩ =
      [page + offset + 2 * j, page + offset + 2 * j + 1])
    (hsize : 2 * m ≤ size) (hpage : offset + 2 * m ≤ pageSize) :
    Contained page offset size pageSize (2 * m) ((turnsFrom 0 a m).flatMap Turn.reads)
      ((turnsFrom 0 a m).flatMap stores) := by
  have hmap : (turnsFrom 0 a m).flatMap stores =
      (List.range m).flatMap fun j => [page + offset + 2 * j, page + offset + 2 * j + 1] := by
    rw [turnsFrom, List.flatMap_map]
    exact List.flatMap_congr fun j hj => hstores j (List.mem_range.mp hj)
  have hmem : ∀ x ∈ (turnsFrom 0 a m).flatMap stores,
      ∃ j < m, x = page + offset + 2 * j ∨ x = page + offset + 2 * j + 1 := by
    intro x hx
    rw [hmap, List.mem_flatMap] at hx
    obtain ⟨j, hj, hx⟩ := hx
    exact ⟨j, List.mem_range.mp hj, by simpa using hx⟩
  constructor
  · intro i hi
    rw [turnsFrom, List.flatMap_map, List.mem_flatMap] at hi
    obtain ⟨j, hj, hi⟩ := hi
    have hlt := List.mem_range.mp hj
    simp only [Turn.reads, List.mem_cons, List.not_mem_nil, or_false] at hi
    omega
  · intro x hx
    obtain ⟨j, hj, hx⟩ := hmem x hx
    omega
  · intro x hx
    obtain ⟨j, hj, hx⟩ := hmem x hx
    omega
  · rw [hmap, List.length_flatMap]
    simp
    omega

theorem toNat_count (j : Nat) : (0 + BitVec.ofNat w (2 * j)).toNat = 2 * j % 2 ^ w := by
  have hzero : 0 + BitVec.ofNat w (2 * j) = BitVec.ofNat w (2 * j) := BitVec.zero_add _
  rw [hzero, BitVec.toNat_ofNat]

theorem toNat_turns {j : Nat} (h : 2 * j < 2 ^ w) : (0 + BitVec.ofNat w (2 * j)).toNat = 2 * j := by
  rw [toNat_count, Nat.mod_eq_of_lt h]

/-- The address of a turn. -/
theorem toNat_addr (page offset : BitVec w) (k : Nat) :
    (page + offset + BitVec.ofNat w k).toNat = (page.toNat + offset.toNat + k) % 2 ^ w := by
  rw [BitVec.toNat_add, BitVec.toNat_add, BitVec.toNat_ofNat, Nat.mod_add_mod, Nat.add_mod_mod]

/-- The last turn of an odd size would read past the data. -/
theorem Contained.even {page offset size pageSize n : Nat} {ts : List (Turn w)} {stores : List Nat}
    (h : Contained page offset size pageSize n (ts.flatMap Turn.reads) stores)
    (hmade : size % 2 = 1 → ⟨0 + 2 * (size / 2), a⟩ ∈ ts) : size % 2 = 0 := by
  by_contra hodd
  have hlast : 0 + 2 * (size / 2) + 1 ∈ ts.flatMap Turn.reads :=
    List.mem_flatMap.mpr ⟨_, hmade (by omega), by simp [Turn.reads]⟩
  have hread := h.reads _ hlast
  omega

section

variable {page pageSize : Nat} {offset size : BitVec w} {stores : Turn w → List Nat}

/-- A copy of nothing. -/
theorem turnsContained_nil (hstop : go 0 = false) :
    TurnsContained page pageSize offset size (fun fuel => copyTurns go bus fuel 0 0 a) stores :=
  ⟨1, 0, [], copyTurns_end hstop, by constructor <;> simp⟩

/-- Turns one after the other, over no more than the data and the page. -/
theorem turnsContained_turns {m : Nat}
    (hgo : ∀ j < m, go (0 + BitVec.ofNat w (2 * j)) = true ∧ bus (a + BitVec.ofNat w (2 * j)) = true)
    (hstop : go (0 + BitVec.ofNat w (2 * m)) = false)
    (hstores : ∀ j < m, stores ⟨0 + 2 * j, a + BitVec.ofNat w (2 * j)⟩ =
      [page + offset.toNat + 2 * j, page + offset.toNat + 2 * j + 1])
    (hsize : 2 * m ≤ size.toNat) (hpage : offset.toNat + 2 * m ≤ pageSize) :
    TurnsContained page pageSize offset size (fun fuel => copyTurns go bus fuel 0 0 a) stores := by
  have hrun : copyTurns go bus (m + 1) 0 0 a = some (0 + BitVec.ofNat w (2 * m), turnsFrom 0 a m) :=
    copyTurns_spec (by omega) hgo hstop
  have hlt := size.isLt
  refine ⟨m + 1, _, _, hrun, ?_⟩
  rw [toNat_turns (by omega)]
  exact contained_turns hstores hsize hpage

end

theorem stm32_test {size : U32} {j : Nat} (h : 2 * j ≤ size.toNat) :
    Stm32Flash.goesOn size (0 + BitVec.ofNat 32 (2 * j)) = decide (2 * j < size.toNat) := by
  have hlt := size.isLt
  rw [Stm32Flash.goesOn, decide_eq_decide, BitVec.lt_def, toNat_turns (by omega)]

section

variable {offset size : U32} {f : Stm32Flash.Flash}

theorem stm32_fillTurns (h : OpenOnPage .stm32 f) :
    (fun fuel => Stm32Flash.fillTurns fuel offset size f) = fun fuel =>
      copyTurns (Stm32Flash.goesOn size) Stm32Flash.halfWord fuel 0 0 (f.curPageAddr + offset) := by
  funext fuel
  exact if_neg h.opened

theorem stm32_fits (h : OpenOnPage .stm32 f)
    (hcontained : TurnsContained f.curPageAddr.toNat 1024 offset size
      (fun fuel => Stm32Flash.fillTurns fuel offset size f) Stm32Flash.stores) :
    Target.FillFits .stm32 offset.toNat size.toNat := by
  have halign : f.curPageAddr.toNat % 1024 = 0 := h.aligned
  have hinside : f.curPageAddr.toNat < 0x08010000 := h.inside
  have hsize := size.isLt
  rw [stm32_fillTurns h] at hcontained
  obtain ⟨fuel, n, ts, hturns, hcontained⟩ := hcontained
  have hmade : ∀ m, 2 * m < size.toNat →
      ⟨0 + 2 * m, f.curPageAddr + offset + BitVec.ofNat 32 (2 * m)⟩ ∈ ts := by
    refine fun m hm => copyTurns_mem hturns fun j hj => ?_
    rw [stm32_test (by omega), decide_eq_true_eq]
    omega
  rcases Nat.eq_zero_or_pos size.toNat with hzero | hpos
  · exact .inl hzero
  -- the first store is a bus error unless the offset is even
  have heven : offset.toNat % 2 = 0 := by
    by_contra hodd
    have hbus : Stm32Flash.halfWord (f.curPageAddr + offset) = false := by
      rw [Stm32Flash.halfWord, decide_eq_false_iff_not, BitVec.toNat_add]
      omega
    have htest : Stm32Flash.goesOn size 0 = true := decide_eq_true hpos
    cases (copyTurns_bus htest hbus).symm.trans hturns
  have hpair : size.toNat % 2 = 0 := hcontained.even fun hodd => hmade _ (by omega)
  refine .inr ⟨heven, hpair, ?_⟩
  by_contra hout
  -- the first store at or past the end of the page
  have hfirst := hcontained.page _ (List.mem_flatMap.mpr
    ⟨_, hmade ((1024 - offset.toNat) / 2) (by omega), List.mem_cons_self ..⟩)
  rw [toNat_addr] at hfirst
  omega

theorem stm32_fill (h : OpenOnPage .stm32 f) (hfits : Target.FillFits .stm32 offset.toNat size.toNat) :
    TurnsContained f.curPageAddr.toNat 1024 offset size
      (fun fuel => Stm32Flash.fillTurns fuel offset size f) Stm32Flash.stores := by
  have halign : f.curPageAddr.toNat % 1024 = 0 := h.aligned
  have hinside : f.curPageAddr.toNat < 0x08010000 := h.inside
  have hsize := size.isLt
  rw [stm32_fillTurns h]
  rcases hfits with hzero | ⟨heven, hpair, hfit⟩
  · exact turnsContained_nil (decide_eq_false (Nat.not_lt.mpr hzero.le))
  · have haddr : ∀ j, j < size.toNat / 2 → (f.curPageAddr + offset + BitVec.ofNat 32 (2 * j)).toNat =
        f.curPageAddr.toNat + offset.toNat + 2 * j := by
      intro j hj
      rw [toNat_addr]
      omega
    have hstop : Stm32Flash.goesOn size (0 + BitVec.ofNat 32 (2 * (size.toNat / 2))) = false := by
      rw [stm32_test (by omega), decide_eq_false_iff_not]
      omega
    refine turnsContained_turns (fun j hj => ⟨?_, ?_⟩) hstop (fun j hj => ?_) (by omega) (by omega)
    · rw [stm32_test (by omega), decide_eq_true_eq]
      omega
    · rw [Stm32Flash.halfWord, decide_eq_true_eq, haddr j hj]
      omega
    · exact congrArg (fun x => [x, x + 1]) (haddr j hj)

theorem stm32_contained (h : OpenOnPage .stm32 f) :
    TurnsContained f.curPageAddr.toNat 1024 offset size
        (fun fuel => Stm32Flash.fillTurns fuel offset size f) Stm32Flash.stores ↔
      Target.FillFits .stm32 offset.toNat size.toNat :=
  ⟨stm32_fits h, stm32_fill h⟩

end

theorem avr_test {offset size : U16} {j : Nat} (hsize : 2 * j < 2 ^ 16)
    (hoffset : 2 * j + offset.toNat < 2 ^ 16) :
    AvrFlash.goesOn offset size (0 + BitVec.ofNat 16 (2 * j)) =
      decide (2 * j < size.toNat ∧ 2 * j + offset.toNat < 128) := by
  have hsum : (0 + BitVec.ofNat 16 (2 * j) + offset).toNat = 2 * j + offset.toNat := by
    rw [BitVec.toNat_add, toNat_turns hsize, Nat.mod_eq_of_lt hoffset]
  rw [AvrFlash.goesOn, decide_eq_decide, BitVec.lt_def, BitVec.lt_def, hsum, toNat_turns hsize]
  exact Iff.rfl

section

variable {offset size : U16} {f : AvrFlash.Flash}

theorem avr_fillTurns (h : OpenOnPage .avr f) :
    (fun fuel => AvrFlash.fillTurns fuel offset size f) = fun fuel =>
      copyTurns (AvrFlash.goesOn offset size) (fun _ => true) fuel 0 0 (f.curPageAddr + offset) := by
  funext fuel
  exact if_neg h.opened

/-- The words that the turns fill, in the page. -/
theorem avr_stores (h : OpenOnPage .avr f) (src : Nat) {j : Nat} (hj : offset.toNat + 2 * j < 128) :
    AvrFlash.stores f ⟨src, f.curPageAddr + offset + BitVec.ofNat 16 (2 * j)⟩ =
      [f.curPageAddr.toNat + (offset.toNat + 2 * j) / 2 * 2,
        f.curPageAddr.toNat + (offset.toNat + 2 * j) / 2 * 2 + 1] := by
  have halign : f.curPageAddr.toNat % 128 = 0 := h.aligned
  have hinside : f.curPageAddr.toNat < 0x8000 := h.inside
  have hcell : (f.curPageAddr + offset + BitVec.ofNat 16 (2 * j)).toNat % 128 =
      offset.toNat + 2 * j := by
    rw [toNat_addr]
    omega
  rw [AvrFlash.stores, AvrFlash.pageBase_eq halign hinside, hcell]

theorem avr_fits (h : OpenOnPage .avr f)
    (hcontained : TurnsContained f.curPageAddr.toNat 128 offset size
      (fun fuel => AvrFlash.fillTurns fuel offset size f) (AvrFlash.stores f)) :
    Target.FillFits .avr offset.toNat size.toNat := by
  have hsize := size.isLt
  rw [avr_fillTurns h] at hcontained
  obtain ⟨fuel, n, ts, hturns, hcontained⟩ := hcontained
  have hmade : ∀ m, 2 * m < size.toNat → 2 * m + offset.toNat < 128 →
      ⟨0 + 2 * m, f.curPageAddr + offset + BitVec.ofNat 16 (2 * m)⟩ ∈ ts := by
    refine fun m hm hin => copyTurns_mem hturns fun j hj => ?_
    rw [avr_test (by omega) (by omega), decide_eq_true_eq]
    omega
  rcases Nat.eq_zero_or_pos size.toNat with hzero | hpos
  · exact .inl hzero
  rcases Nat.lt_or_ge offset.toNat 128 with hin | hout
  · -- the first word of an odd offset is that of the byte before
    have hfirst := hcontained.range _ (List.mem_flatMap.mpr ⟨_, hmade 0 hpos (by omega),
      (avr_stores h _ (show offset.toNat + 2 * 0 < 128 by omega)).symm ▸ List.mem_cons_self ..⟩)
    have hpair : size.toNat % 2 = 0 ∨ 128 < offset.toNat + size.toNat := by
      by_contra hnone
      have heven := hcontained.even fun hodd => hmade _ (by omega) (by omega)
      omega
    exact .inr (.inr ⟨by omega, hpair⟩)
  · exact .inr (.inl hout)

theorem avr_fill (h : OpenOnPage .avr f) (hfits : Target.FillFits .avr offset.toNat size.toNat) :
    TurnsContained f.curPageAddr.toNat 128 offset size
      (fun fuel => AvrFlash.fillTurns fuel offset size f) (AvrFlash.stores f) := by
  have hsize := size.isLt
  have hoffset := offset.isLt
  rw [avr_fillTurns h]
  by_cases hnone : size.toNat = 0 ∨ 128 ≤ offset.toNat
  · apply turnsContained_nil
    have htest : AvrFlash.goesOn offset size (0 + BitVec.ofNat 16 (2 * 0)) = _ :=
      avr_test (by omega) (by omega)
    rw [add_zero_turns] at htest
    rw [htest, decide_eq_false_iff_not]
    omega
  · have heven : offset.toNat % 2 = 0 ∧ (size.toNat % 2 = 0 ∨ 128 < offset.toNat + size.toNat) := by
      rcases hfits with hzero | hout | hfit
      · exact absurd (.inl hzero) hnone
      · exact absurd (.inr hout) hnone
      · exact hfit
    -- the loop ends with the data or with the page
    obtain ⟨m, hm⟩ : ∃ m, 2 * m = min size.toNat (128 - offset.toNat) :=
      ⟨min size.toNat (128 - offset.toNat) / 2, by omega⟩
    have hstop : AvrFlash.goesOn offset size (0 + BitVec.ofNat 16 (2 * m)) = false := by
      rw [avr_test (by omega) (by omega), decide_eq_false_iff_not]
      omega
    refine turnsContained_turns (fun j hj => ⟨?_, rfl⟩) hstop (fun j hj => ?_) (by omega) (by omega)
    · rw [avr_test (by omega) (by omega), decide_eq_true_eq]
      omega
    · have hcell : f.curPageAddr.toNat + (offset.toNat + 2 * j) / 2 * 2 =
          f.curPageAddr.toNat + offset.toNat + 2 * j := by omega
      rw [avr_stores h _ (by omega), hcell]

theorem avr_contained (h : OpenOnPage .avr f) :
    TurnsContained f.curPageAddr.toNat 128 offset size
        (fun fuel => AvrFlash.fillTurns fuel offset size f) (AvrFlash.stores f) ↔
      Target.FillFits .avr offset.toNat size.toNat :=
  ⟨avr_fits h, avr_fill h⟩

end

/-- On an open cycle `cnFlashFill` is contained exactly if what it is asked for fits. -/
theorem fill_contained (t : Target) (offset size : BitVec t.backend.w) (f : t.backend.flash.Flash)
    (h : OpenOnPage t f) : FillContained t offset size f ↔ t.FillFits offset.toNat size.toNat := by
  cases t
  · exact stm32_contained h
  · exact avr_contained h

/-- Open cycles on the first application page of STM32 and the second page of AVR. -/
def stm32Cycle : Stm32Flash.Flash :=
  ⟨.unlocked, true, false, 0x08001000#32, false, fun _ => 0xFF#8, [], 0x08001000#32⟩

def avrCycle : AvrFlash.Flash := ⟨fun _ => 0xFF#8, fun _ => 0xFFFF#16, [], false, 0x0080#16⟩

theorem stm32Cycle_open : OpenOnPage .stm32 stm32Cycle where
  opened := by decide
  aligned := by decide
  inside := by decide

theorem avrCycle_open : OpenOnPage .avr avrCycle where
  opened := by decide
  aligned := by decide
  inside := by decide

theorem fill_contained_seven : OpenOnPage .avr avrCycle ∧
    FillContained .avr (0x7C#16 : U16) (0x07#16 : U16) avrCycle :=
  ⟨avrCycle_open, (fill_contained .avr (0x7C#16 : U16) (0x07#16 : U16) avrCycle avrCycle_open).mpr
    (.inr (.inr (by decide)))⟩

/-- A single byte is copied with the one after it, on STM32 a copy runs over the end of the
page, and one of the largest size does not end. -/
theorem fill_overruns :
    ¬ (∀ (t : Target) (offset size : BitVec t.backend.w) (f : t.backend.flash.Flash),
      OpenOnPage t f → FillContained t offset size f) ∧
    ¬ FillContained .stm32 (0#32 : U32) (1#32 : U32) stm32Cycle ∧
    ¬ FillContained .stm32 (0x3FE#32 : U32) (4#32 : U32) stm32Cycle ∧
    (∀ fuel, Stm32Flash.fillTurns fuel 0 0xFFFFFFFF#32 stm32Cycle = none) ∧
    ¬ FillContained .avr (0#16 : U16) (1#16 : U16) avrCycle := by
  have hone : ¬ FillContained .stm32 (0#32 : U32) (1#32 : U32) stm32Cycle :=
    mt (stm32_contained stm32Cycle_open).mp (by decide)
  refine ⟨fun h => hone (h .stm32 _ _ _ stm32Cycle_open), hone,
    mt (stm32_contained stm32Cycle_open).mp (by decide), fun fuel => ?_,
    mt (avr_contained avrCycle_open).mp (by decide)⟩
  refine (if_neg stm32Cycle_open.opened).trans (copyTurns_endless fun j => ?_)
  -- the count is even, and no even number reaches the odd size
  have hsize : (0xFFFFFFFF#32).toNat = 0xFFFFFFFF := rfl
  rw [Stm32Flash.goesOn, decide_eq_true_eq, BitVec.lt_def, toNat_count, hsize]
  omega

end CANnuccia

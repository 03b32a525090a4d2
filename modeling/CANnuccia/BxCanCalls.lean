import CANnuccia.BxCan

/-!
# A call in the middle of the traffic

Between the accesses of `cnCANSend` and `cnCANRecv` frames arrive and mailboxes are
transmitted. The frame that is read stays at the head of the FIFO, and the mailbox that
is loaded stays empty, so that the calls come to what they would come to alone.
-/
namespace CANnuccia.BxCan

open Util CanMsgs
open Masks (flag)
open Stm32Can (Mailbox canTirTxrq canTsrTme0 canTsrTme1 canTsrTme2 canTsrCode canDtrDlc canRfrRfom
  canRfrFmp)

inductive Moves (s : Controller) : Controller → Prop where
  | arrive (m : Mailbox) : s.inak = false → s.setup.finit = false → Moves s (s.arrive m)
  | complete (n : Fin 3) : requested (s.outbox n) = true → Moves s (s.complete n)
  | ack : Moves s s.ack

variable {s s' : Controller} {m : Mailbox} {n : Fin 3}

theorem move_moves {x : Move} (h : s.move x = some s') : Moves s s' := by
  cases x with
  | arrive m =>
    rw [Controller.move, Option.ite_none_right_eq_some, Option.some.injEq] at h
    obtain ⟨⟨hinak, hfinit⟩, rfl⟩ := h
    exact .arrive m hinak hfinit
  | complete n =>
    rw [Controller.move, Option.ite_none_right_eq_some, Option.some.injEq] at h
    obtain ⟨hn, rfl⟩ := h
    exact .complete n hn
  | ack =>
    cases h
    exact .ack

/-- The frame that is read next stays. -/
theorem inbox_stable : Mmio.Stable Moves fun s => s.inbox = some m := by
  intro s s' h hm
  cases hm with
  | arrive m' _ _ =>
    rw [Controller.arrive]
    split
    · have hne : s.fifo.items ≠ [] := by
        intro he
        rw [Controller.inbox, he] at h
        cases h
      exact (Fifo.push_head Nat.two_pos hne).trans h
    · exact h
  | complete n _ => exact h
  | ack => exact h

/-- An empty mailbox stays as it is. -/
theorem outbox_stable (hm : requested m = false) : Mmio.Stable Moves fun s => s.outbox n = m := by
  intro s s' h hmove
  cases hmove with
  | arrive m' _ _ =>
    rw [Controller.arrive]
    split <;> exact h
  | complete k hk =>
    have hne : n ≠ k := by
      rintro rfl
      rw [h, hm] at hk
      cases hk
    exact (Function.update_of_ne hne ..).trans h
  | ack => exact h

section Fetch

/-- An access of `fetch`. -/
def Fetching (m : Mailbox) (s s' : Controller) : Prop := s' = s ∧ s.inbox = some m

theorem inbox_meets {α : Type} {post : α → Controller → Prop} {f : Field} {g : U32 → Mmio Reg α}
    (h : s.inbox = some m)
    (hg : ∀ s, s.inbox = some m → Mmio.Meets device Moves (Fetching m) post (g (f.get m)) s) :
    Mmio.Meets device Moves (Fetching m) post (.read (.inbox f) g) s := by
  refine Mmio.meets_read inbox_stable h fun s hs => ⟨⟨rfl, hs⟩, ?_⟩
  have hread : device.read (.inbox f) s = f.get m := by
    simp [device, Controller.read, hs]
  rw [hread]
  exact hg s hs

theorem unpackCase_meets (k : Nat) (h : s.inbox = some m) : Mmio.Meets device Moves (Fetching m)
    (fun r s => r = Stm32Can.unpackCase m k ∧ s.inbox = some m) (unpackCase k) s := by
  match k with
  | 1 | 2 | 3 | 4 | 5 | 6 | 7 | 8 => exact inbox_meets h fun s hs => ⟨rfl, hs⟩
  | 0 | k + 9 => exact ⟨rfl, h⟩

theorem unpackFrom_meets (k : Nat) : ∀ {s : Controller}, s.inbox = some m →
    Mmio.Meets device Moves (Fetching m)
      (fun r s => r = Stm32Can.unpackFrom m k ∧ s.inbox = some m) (unpackFrom k) s := by
  induction k with
  | zero =>
    intro s h
    exact ⟨rfl, h⟩
  | succ k ih =>
    intro s h
    refine (unpackCase_meets (k + 1) h).seq ?_
    rintro first s ⟨rfl, hs⟩
    refine (ih hs).seq ?_
    rintro rest s ⟨rfl, hs⟩
    exact ⟨rfl, hs⟩

/-- What is read of a frame. -/
def fetched (maxLen : U32) (m : Mailbox) : Fetched :=
  let payloadLen := m.dtr &&& canDtrDlc
  let maxLen := if maxLen < payloadLen then maxLen else payloadLen
  ⟨maxLen.toInt, some m.ir, Stm32Can.unpackFrom m (if maxLen ≤ 8 then maxLen.toNat else 8)⟩

theorem fetch_meets (maxLen : U32) (h : s.inbox = some m) :
    Mmio.Meets device Moves (Fetching m) (fun r s => r = fetched maxLen m ∧ s.inbox = some m)
      (fetch maxLen) s := by
  refine inbox_meets h fun s hs => inbox_meets hs fun s hs => ?_
  refine (unpackFrom_meets _ hs).seq ?_
  rintro data s ⟨rfl, hs⟩
  exact ⟨rfl, hs⟩

end Fetch

section Fill

/-- An access of `fill`: the mailbox is empty before it and nothing else is changed. -/
structure Loading (n : Fin 3) (s s' : Controller) : Prop where
  empty : requested (s.outbox n) = false
  outbox : ∀ k ≠ n, s'.outbox k = s.outbox k
  others : { s' with outbox := s.outbox } = s

theorem loading_same (hm : requested m = false) (h : s.outbox n = m) : Loading n s s :=
  ⟨by rw [h]; exact hm, fun _ _ => rfl, rfl⟩

/-- A write to an empty mailbox. -/
theorem write_outbox (f : Field) (v : U32) (hm : requested m = false) (h : s.outbox n = m) :
    Loading n s (device.write (.outbox n f) v s) ∧
      (device.write (.outbox n f) v s).outbox n = f.set v m := by
  have hwrite : device.write (.outbox n f) v s =
      { s with outbox := Function.update s.outbox n (f.set v m) } := by
    simp [device, Controller.write, h, hm]
  have hempty : requested (s.outbox n) = false := by rw [h]; exact hm
  rw [hwrite]
  exact ⟨⟨hempty, fun k hk => Function.update_of_ne hk .., rfl⟩, Function.update_self ..⟩

theorem store_meets (f : Field) (v : U32) (hm : requested m = false) (h : s.outbox n = m) :
    Mmio.Meets device Moves (Loading n) (fun _ s => s.outbox n = f.set v m)
      (Mmio.store (.outbox n f) v) s :=
  Mmio.meets_write (outbox_stable hm) h fun _ hs => write_outbox f v hm hs

theorem modify_meets (f : Field) (g : U32 → U32) (hm : requested m = false) (h : s.outbox n = m) :
    Mmio.Meets device Moves (Loading n) (fun _ s => s.outbox n = f.set (g (f.get m)) m)
      (Mmio.modify (.outbox n f) g) s := by
  refine Mmio.meets_read (outbox_stable hm) h fun s hs => ⟨loading_same hm hs, ?_⟩
  have hread : device.read (.outbox n f) s = f.get m := by
    simp [device, Controller.read, hs]
  rw [hread]
  exact store_meets f _ hm hs

variable (data : Nat → U8)

theorem packCase_meets (k : Nat) (hm : requested m = false) (h : s.outbox n = m) :
    Mmio.Meets device Moves (Loading n) (fun _ s => s.outbox n = Stm32Can.packCase data m k)
      (packCase n data k) s := by
  match k with
  | 1 | 2 | 3 | 4 => exact (modify_meets .dlr _ hm h).mono fun _ _ hs => hs
  | 5 | 6 | 7 | 8 => exact (modify_meets .dhr _ hm h).mono fun _ _ hs => hs
  | 0 | k + 9 => exact h

theorem packFrom_meets (k : Nat) : ∀ {s : Controller} {m : Mailbox}, requested m = false →
    s.outbox n = m → Mmio.Meets device Moves (Loading n)
      (fun _ s => s.outbox n = Stm32Can.packFrom data k m) (packFrom n data k) s := by
  induction k with
  | zero =>
    intro s m _ h
    exact h
  | succ k ih =>
    intro s m hm h
    have hempty : requested (Stm32Can.packCase data m (k + 1)) = false := by
      rw [requested, (Stm32Can.packCase_frame data m _).1]
      exact hm
    exact (packCase_meets data (k + 1) hm h).seq fun _ _ hs => ih hempty hs

/-- The length that is sent. -/
def sentLen (len : U32) : U32 := if len ≤ 8 then len else 8

/-- A loaded mailbox. -/
def loaded (id len : U32) : Mailbox :=
  let m := Stm32Can.packFrom data (sentLen len).toNat
    ⟨id &&& ~~~canTirTxrq, sentLen len &&& canDtrDlc, 0, 0⟩
  { m with ir := m.ir ||| canTirTxrq }

theorem loaded_requested (id len : U32) : requested (loaded data id len) = true := by
  have hbit : ∀ v : U32, (v ||| canTirTxrq) &&& canTirTxrq = canTirTxrq := by
    intro v
    apply BitVec.eq_of_getLsbD_eq
    intro i hi
    interval_cases i <;> simp [canTirTxrq]
  simp only [requested, loaded, hbit]
  decide

theorem fill_meets (id len : U32) (hm : requested m = false) (h : s.outbox n = m) :
    Mmio.Meets device Moves (Loading n)
      (fun r s => r = (sentLen len).toInt ∧ s.outbox n = loaded data id len)
      (fill n data id len) s := by
  have hempty : ∀ dtr dlr dhr, requested ⟨id &&& ~~~canTirTxrq, dtr, dlr, dhr⟩ = false := by
    intro dtr dlr dhr
    have hbit : id &&& ~~~canTirTxrq &&& canTirTxrq = 0 := by
      apply BitVec.eq_of_getLsbD_eq
      intro i hi
      interval_cases i <;> simp [canTirTxrq]
    simp [requested, hbit]
  have hpacked : requested (Stm32Can.packFrom data (sentLen len).toNat
      ⟨id &&& ~~~canTirTxrq, sentLen len &&& canDtrDlc, 0, 0⟩) = false := by
    rw [requested, (Stm32Can.packFrom_frame data _ _).1]
    exact hempty _ 0 0
  refine (store_meets .ir _ hm h).seq fun _ s hs => ?_
  refine (store_meets .dtr _ (hempty _ _ _) hs).seq fun _ s hs => ?_
  refine (store_meets .dhr _ (hempty _ _ _) hs).seq fun _ s hs => ?_
  refine (store_meets .dlr _ (hempty _ _ _) hs).seq fun _ s hs => ?_
  refine (packFrom_meets data _ (hempty _ _ _) hs).seq fun _ s hs => ?_
  refine (modify_meets .ir _ hpacked hs).seq fun _ s hs => ?_
  exact ⟨rfl, hs⟩

end Fill

theorem code_eq (s : Controller) : s.code = if requested (s.outbox 0) = false then 0
    else if requested (s.outbox 1) = false then 1 else 2 := by
  have hcode : s.code = (([0, 1, 2] : List (Fin 3)).find? fun n => !requested (s.outbox n)).getD
      (Fin.last 2) := rfl
  rw [hcode]
  cases h0 : requested (s.outbox 0) <;> cases h1 : requested (s.outbox 1) <;>
    cases h2 : requested (s.outbox 2) <;> simp [h0, h1, h2]

theorem tsr_eq (s : Controller) : s.tsr = BitVec.ofNat 32 s.code.val <<< 24
    ||| flag (!requested (s.outbox 0)) canTsrTme0 ||| flag (!requested (s.outbox 1)) canTsrTme1
    ||| flag (!requested (s.outbox 2)) canTsrTme2 := rfl

theorem tsr_free (s : Controller) :
    s.tsr &&& (canTsrTme0 ||| canTsrTme1 ||| canTsrTme2) ≠ 0 ↔
      ∃ n, requested (s.outbox n) = false := by
  have hexists : (∃ n, requested (s.outbox n) = false) ↔ requested (s.outbox 0) = false ∨
      requested (s.outbox 1) = false ∨ requested (s.outbox 2) = false := by
    simp [Fin.exists_fin_succ]
  rw [hexists, tsr_eq, code_eq]
  generalize requested (s.outbox 0) = a, requested (s.outbox 1) = b, requested (s.outbox 2) = e
  revert a b e
  decide

theorem tsr_code (s : Controller) : ((s.tsr &&& canTsrCode) >>> 24).toNat = s.code.val := by
  rw [tsr_eq, code_eq]
  generalize requested (s.outbox 0) = a, requested (s.outbox 1) = b, requested (s.outbox 2) = e
  revert a b e
  decide

/-- CODE names an empty mailbox if there is one. -/
theorem code_free {s : Controller} (h : ∃ n, requested (s.outbox n) = false) :
    requested (s.outbox s.code) = false := by
  rw [code_eq]
  split
  · assumption
  · split
    · assumption
    · obtain ⟨n, hn⟩ := h
      match n with
      | 0 | 1 => contradiction
      | 2 => exact hn

theorem rf0r_empty (s : Controller) : s.rf0r &&& canRfrFmp = 0 ↔ s.inbox = none := by
  have hbounded := s.fifo.bounded
  rw [Controller.inbox, List.head?_eq_none_iff, ← List.length_eq_zero_iff, Controller.rf0r]
  generalize s.fifo.items.length = k, s.full = a, s.fovr = b at *
  revert a b
  interval_cases k <;> decide

/-- Writing RFOM releases the frame that was read, and no other. -/
theorem release_fifo (v : U32) (s : Controller) :
    (s.release (v ||| canRfrRfom)).fifo = s.fifo.pop := by
  have hbit : (v ||| canRfrRfom) &&& canRfrRfom ≠ 0 := by
    intro h
    have hfive := congrArg (fun w => w.getLsbD 5) h
    simp [canRfrRfom] at hfive
  exact if_pos hbit

end CANnuccia.BxCan

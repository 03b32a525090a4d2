import CANnuccia.AvrCan
import CANnuccia.Mealy

/-!
# The transmit mailboxes of the AVR backend

Calls of `cnCANSend` follow each other while the controller transmits what is pending,
also between two windows of one call. Every frame sent is then either pending or
transmitted, and it is there once.
-/
namespace CANnuccia.AvrCan

open Util Mcp
open Mealy (Machine Transition Run outputs)

/-- The arguments of a call, with the memory behind `data`. -/
structure Call where
  id : U32
  len : U16
  data : Nat → U8
  short : len ≤ 8

def Call.program (c : Call) : Spi Int := cnCANSend c.id c.len c.data

/-- The thirteen bytes it builds. -/
def Call.image (c : Call) : Mailbox := (fillBuffer c.id (capLen c.len) c.data).buffer

inductive Event where
  | returned (c : Call) (r : Int)
  | transmitted (image : Mailbox)

/-- The call that is running, with what is left of it. -/
structure Bus where
  running : Option (Call × Spi Int)
  mcp : Controller

/-- The driver is called, makes its next window, or the controller transmits a mailbox. -/
inductive Input where
  | call (c : Call)
  | window
  | complete (n : Fin 3)

/-- A program that has ended returns. -/
def resume (c : Call) : Spi Int × Controller → Bus × List Event
  | (.pure r, m) => (⟨none, m⟩, [.returned c r])
  | (p, m) => (⟨some (c, p), m⟩, [])

def step : Machine Bus Input Event
  | ⟨none, m⟩, .call c => some (⟨some (c, c.program), m⟩, [])
  | ⟨some (c, p), m⟩, .window => some (resume c (p.window slave m))
  | ⟨running, m⟩, .complete n =>
    if m.txreq n then some (⟨running, m.complete n⟩, [.transmitted (m.txb n)]) else none
  | _, _ => none

/-- The image of a call that did not return a negative value. -/
def Event.taken : Event → Option Mailbox
  | .returned c r => if 0 ≤ r then some c.image else none
  | .transmitted _ => none

def Event.sent : Event → Option Mailbox
  | .returned _ _ => none
  | .transmitted image => some image

def accepted (tr : List (Transition Bus Input Event)) : List Mailbox :=
  (outputs tr).filterMap Event.taken

def transmitted (tr : List (Transition Bus Input Event)) : List Mailbox :=
  (outputs tr).filterMap Event.sent

/-- What waits for the bus. -/
def pending (m : Controller) : List Mailbox :=
  (List.finRange 3).filterMap fun n => if m.txreq n then some (m.txb n) else none

/-- One more element of a list is mapped to something. -/
theorem filterMap_perm {α β : Type*} {l : List α} (hl : l.Nodup) {a : α} (ha : a ∈ l)
    {f g : α → Option β} {b : β} (hf : f a = none) (hg : g a = some b)
    (hsame : ∀ k, k ≠ a → g k = f k) : (l.filterMap g).Perm (b :: l.filterMap f) := by
  obtain ⟨u, v, rfl⟩ := List.append_of_mem ha
  rw [List.nodup_middle, List.nodup_cons, List.mem_append, not_or] at hl
  have hu : u.filterMap g = u.filterMap f :=
    List.filterMap_congr fun k hk => hsame k fun he => hl.1.1 (he ▸ hk)
  have hv : v.filterMap g = v.filterMap f :=
    List.filterMap_congr fun k hk => hsame k fun he => hl.1.2 (he ▸ hk)
  rw [List.filterMap_append, List.filterMap_append, List.filterMap_cons_some hg,
    List.filterMap_cons_none hf, hu, hv]
  exact List.perm_middle

variable {m : Controller} {n : Fin 3}

/-- Only TXREQ and the mailboxes matter. -/
theorem pending_congr {m' : Controller} (hreq : m'.txreq = m.txreq)
    (htxb : ∀ k, m.txreq k = true → m'.txb k = m.txb k) : pending m' = pending m := by
  refine List.filterMap_congr fun k _ => ?_
  rw [hreq]
  by_cases hk : m.txreq k = true
  · rw [if_pos hk, if_pos hk, htxb k hk]
  · rw [if_neg hk, if_neg hk]

theorem pending_request {m' : Controller} (hn : m.txreq n = false)
    (hreq : m'.txreq = Function.update m.txreq n true) (htxb : m'.txb = m.txb) :
    (pending m').Perm (m.txb n :: pending m) := by
  refine filterMap_perm (List.nodup_finRange 3) (List.mem_finRange n) (by simp [hn])
    (by simp [hreq, htxb]) ?_
  intro k hk
  rw [hreq, htxb, Function.update_of_ne hk]

theorem pending_complete (hn : m.txreq n = true) :
    (pending m).Perm (m.txb n :: pending (m.complete n)) := by
  have hback : m.txreq = Function.update (m.complete n).txreq n true := by
    rw [Controller.complete, Function.update_idem, ← hn, Function.update_eq_self]
  exact pending_request (m := m.complete n) (Function.update_self ..) hback rfl

/-- What a step does, by what is left of the running call. -/
inductive Moved : Bus → Input → Bus → List Event → Prop where
  | call (c : Call) (m : Controller) : Moved ⟨none, m⟩ (.call c) ⟨some (c, c.program), m⟩ []
  | full (c : Call) (m : Controller) : (∀ n, m.txreq n = true) →
      Moved ⟨some (c, c.program), m⟩ .window ⟨none, { m with session := .deselected }⟩
        [.returned c (-1)]
  | poll (c : Call) (m : Controller) (n : Fin 3) : m.txreq n = false →
      Moved ⟨some (c, c.program), m⟩ .window
        ⟨some (c, loadMailbox (BitVec.ofNat 8 n) c.id (capLen c.len) c.data),
          { m with session := .deselected }⟩ []
  | load (c : Call) (m : Controller) (n : Fin 3) : m.txreq n = false →
      Moved ⟨some (c, loadMailbox (BitVec.ofNat 8 n) c.id (capLen c.len) c.data), m⟩ .window
        ⟨some (c, requestToSend (BitVec.ofNat 8 n) (capLen c.len)),
          { m with txb := Function.update m.txb n c.image, session := .deselected }⟩ []
  | request (c : Call) (m : Controller) (n : Fin 3) : m.txreq n = false → m.txb n = c.image →
      Moved ⟨some (c, requestToSend (BitVec.ofNat 8 n) (capLen c.len)), m⟩ .window
        ⟨none, { m with txreq := Function.update m.txreq n true, session := .deselected }⟩
        [.returned c 8]
  | complete (running : Option (Call × Spi Int)) (m : Controller) (n : Fin 3) : m.txreq n = true →
      Moved ⟨running, m⟩ (.complete n) ⟨running, m.complete n⟩ [.transmitted (m.txb n)]

/-- How far a call has come; the mailbox it has chosen stays free until it requests it. -/
inductive Stage : Bus → Prop where
  | idle (m : Controller) : Stage ⟨none, m⟩
  | called (c : Call) (m : Controller) : Stage ⟨some (c, c.program), m⟩
  | chosen (c : Call) (m : Controller) (n : Fin 3) : m.txreq n = false →
      Stage ⟨some (c, loadMailbox (BitVec.ofNat 8 n) c.id (capLen c.len) c.data), m⟩
  | loaded (c : Call) (m : Controller) (n : Fin 3) : m.txreq n = false → m.txb n = c.image →
      Stage ⟨some (c, requestToSend (BitVec.ofNat 8 n) (capLen c.len)), m⟩

theorem complete_step {running : Option (Call × Spi Int)} {s' : Bus} {outs : List Event}
    (h : step ⟨running, m⟩ (.complete n) = some (s', outs)) :
    m.txreq n = true ∧ s' = ⟨running, m.complete n⟩ ∧ outs = [.transmitted (m.txb n)] := by
  have he : step ⟨running, m⟩ (.complete n) = if m.txreq n then
      some (⟨running, m.complete n⟩, [.transmitted (m.txb n)]) else none := by
    cases running <;> rfl
  rw [he, Option.ite_none_right_eq_some, Option.some.injEq, Prod.mk.injEq] at h
  exact ⟨h.1, h.2.1.symm, h.2.2.symm⟩

theorem complete_stage {s : Bus} (hs : Stage s) (n : Fin 3) :
    Stage ⟨s.running, s.mcp.complete n⟩ := by
  have hfree : ∀ {m : Controller} {k}, m.txreq k = false → (m.complete n).txreq k = false := by
    intro m k hk
    by_cases he : k = n
    · rw [he]
      exact Function.update_self ..
    · exact (Function.update_of_ne he ..).trans hk
  cases hs with
  | idle m => exact .idle _
  | called c m => exact .called c _
  | chosen c m k hk => exact .chosen c _ k (hfree hk)
  | loaded c m k hk himage => exact .loaded c _ k (hfree hk) himage

theorem stage_step {s s' : Bus} {i : Input} {outs : List Event} (hs : Stage s)
    (h : step s i = some (s', outs)) : Moved s i s' outs ∧ Stage s' := by
  cases i with
  | call c =>
    cases hs with
    | idle m =>
      cases h
      exact ⟨.call c m, .called c m⟩
    | _ => cases h
  | window =>
    cases hs with
    | idle m => cases h
    | called c m =>
      cases hfree : freeMailbox m.status with
      | none =>
        have hstep : step ⟨some (c, c.program), m⟩ .window =
            some (resume c (.pure (-1), { m with session := .deselected })) :=
          congrArg (fun r => some (resume c r)) (window_full hfree)
        cases hstep.symm.trans h
        exact ⟨.full c m ((freeMailbox_none m).mp hfree), .idle _⟩
      | some mailboxId =>
        obtain ⟨n, rfl, hn⟩ := freeMailbox_some hfree
        have hstep : step ⟨some (c, c.program), m⟩ .window = some (resume c
            (loadMailbox (BitVec.ofNat 8 n) c.id (capLen c.len) c.data,
              { m with session := .deselected })) :=
          congrArg (fun r => some (resume c r)) (window_poll hfree)
        cases hstep.symm.trans h
        exact ⟨.poll c m n hn, .chosen c _ n hn⟩
    | chosen c m n hn =>
      have hstep : step ⟨some (c, loadMailbox (BitVec.ofNat 8 n) c.id (capLen c.len) c.data), m⟩
          .window = some (resume c (requestToSend (BitVec.ofNat 8 n) (capLen c.len), { m with
            txb := Function.update m.txb n c.image
            session := .deselected })) :=
        congrArg (fun r => some (resume c r)) (window_load n m)
      cases hstep.symm.trans h
      exact ⟨.load c m n hn, .loaded c _ n hn (Function.update_self ..)⟩
    | loaded c m n hn himage =>
      have hret : (capLen c.len).toInt = 8 := by
        rw [capLen_short c.short]
        rfl
      have hstep : step ⟨some (c, requestToSend (BitVec.ofNat 8 n) (capLen c.len)), m⟩ .window =
          some (resume c (.pure 8, { m with
            txreq := Function.update m.txreq n true
            session := .deselected })) := by
        rw [← hret]
        exact congrArg (fun r => some (resume c r)) (window_request n m)
      cases hstep.symm.trans h
      exact ⟨.request c m n hn himage, .idle _⟩
  | complete n =>
    obtain ⟨running, m⟩ := s
    obtain ⟨hn, rfl, rfl⟩ := complete_step h
    exact ⟨.complete running m n hn, complete_stage hs n⟩

/-- Every frame taken is in one mailbox or was transmitted once, and nothing else was. -/
def Kept (tr : List (Transition Bus Input Event)) (m : Controller) : Prop :=
  (accepted tr).Perm (transmitted tr ++ pending m)

theorem kept_moved {tr : List (Transition Bus Input Event)} {s s' : Bus} {i : Input}
    {outs : List Event} (hk : Kept tr s.mcp) (h : Moved s i s' outs) :
    Kept (tr ++ [⟨s, i, outs, s'⟩]) s'.mcp := by
  have haccepted : accepted (tr ++ [⟨s, i, outs, s'⟩]) =
      accepted tr ++ outs.filterMap Event.taken := by simp [accepted]
  have htransmitted : transmitted (tr ++ [⟨s, i, outs, s'⟩]) =
      transmitted tr ++ outs.filterMap Event.sent := by simp [transmitted]
  rw [Kept, haccepted, htransmitted]
  cases h with
  | call c m | poll c m n _ =>
    rw [List.filterMap_nil, List.filterMap_nil, List.append_nil, List.append_nil]
    exact hk
  | full c m _ =>
    have hnone : [Event.returned c (-1)].filterMap Event.taken = [] := rfl
    have hsent : [Event.returned c (-1)].filterMap Event.sent = [] := rfl
    rw [hnone, hsent, List.append_nil, List.append_nil]
    exact hk
  | load c m n hn =>
    have hsame : pending { m with
        txb := Function.update m.txb n c.image, session := .deselected } = pending m := by
      refine pending_congr rfl fun k hreq => Function.update_of_ne ?_ _ _
      rintro rfl
      rw [hn] at hreq
      cases hreq
    rw [hsame, List.filterMap_nil, List.filterMap_nil, List.append_nil, List.append_nil]
    exact hk
  | request c m n hn himage =>
    have hnew : (pending { m with
        txreq := Function.update m.txreq n true, session := .deselected }).Perm
        (c.image :: pending m) := by
      rw [← himage]
      exact pending_request hn rfl rfl
    have hsent : [Event.returned c 8].filterMap Event.sent = [] := rfl
    rw [hsent, List.append_nil]
    calc List.Perm (accepted tr ++ [c.image]) (c.image :: accepted tr) :=
        List.perm_append_singleton _ _
      List.Perm _ (c.image :: (transmitted tr ++ pending m)) := hk.cons _
      List.Perm _ (transmitted tr ++ c.image :: pending m) := List.perm_middle.symm
      List.Perm _ _ := hnew.symm.append_left _
  | complete running m n hn =>
    have hsent : [Event.transmitted (m.txb n)].filterMap Event.sent = [m.txb n] := rfl
    have hnone : [Event.transmitted (m.txb n)].filterMap Event.taken = [] := rfl
    rw [hsent, hnone, List.append_nil, List.append_assoc]
    calc List.Perm (accepted tr) (transmitted tr ++ pending m) := hk
      List.Perm _ _ := (pending_complete hn).append_left _

theorem stage_run {m : Controller} {tr : List (Transition Bus Input Event)} {s : Bus}
    (h : Run step ⟨none, m⟩ tr s) : Stage s := by
  refine h.invariant (I := fun _ s => Stage s) (.idle m) ?_
  intro _ s i s' outs _ hs hstep
  exact (stage_step hs hstep).2

/-- What a step has to do with the value a call returns. -/
structure Returns (x : Transition Bus Input Event) : Prop where
  negative : ∀ c r, .returned c r ∈ x.outs → (r < 0 ↔ ∀ n, x.pre.mcp.txreq n = true)
  polled : ∀ c, x.pre.running = some (c, c.program) → x.input = .window →
    (∀ n, x.pre.mcp.txreq n = true) → x.outs = [.returned c (-1)]
  unchanged : ∀ c r, .returned c r ∈ x.outs → r < 0 →
    x.post.mcp.txb = x.pre.mcp.txb ∧ x.post.mcp.txreq = x.pre.mcp.txreq

theorem moved_returns {x : Transition Bus Input Event} (h : Moved x.pre x.input x.post x.outs)
    (hstep : step x.pre x.input = some (x.post, x.outs)) : Returns x where
  negative := by
    obtain ⟨s, i, outs, s'⟩ := x
    intro c r hr
    cases h with
    | full c' m hfull =>
      cases List.mem_singleton.mp hr
      exact iff_of_true (by decide) hfull
    | request c' m n hn _ =>
      cases List.mem_singleton.mp hr
      refine iff_of_false (by decide) fun hall => ?_
      rw [hall n] at hn
      cases hn
    | complete running m n hn => cases List.mem_singleton.mp hr
    | _ => cases hr
  polled := by
    obtain ⟨⟨running, m⟩, i, outs, s'⟩ := x
    rintro c rfl rfl hfull
    have hrun : step ⟨some (c, c.program), m⟩ .window =
        some (resume c (.pure (-1), { m with session := .deselected })) :=
      congrArg (fun r => some (resume c r)) (window_full ((freeMailbox_none m).mpr hfull))
    cases hrun.symm.trans hstep
    rfl
  unchanged := by
    obtain ⟨s, i, outs, s'⟩ := x
    intro c r hr hneg
    cases h with
    | full c' m hfull => exact ⟨rfl, rfl⟩
    | request c' m n hn _ =>
      cases List.mem_singleton.mp hr
      exact absurd hneg (by decide)
    | complete running m n hn => cases List.mem_singleton.mp hr
    | _ => cases hr

/-- From a reset on, whatever the order of calls, windows and transmissions is: the frames
of the calls that succeed are those transmitted and those pending, each as it was built
and as often as it was sent. A call fails exactly if all mailboxes are pending, and then
changes none. -/
theorem mailboxes_kept {m : Controller} (hreset : ∀ n, m.txreq n = false)
    {tr : List (Transition Bus Input Event)} {s : Bus} (h : Run step ⟨none, m⟩ tr s) :
    Kept tr s.mcp ∧ ∀ x ∈ tr, Returns x := by
  constructor
  · have hempty : pending m = [] := by
      refine List.filterMap_eq_nil_iff.mpr fun n _ => ?_
      rw [hreset n]
      rfl
    have hboth : Stage s ∧ Kept tr s.mcp := by
      refine h.invariant (I := fun tr s => Stage s ∧ Kept tr s.mcp) ⟨.idle m, ?_⟩ ?_
      · rw [Kept, hempty]
        exact .refl _
      · rintro tr s i s' outs _ ⟨hs, hk⟩ hstep
        obtain ⟨hmoved, hs'⟩ := stage_step hs hstep
        exact ⟨hs', kept_moved hk hmoved⟩
    exact hboth.2
  · intro x hx
    obtain ⟨l, r, _, hl, hstep⟩ := h.of_mem hx
    exact moved_returns (stage_step (stage_run hl) hstep).1 hstep

theorem five_le : (5#16 : U16) ≤ 8 := by decide

/-- A call with five bytes, as for a PROG_REQ_RESP. -/
def callFive : Input := .call ⟨0xCB0012A4#32, 5#16, fun i => BitVec.ofNat 8 i, five_le⟩

/-- Five calls and a transmission: the fourth call finds all mailboxes pending. -/
theorem mailboxes_kept_five : ∃ tr s, Run step ⟨none, resetController⟩ tr s ∧
    (accepted tr).length = 4 ∧ (transmitted tr).length = 1 ∧ Kept tr s.mcp := by
  obtain ⟨tr, s, hrun, hp⟩ := Mealy.run_of_exec_any (M := step) (s := ⟨none, resetController⟩)
    (p := fun r => decide ((accepted r.1).length = 4 ∧ (transmitted r.1).length = 1))
    ((List.replicate 3 [callFive, .window, .window, .window]).flatten ++
      [callFive, .window, .complete 1, callFive, .window, .window, .window]) (by decide +kernel)
  obtain ⟨haccepted, htransmitted⟩ := of_decide_eq_true hp
  exact ⟨tr, s, hrun, haccepted, htransmitted, (mailboxes_kept (fun _ => rfl) hrun).1⟩

end CANnuccia.AvrCan

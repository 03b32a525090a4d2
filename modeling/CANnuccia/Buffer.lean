import CANnuccia.Integrity
import CANnuccia.Sequential

/-!
# What messages make of the page buffer

`selPage` is a function of the messages received, whatever the phase is and whenever
the timeout comes. `stored` lists the positions at which they store a byte; a byte
elsewhere is the one that was there before them.
-/
namespace CANnuccia.Pump

open Util CanMsgs Overlay
open Mealy (Machine Transition Run outputs)

section Handle

variable {B : Backend} {devId : U8} {d d' : Dev B} {i : Input} {outs : List Event}

/-- What the handler at `pc` still does to the buffer. -/
def effect (devId : U8) : Pc → Page B → Page B
  | .selectPage data, p => (selectPage devId data p).1
  | .seek data, p => seek data p
  | .write data, p => write data p
  | _, p => p

def handle (devId : U8) (p : Page B) (m : Msg) : Page B := effect devId (dispatch m) p

def handleAll (devId : U8) (p : Page B) (ms : List Msg) : Page B := ms.foldl (handle devId) p

@[simp] theorem handleAll_nil (p : Page B) : handleAll devId p [] = p := rfl

@[simp] theorem handleAll_cons (p : Page B) (m : Msg) (ms : List Msg) :
    handleAll devId p (m :: ms) = handleAll devId (handle devId p m) ms := rfl

@[simp] theorem handleAll_append (p : Page B) (l r : List Msg) :
    handleAll devId p (l ++ r) = handleAll devId (handleAll devId p l) r := List.foldl_append ..

theorem effect_moved (h : Moved devId d i d' outs) : effect devId d'.pc d'.selPage =
    handleAll devId (effect devId d.pc d.selPage) i.message.toList := by
  cases h with
  | main hm _ => cases hm <;> simp_all [effect]
  | silence hpc | receive m hpc => simp_all [effect, handle]
  | expire _ | timeout _ | spurious _ => rfl

theorem effect_run {tr : List (Trans B)} (h : Run (step B devId) d tr d') :
    effect devId d'.pc d'.selPage =
      handleAll devId (effect devId d.pc d.selPage) (received tr) := by
  refine h.invariant (I := fun tr s => effect devId s.pc s.selPage =
    handleAll devId (effect devId d.pc d.selPage) (received tr)) rfl ?_
  intro tr s i s' outs _ ih hstep
  rw [effect_moved (step_moved hstep), ih, received_snoc, handleAll_append]

end Handle

/-- A SEEK that moves the head. -/
def SeeksTo (size : Nat) (data : List U8) : Prop :=
  data.length = 4 ∧ (cnReadU32LE data).toNat < size

instance (size : Nat) (data : List U8) : Decidable (SeeksTo size data) :=
  inferInstanceAs (Decidable (_ ∧ _))

/-- Where a message leaves a head that was at `o`, in a page of `size` bytes. -/
def headAfter (size o : Nat) (m : Msg) : Nat :=
  match dispatch m with
  | .seek data => if SeeksTo size data then (cnReadU32LE data).toNat else o
  | .write data => min (o + data.length) size
  | _ => o

/-- The positions at which a message stores a byte. -/
def storedBy (size o : Nat) (m : Msg) : List Nat :=
  match dispatch m with
  | .write data => List.range' o (min data.length (size - o))
  | _ => []

def stored (size : Nat) : Nat → List Msg → List Nat
  | _, [] => []
  | o, m :: ms => storedBy size o m ++ stored size (headAfter size o m) ms

/-- No WRITE comes before the first SEEK that moves the head. -/
def seekFirst (size : Nat) : List Msg → Bool
  | [] => true
  | m :: ms =>
    match dispatch m with
    | .seek data => decide (SeeksTo size data) || seekFirst size ms
    | .write _ => false
    | _ => seekFirst size ms

section Target

variable {t : Target} {devId : U8}

theorem pageSize_lt (t : Target) : t.pageSize < 2 ^ t.backend.w := t.backend.cnFlashPageSize.isLt

/-- A SEEK inside the page moves the head and nothing else. -/
theorem seek_inside {data : List U8} (h : SeeksTo t.pageSize data) (p : Page t.backend) :
    (seek data p).writeOffset.toNat = (cnReadU32LE data).toNat := by
  have hsize : (t.backend.cnFlashPageSize.setWidth 32).toNat = t.pageSize := toNat_addr _
  have hlt : cnReadU32LE data < t.backend.cnFlashPageSize.setWidth 32 := by
    rw [BitVec.lt_def, hsize]
    exact h.2
  have hw := pageSize_lt t
  unfold seek
  dsimp only
  rw [if_pos h.1, if_pos hlt, BitVec.toNat_setWidth, Nat.mod_eq_of_lt (h.2.trans hw)]

theorem seek_outside {data : List U8} (h : ¬ SeeksTo t.pageSize data) (p : Page t.backend) :
    seek data p = p := by
  have hsize : (t.backend.cnFlashPageSize.setWidth 32).toNat = t.pageSize := toNat_addr _
  unfold seek
  dsimp only
  split_ifs with hlen hlt
  · rw [BitVec.lt_def, hsize] at hlt
    exact absurd ⟨hlen, hlt⟩ h
  · rfl
  · rfl

theorem selectPage_writeOffset {B : Backend} (data : List U8) (p : Page B) :
    (selectPage devId data p).1.writeOffset = p.writeOffset := by
  unfold selectPage
  dsimp only
  split_ifs <;> rfl

/-- The byte at a position of the buffer. -/
def Page.byte {B : Backend} (p : Page B) (i : Nat) : Option U8 := p.writes.toList[i]?

theorem handle_head (devId : U8) {q : Page t.backend} (hq : q.writeOffset.toNat ≤ t.pageSize) (m : Msg) :
    (handle devId q m).writeOffset.toNat = headAfter t.pageSize q.writeOffset.toNat m ∧
      headAfter t.pageSize q.writeOffset.toNat m ≤ t.pageSize := by
  unfold handle headAfter
  cases dispatch m with
  | seek data =>
    by_cases hs : SeeksTo t.pageSize data
    · simp only [effect, seek_inside hs, if_pos hs]
      exact ⟨trivial, hs.2.le⟩
    · simp only [effect, seek_outside hs, if_neg hs]
      exact ⟨trivial, hq⟩
  | write data => exact ⟨(write_spec data q hq).2, Nat.min_le_right _ _⟩
  | selectPage data => exact ⟨by rw [effect, selectPage_writeOffset], hq⟩
  | _ => exact ⟨rfl, hq⟩

/-- A message that stores at `i` stores a byte of its own there. -/
theorem handle_byte (devId : U8) {q : Page t.backend} (hq : q.writeOffset.toNat ≤ t.pageSize) (m : Msg)
    (i : Nat) : ∃ b, ∀ q' : Page t.backend, q'.writeOffset = q.writeOffset →
      (handle devId q' m).byte i =
        if i ∈ storedBy t.pageSize q.writeOffset.toNat m then b else q'.byte i := by
  unfold handle storedBy Page.byte
  cases dispatch m with
  | write data =>
    refine ⟨data[i - q.writeOffset.toNat]?, fun q' ho => ?_⟩
    have hlen : q'.writes.toList.length = t.pageSize := Vector.length_toList
    rw [effect, (write_spec data q' (by rw [ho]; exact hq)).1, ho,
      lay_getElem? _ _ (by rw [hlen]; exact hq), hlen]
  | seek data => exact ⟨none, fun q' _ => by simp [effect, seek_writes]⟩
  | selectPage data => exact ⟨none, fun q' _ => by simp [effect, selectPage_writes]⟩
  | _ => exact ⟨none, fun q' _ => by simp [effect]⟩

/-- Where the messages store nothing the old byte stays. -/
theorem handleAll_kept (ms : List Msg) : ∀ {q : Page t.backend} {i : Nat},
    q.writeOffset.toNat ≤ t.pageSize → i ∉ stored t.pageSize q.writeOffset.toNat ms →
      (handleAll devId q ms).byte i = q.byte i := by
  induction ms with
  | nil =>
    intro q i _ _
    rfl
  | cons m ms ih =>
    intro q i hq hi
    rw [stored, List.mem_append, not_or] at hi
    obtain ⟨hhead, hle⟩ := handle_head devId hq m
    obtain ⟨b, hb⟩ := handle_byte devId hq m i
    rw [handleAll_cons, ih (by rw [hhead]; exact hle) (by rw [hhead]; exact hi.2), hb q rfl,
      if_neg hi.1]

/-- From one head, the bytes stored do not depend on the buffer. -/
theorem handleAll_same (ms : List Msg) : ∀ {q q' : Page t.backend} {i : Nat},
    q.writeOffset.toNat ≤ t.pageSize → q'.writeOffset = q.writeOffset →
      i ∈ stored t.pageSize q.writeOffset.toNat ms ∨ q'.byte i = q.byte i →
      (handleAll devId q' ms).byte i = (handleAll devId q ms).byte i := by
  induction ms with
  | nil =>
    intro q q' i _ _ hi
    exact hi.resolve_left (by simp [stored])
  | cons m ms ih =>
    intro q q' i hq ho hi
    obtain ⟨hhead, hle⟩ := handle_head devId hq m
    obtain ⟨hhead', _⟩ := handle_head devId (q := q') (by rw [ho]; exact hq) m
    obtain ⟨b, hb⟩ := handle_byte devId hq m i
    rw [handleAll_cons, handleAll_cons]
    refine ih (by rw [hhead]; exact hle) (BitVec.eq_of_toNat_eq (by rw [hhead, hhead', ho])) ?_
    rw [hb q' ho, hb q rfl, hhead]
    by_cases hnow : i ∈ storedBy t.pageSize q.writeOffset.toNat m
    · exact .inr (by rw [if_pos hnow, if_pos hnow])
    · rw [stored, List.mem_append] at hi
      rw [if_neg hnow, if_neg hnow]
      exact hi.imp_left fun hi => hi.resolve_left hnow

/-- Equal heads stay equal. -/
theorem handleAll_head (ms : List Msg) : ∀ {q q' : Page t.backend},
    q.writeOffset.toNat ≤ t.pageSize → q'.writeOffset = q.writeOffset →
      (handleAll devId q' ms).writeOffset = (handleAll devId q ms).writeOffset := by
  induction ms with
  | nil =>
    intro q q' _ ho
    exact ho
  | cons m ms ih =>
    intro q q' hq ho
    obtain ⟨hhead, hle⟩ := handle_head devId hq m
    obtain ⟨hhead', _⟩ := handle_head devId (q := q') (by rw [ho]; exact hq) m
    exact ih (by rw [hhead]; exact hle) (BitVec.eq_of_toNat_eq (by rw [hhead, hhead', ho]))

def IsWrite (m : Msg) : Prop := m.id &&& cnCanMsgidMask = cnCanMsgWrite

theorem dispatch_isWrite {m : Msg} (h : IsWrite m) : dispatch m = .write m.data := by
  have hkind : m.id &&& cnCanMsgidMask = cnCanMsgWrite := h
  unfold dispatch
  rw [hkind]
  rfl

theorem isWrite_iff {m : Msg} : IsWrite m ↔ ∃ data, dispatch m = .write data := by
  constructor
  · intro h
    exact ⟨m.data, dispatch_isWrite h⟩
  · rintro ⟨data, hd⟩
    exact dispatch_handles (by rw [hd]; rfl)

/-- A message that neither seeks nor writes leaves head and bytes alone. -/
theorem handle_idle (devId : U8) {m : Msg} (hw : ¬ IsWrite m) (hs : ∀ data, dispatch m = .seek data →
    ¬ SeeksTo t.pageSize data) (q : Page t.backend) (o : Nat) :
    (handle devId q m).writeOffset = q.writeOffset ∧ headAfter t.pageSize o m = o ∧
      storedBy t.pageSize o m = [] := by
  rw [isWrite_iff] at hw
  unfold handle headAfter storedBy
  cases hd : dispatch m with
  | seek data =>
    have hout := hs data hd
    exact ⟨by rw [effect, seek_outside hout], if_neg hout, rfl⟩
  | write data => exact absurd ⟨data, hd⟩ hw
  | selectPage data => exact ⟨selectPage_writeOffset data q, rfl, rfl⟩
  | _ => exact ⟨rfl, rfl, rfl⟩

/-- The three kinds of a first message. -/
theorem seekFirst_cons (m : Msg) (ms : List Msg) :
    (∃ data, dispatch m = .seek data ∧ SeeksTo t.pageSize data ∧
      seekFirst t.pageSize (m :: ms) = true) ∨
    (IsWrite m ∧ seekFirst t.pageSize (m :: ms) = false) ∨
    ((¬ IsWrite m ∧ ∀ data, dispatch m = .seek data → ¬ SeeksTo t.pageSize data) ∧
      seekFirst t.pageSize (m :: ms) = seekFirst t.pageSize ms) := by
  rw [isWrite_iff]
  cases hd : dispatch m with
  | seek data =>
    by_cases hs : SeeksTo t.pageSize data
    · exact .inl ⟨data, rfl, hs, by simp [seekFirst, hd, hs]⟩
    · refine .inr (.inr ⟨⟨by simp, ?_⟩, by simp [seekFirst, hd, hs]⟩)
      rintro _ ⟨rfl⟩
      exact hs
  | write data => exact .inr (.inl ⟨⟨data, rfl⟩, by simp [seekFirst, hd]⟩)
  | _ => exact .inr (.inr ⟨by simp, by simp [seekFirst, hd]⟩)

/-- After a SEEK the head is the same in every buffer. -/
theorem seek_heads (devId : U8) {m : Msg} {data : List U8} (hd : dispatch m = .seek data)
    (hs : SeeksTo t.pageSize data) (q q' : Page t.backend) (o : Nat) :
    (handle devId q m).writeOffset.toNat ≤ t.pageSize ∧
      (handle devId q' m).writeOffset = (handle devId q m).writeOffset ∧
      headAfter t.pageSize o m = (handle devId q m).writeOffset.toNat ∧
      storedBy t.pageSize o m = [] := by
  have hhead : ∀ q : Page t.backend, (handle devId q m).writeOffset.toNat =
      (cnReadU32LE data).toNat := by
    intro q
    rw [handle, hd]
    exact seek_inside hs q
  refine ⟨by rw [hhead]; exact hs.2.le, BitVec.eq_of_toNat_eq (by rw [hhead, hhead]), ?_, ?_⟩
  · rw [hhead, headAfter, hd]
    exact if_pos hs
  · rw [storedBy, hd]

/-- If a SEEK comes first, the bytes stored do not depend on the buffer before. -/
theorem seekFirst_same (ms : List Msg) : ∀ {q q' : Page t.backend} {o i : Nat},
    seekFirst t.pageSize ms = true → i ∈ stored t.pageSize o ms →
      (handleAll devId q' ms).byte i = (handleAll devId q ms).byte i := by
  induction ms with
  | nil =>
    intro q q' o i _ hi
    cases hi
  | cons m ms ih =>
    intro q q' o i hfirst hi
    rw [stored] at hi
    rw [handleAll_cons, handleAll_cons]
    rcases seekFirst_cons (t := t) m ms with ⟨data, hd, hs, _⟩ | ⟨_, hf⟩ | ⟨⟨hw, hs⟩, he⟩
    · obtain ⟨hle, hsame, hafter, hnone⟩ := seek_heads devId hd hs q q' o
      rw [hnone, List.nil_append, hafter] at hi
      exact handleAll_same ms hle hsame (.inl hi)
    · rw [hf] at hfirst
      cases hfirst
    · obtain ⟨_, hafter, hnone⟩ := handle_idle devId hw hs q o
      rw [hnone, List.nil_append, hafter] at hi
      exact ih (he.symm.trans hfirst) hi

/-- If a SEEK comes first, so does it before the first WRITE. -/
theorem seekFirst_head (l : List Msg) {w : Msg} {rest : List Msg} : ∀ {q q' : Page t.backend},
    seekFirst t.pageSize (l ++ w :: rest) = true → IsWrite w → (∀ k ∈ l, ¬ IsWrite k) →
      (handleAll devId q' l).writeOffset = (handleAll devId q l).writeOffset := by
  induction l with
  | nil =>
    intro q q' hfirst hw _
    rcases seekFirst_cons (t := t) w rest with ⟨data, hd, _⟩ | ⟨_, hf⟩ | ⟨⟨hno, _⟩, _⟩
    · obtain ⟨data', hd'⟩ := isWrite_iff.mp hw
      rw [hd] at hd'
      cases hd'
    · rw [List.nil_append, hf] at hfirst
      cases hfirst
    · exact absurd hw hno
  | cons m l ih =>
    intro q q' hfirst hw hl
    rw [handleAll_cons, handleAll_cons]
    rcases seekFirst_cons (t := t) m (l ++ w :: rest) with ⟨data, hd, hs, _⟩ | ⟨hwm, _⟩ | ⟨_, he⟩
    · obtain ⟨hle, hsame, _⟩ := seek_heads devId hd hs q q' 0
      exact handleAll_head l hle hsame
    · exact absurd hwm (hl m (List.mem_cons_self ..))
    · exact ih (he.symm.trans hfirst) hw fun k hk => hl k (List.mem_cons_of_mem m hk)

/-- Otherwise some WRITE finds the head where it was before the messages. -/
theorem seekFirst_false (devId : U8) (ms : List Msg) (h : seekFirst t.pageSize ms = false) :
    ∃ l w rest, ms = l ++ w :: rest ∧ IsWrite w ∧ (∀ k ∈ l, ¬ IsWrite k) ∧
      ∀ q : Page t.backend, (handleAll devId q l).writeOffset = q.writeOffset := by
  induction ms with
  | nil => cases h
  | cons m ms ih =>
    rcases seekFirst_cons (t := t) m ms with ⟨data, hd, _, hf⟩ | ⟨hw, _⟩ | ⟨⟨hw, hs⟩, he⟩
    · rw [hf] at h
      cases h
    · exact ⟨[], m, ms, rfl, hw, by simp, fun q => rfl⟩
    · obtain ⟨l, w, rest, rfl, hw', hl, hhead⟩ := ih (he.symm.trans h)
      refine ⟨m :: l, w, rest, rfl, hw', List.forall_mem_cons.mpr ⟨hw, hl⟩, fun q => ?_⟩
      rw [handleAll_cons, hhead]
      exact (handle_idle devId hw hs q 0).1

end Target

end CANnuccia.Pump

import CANnuccia.Overlay

/-!
# A store of pages that is programmed by requests

What a bootloader is for, without its hardware: pages of a memory are replaced by the
contents of a buffer that the requests fill. Nothing is promised for a commit without a
page that can be programmed, nor once the session has ended.
-/
namespace PageStore

open Overlay

variable {β χ : Type}

inductive Phase where
  | idle | locked | unlocked | ended
  deriving DecidableEq, Repr

inductive Request (β : Type) where
  | progReq
  | unlock
  | selectPage (addr : Nat)
  | seek (offset : Nat)
  | write (bytes : List β)
  | checkWrites
  | commitWrites
  | progDone

inductive Response (χ : Type) where
  | stats
  | unlocked
  | pageSelected (page : Nat)
  | writesChecked (sum : χ)
  | writesCommitted (page : Nat)
  | progDone

/-- What stores differ in. `pageOf` is the page that an address selects, if any, and
`opens` tells whether the memory can be unlocked. -/
structure Device (β χ : Type) where
  pageSize : Nat
  pageOf : Nat → Option Nat
  programmable : Nat → Bool
  opens : Bool
  checksum : List β → χ

structure Store (β : Type) where
  phase : Phase
  page : Option Nat
  offset : Nat
  buffer : List β
  mem : Nat → β

variable (D : Device β χ)

/-- The store before the first request. -/
def Store.start (fill : β) (mem : Nat → β) : Store β :=
  ⟨.idle, none, 0, List.replicate D.pageSize fill, mem⟩

def unlock (s : Store β) : Store β × List (Response χ) :=
  match s.phase with
  | .idle => (s, [])
  | .locked => if D.opens then ({ s with phase := .unlocked }, [.unlocked]) else (s, [])
  | .unlocked | .ended => (s, [.unlocked])

def selectPage (addr : Nat) (s : Store β) : Store β × List (Response χ) :=
  match D.pageOf addr with
  | none => (s, [])
  | some p => ({ s with page := some p }, [.pageSelected p])

def commitWrites (s : Store β) : Option (Store β × List (Response χ)) :=
  if s.phase = .unlocked then
    match s.page with
    | none => none
    | some p =>
      if D.programmable p then
        some ({ s with mem := overlay s.mem p s.buffer }, [.writesCommitted p])
      else none
  else some (s, [])

/-- What a request does to a store whose session goes on. -/
def react (s : Store β) : Request β → Option (Store β × List (Response χ))
  | .progReq => some ({ s with phase := if s.phase = .idle then .locked else s.phase }, [.stats])
  | .unlock => some (unlock D s)
  | .selectPage addr => some (selectPage D addr s)
  | .seek offset => some ({ s with offset := if offset < D.pageSize then offset else s.offset }, [])
  | .write bytes =>
    some ({ s with
      offset := min (s.offset + bytes.length) D.pageSize
      buffer := lay s.buffer s.offset bytes }, [])
  | .checkWrites => some (s, [.writesChecked (D.checksum s.buffer)])
  | .commitWrites => commitWrites D s
  | .progDone => some ({ s with phase := .ended }, [.progDone])

def respond (s : Store β) (r : Request β) : Option (Store β × List (Response χ)) :=
  if s.phase = .ended then none else react D s r

/-- The store after some requests, and all that was responded. -/
def respondAll (s : Store β) : List (Request β) → Option (Store β × List (Response χ))
  | [] => some (s, [])
  | r :: rs =>
    (respond D s r).bind fun q => (respondAll q.1 rs).map fun q' => (q'.1, q.2 ++ q'.2)

variable {D} {s s' : Store β} {r : Request β} {rs : List (Request β)} {o : List (Response χ)}

/-- The buffer is that of a page, and its head does not leave it. -/
structure Sized (D : Device β χ) (s : Store β) : Prop where
  buffer : s.buffer.length = D.pageSize
  offset : s.offset ≤ D.pageSize

theorem sized_start (fill : β) (mem : Nat → β) : Sized D (Store.start D fill mem) :=
  ⟨List.length_replicate, Nat.zero_le _⟩

theorem lay_length (l xs : List β) (i : Nat) (hi : i ≤ l.length) :
    (lay l i xs).length = l.length := by
  simp only [lay, List.length_append, List.length_take, List.length_drop]
  omega

theorem unlock_idle (h : s.phase = .idle) : unlock D s = (s, []) := by simp [unlock, h]

theorem unlock_locked (h : s.phase = .locked) : unlock D s =
    if D.opens then ({ s with phase := .unlocked }, [.unlocked]) else (s, []) := by
  simp [unlock, h]

theorem unlock_unlocked (h : s.phase = .unlocked) : unlock D s = (s, [.unlocked]) := by
  simp [unlock, h]

theorem commitWrites_refused (h : s.phase ≠ .unlocked) : commitWrites D s = some (s, []) := by
  simp [commitWrites, h]

/-- Where a commit is promised to do something. -/
theorem commitWrites_some (hp : s.phase = .unlocked) (h : commitWrites D s = some (s', o)) :
    ∃ p, s.page = some p ∧ D.programmable p = true ∧
      s' = { s with mem := overlay s.mem p s.buffer } ∧ o = [.writesCommitted p] := by
  rw [commitWrites, if_pos hp] at h
  split at h
  · cases h
  · split at h
    · cases h
      exact ⟨_, ‹_›, ‹_›, rfl, rfl⟩
    · cases h

theorem unlock_kept (s : Store β) : (unlock D s).1.page = s.page ∧ (unlock D s).1.mem = s.mem ∧
    (unlock D s).1.buffer = s.buffer ∧ (unlock D s).1.offset = s.offset := by
  unfold unlock
  split
  · exact ⟨rfl, rfl, rfl, rfl⟩
  · split <;> exact ⟨rfl, rfl, rfl, rfl⟩
  · exact ⟨rfl, rfl, rfl, rfl⟩
  · exact ⟨rfl, rfl, rfl, rfl⟩

theorem selectPage_kept (addr : Nat) (s : Store β) :
    (selectPage D addr s).1.phase = s.phase ∧ (selectPage D addr s).1.mem = s.mem ∧
      (selectPage D addr s).1.buffer = s.buffer ∧ (selectPage D addr s).1.offset = s.offset := by
  unfold selectPage
  split <;> exact ⟨rfl, rfl, rfl, rfl⟩

/-- The pages that were responded to be committed. -/
def committed (o : List (Response χ)) : List Nat :=
  o.filterMap fun
    | .writesCommitted p => some p
    | _ => none

@[simp] theorem committed_append (o o' : List (Response χ)) :
    committed (o ++ o') = committed o ++ committed o' := List.filterMap_append

theorem unlock_committed (s : Store β) : committed (unlock D s).2 = [] := by
  unfold unlock
  split
  · rfl
  · split <;> rfl
  · rfl
  · rfl

theorem selectPage_committed (addr : Nat) (s : Store β) :
    committed (selectPage D addr s).2 = [] := by
  unfold selectPage
  split <;> rfl

/-- A request commits one page, or changes no byte of the memory. -/
inductive Writes (D : Device β χ) (s s' : Store β) (o : List (Response χ)) : Prop where
  | none : s'.mem = s.mem → committed o = [] → Writes D s s' o
  | page (p : Nat) : s.phase = .unlocked → s.page = some p → D.programmable p = true →
      s'.mem = overlay s.mem p s.buffer → committed o = [p] → Writes D s s' o

theorem respond_react (h : respond D s r = some (s', o)) : react D s r = some (s', o) := by
  unfold respond at h
  split at h
  · cases h
  · exact h

theorem respond_sized (hs : Sized D s) (h : respond D s r = some (s', o)) : Sized D s' := by
  have hr := respond_react h
  cases r with
  | progReq | checkWrites | progDone =>
    cases hr
    exact ⟨hs.buffer, hs.offset⟩
  | unlock =>
    obtain ⟨_, _, hbuffer, hoffset⟩ := unlock_kept (D := D) s
    obtain rfl : (unlock D s).1 = s' := congrArg Prod.fst (Option.some.inj hr)
    exact ⟨by rw [hbuffer]; exact hs.buffer, by rw [hoffset]; exact hs.offset⟩
  | selectPage addr =>
    obtain ⟨_, _, hbuffer, hoffset⟩ := selectPage_kept (D := D) addr s
    obtain rfl : (selectPage D addr s).1 = s' := congrArg Prod.fst (Option.some.inj hr)
    exact ⟨by rw [hbuffer]; exact hs.buffer, by rw [hoffset]; exact hs.offset⟩
  | seek offset =>
    cases hr
    refine ⟨hs.buffer, ?_⟩
    have hhead := hs.offset
    dsimp only
    split <;> omega
  | write bytes =>
    cases hr
    refine ⟨?_, Nat.min_le_right _ _⟩
    rw [lay_length _ _ _ (by rw [hs.buffer]; exact hs.offset)]
    exact hs.buffer
  | commitWrites =>
    rw [react] at hr
    by_cases hp : s.phase = .unlocked
    · obtain ⟨p, _, _, rfl, _⟩ := commitWrites_some hp hr
      exact ⟨hs.buffer, hs.offset⟩
    · cases (commitWrites_refused hp).symm.trans hr
      exact hs

theorem respond_writes (h : respond D s r = some (s', o)) : Writes D s s' o := by
  have hr := respond_react h
  cases r with
  | unlock =>
    obtain ⟨rfl, rfl⟩ : (unlock D s).1 = s' ∧ (unlock D s).2 = o :=
      Prod.ext_iff.mp (Option.some.inj hr)
    exact .none (unlock_kept s).2.1 (unlock_committed s)
  | selectPage addr =>
    obtain ⟨rfl, rfl⟩ : (selectPage D addr s).1 = s' ∧ (selectPage D addr s).2 = o :=
      Prod.ext_iff.mp (Option.some.inj hr)
    exact .none (selectPage_kept addr s).2.1 (selectPage_committed addr s)
  | commitWrites =>
    rw [react] at hr
    by_cases hp : s.phase = .unlocked
    · obtain ⟨p, hpage, hprog, rfl, rfl⟩ := commitWrites_some hp hr
      exact .page p hp hpage hprog rfl rfl
    · cases (commitWrites_refused hp).symm.trans hr
      exact .none rfl rfl
  | _ =>
    cases hr
    exact .none rfl rfl

theorem respondAll_nil (s : Store β) : respondAll D s [] = some (s, []) := rfl

theorem respondAll_cons {q : Store β × List (Response χ)} :
    respondAll D s (r :: rs) = some q ↔ ∃ s₁ o₁ o₂, respond D s r = some (s₁, o₁) ∧
      respondAll D s₁ rs = some (q.1, o₂) ∧ q.2 = o₁ ++ o₂ := by
  rw [respondAll, Option.bind_eq_some_iff]
  constructor
  · rintro ⟨⟨s₁, o₁⟩, h, hmap⟩
    obtain ⟨⟨s₂, o₂⟩, hrest, rfl⟩ := Option.map_eq_some_iff.mp hmap
    exact ⟨s₁, o₁, o₂, h, hrest, rfl⟩
  · rintro ⟨s₁, o₁, o₂, h, hrest, he⟩
    exact ⟨(s₁, o₁), h, Option.map_eq_some_iff.mpr ⟨_, hrest, Prod.ext rfl he.symm⟩⟩

/-- The memory after a session is the memory before it with a buffer laid over each page
that was responded to be committed, in their order. -/
theorem respondAll_writes (hs : Sized D s) (h : respondAll D s rs = some (s', o)) :
    ∃ ws : List (Nat × List β), ws.map Prod.fst = committed o ∧
      (∀ w ∈ ws, D.programmable w.1 = true ∧ w.2.length = D.pageSize) ∧
      s'.mem = overlays s.mem ws := by
  induction rs generalizing s o with
  | nil =>
    cases h
    exact ⟨[], rfl, by simp, rfl⟩
  | cons r rs ih =>
    obtain ⟨s₁, o₁, o₂, hrespond, hrest, ho⟩ := respondAll_cons.mp h
    simp only at ho
    subst ho
    obtain ⟨ws, hpages, hall, hmem⟩ := ih (respond_sized hs hrespond) hrest
    cases respond_writes hrespond with
    | none hsame hno => exact ⟨ws, by simp [hno, hpages], hall, by rw [hmem, hsame]⟩
    | page p _ _ hprog hover hone =>
      refine ⟨(p, s.buffer) :: ws, by simp [hone, hpages], ?_, by rw [hmem, hover, overlays_cons]⟩
      intro w hw
      rcases List.mem_cons.mp hw with rfl | hw
      · exact ⟨hprog, hs.buffer⟩
      · exact hall w hw

end PageStore

import CANnuccia.Mealy
import Mathlib.Data.List.Chain
import Mathlib.Logic.Relation

/-!
# A program and the interrupt that preempts it

A program carries out its calls as lists of register accesses. A device counts on its own and
raises an event; the interrupt that it requests can be dispatched between any two accesses,
right then or later, and its handler runs to the end before the program goes on. The accesses
tell what they mean for the function that the handler is to run: it is installed, the count
that is to run it begins, or it is cut off.
-/
namespace Preempt

open Mealy

variable {Call F : Type}

inductive Event (F : Type) where
  | install (f : F)
  | count
  | mask
  | expiry
  | dispatch
  | run (f : F)
  deriving DecidableEq

/-- A call is `none` where the program has no meaning. `dispatch` starts a handler. -/
structure Device (Call F : Type) where
  Reg : Type
  Access : Type
  access : Access → Reg → Reg × Option (Event F)
  accesses : Call → Option (List Access)
  expire : Reg → Option Reg
  dispatch : Reg → Option (Reg × List Access)

/-- What the program and the handler still have to do. -/
structure State (D : Device Call F) where
  reg : D.Reg
  main : List D.Access
  handler : List D.Access

inductive Input (Call : Type) where
  | call (c : Call)
  | access
  | expire
  | dispatch

variable {D : Device Call F}

/-- The handler goes first, and is not preempted itself. -/
def machine (D : Device Call F) : Machine (State D) (Input Call) (Event F) := fun s i =>
  match i with
  | .call c =>
    match s.main, s.handler with
    | [], [] => (D.accesses c).map fun l => ({ s with main := l }, [])
    | _, _ => none
  | .access =>
    match s.handler, s.main with
    | a :: h, _ =>
      some ({ s with reg := (D.access a s.reg).1, handler := h }, (D.access a s.reg).2.toList)
    | [], a :: l =>
      some ({ s with reg := (D.access a s.reg).1, main := l }, (D.access a s.reg).2.toList)
    | [], [] => none
  | .expire => (D.expire s.reg).map fun r => ({ s with reg := r }, [.expiry])
  | .dispatch =>
    match s.handler with
    | [] => (D.dispatch s.reg).map fun p => ({ s with reg := p.1, handler := p.2 }, [.dispatch])
    | _ :: _ => none

def idle (r : D.Reg) : State D := ⟨r, [], []⟩

/-- Accesses made with nothing between them. -/
def Device.carryOut (D : Device Call F) : List D.Access → D.Reg → D.Reg × List (Event F)
  | [], r => (r, [])
  | a :: l, r =>
    let (r', es) := D.carryOut l (D.access a r).1
    (r', (D.access a r).2.toList ++ es)

/-- What a step can be. -/
inductive Stepped (D : Device Call F) : State D → State D → Option (Event F) → Prop where
  | call {r : D.Reg} {c : Call} {l : List D.Access} : D.accesses c = some l →
      Stepped D ⟨r, [], []⟩ ⟨r, l, []⟩ none
  | main {r r' : D.Reg} {a : D.Access} {l : List D.Access} {e : Option (Event F)} :
      D.access a r = (r', e) → Stepped D ⟨r, a :: l, []⟩ ⟨r', l, []⟩ e
  | handler {r r' : D.Reg} {a : D.Access} {main h : List D.Access} {e : Option (Event F)} :
      D.access a r = (r', e) → Stepped D ⟨r, main, a :: h⟩ ⟨r', main, h⟩ e
  | expire {r r' : D.Reg} {main h : List D.Access} : D.expire r = some r' →
      Stepped D ⟨r, main, h⟩ ⟨r', main, h⟩ (some .expiry)
  | dispatch {r r' : D.Reg} {main h : List D.Access} : D.dispatch r = some (r', h) →
      Stepped D ⟨r, main, []⟩ ⟨r', main, h⟩ (some .dispatch)

theorem step_stepped {s s' : State D} {i : Input Call} {outs : List (Event F)}
    (h : machine D s i = some (s', outs)) : ∃ e, outs = e.toList ∧ Stepped D s s' e := by
  obtain ⟨r, main, hl⟩ := s
  cases i with
  | call c =>
    cases main with
    | cons a l => cases h
    | nil =>
      cases hl with
      | cons a l => cases h
      | nil =>
        obtain ⟨l, hl, hs⟩ := Option.map_eq_some_iff.mp h
        cases hs
        exact ⟨none, rfl, .call hl⟩
  | access =>
    cases hl with
    | cons a l =>
      cases h
      exact ⟨_, rfl, .handler rfl⟩
    | nil =>
      cases main with
      | nil => cases h
      | cons a l =>
        cases h
        exact ⟨_, rfl, .main rfl⟩
  | expire =>
    obtain ⟨r', hr, hs⟩ := Option.map_eq_some_iff.mp h
    cases hs
    exact ⟨some .expiry, rfl, .expire hr⟩
  | dispatch =>
    cases hl with
    | cons a l => cases h
    | nil =>
      obtain ⟨⟨r', hl⟩, hr, hs⟩ := Option.map_eq_some_iff.mp h
      cases hs
      exact ⟨some .dispatch, rfl, .dispatch hr⟩

/-- A program left alone makes all the accesses of its call. -/
theorem run_carryOut (l : List D.Access) (r : D.Reg) :
    ∃ tr, Run (machine D) ⟨r, l, []⟩ tr (idle (D.carryOut l r).1) ∧
      outputs tr = (D.carryOut l r).2 := by
  induction l generalizing r with
  | nil => exact ⟨[], .nil, rfl⟩
  | cons a l ih =>
    obtain ⟨tr, hrun, houts⟩ := ih (D.access a r).1
    have hstep : machine D ⟨r, a :: l, []⟩ .access =
        some (⟨(D.access a r).1, l, []⟩, (D.access a r).2.toList) := rfl
    refine ⟨_, (Run.single hstep).append hrun, ?_⟩
    rw [outputs_append, outputs_singleton, houts]
    rfl

/-- A handler does, too. -/
theorem run_carryOut_handler (main h : List D.Access) (r : D.Reg) :
    ∃ tr, Run (machine D) ⟨r, main, h⟩ tr ⟨(D.carryOut h r).1, main, []⟩ ∧
      outputs tr = (D.carryOut h r).2 := by
  induction h generalizing r with
  | nil => exact ⟨[], .nil, rfl⟩
  | cons a h ih =>
    obtain ⟨tr, hrun, houts⟩ := ih (D.access a r).1
    have hstep : machine D ⟨r, main, a :: h⟩ .access =
        some (⟨(D.access a r).1, main, h⟩, (D.access a r).2.toList) := rfl
    refine ⟨_, (Run.single hstep).append hrun, ?_⟩
    rw [outputs_append, outputs_singleton, houts]
    rfl

/-- A call, an expiry or an interrupt with nothing else in between. -/
inductive Atomic (D : Device Call F) : D.Reg → D.Reg → List (Event F) → Prop where
  | call {r : D.Reg} {c : Call} {l : List D.Access} : D.accesses c = some l →
      Atomic D r (D.carryOut l r).1 (D.carryOut l r).2
  | expire {r r' : D.Reg} : D.expire r = some r' → Atomic D r r' [.expiry]
  | dispatch {r r' : D.Reg} {h : List D.Access} : D.dispatch r = some (r', h) →
      Atomic D r (D.carryOut h r').1 (.dispatch :: (D.carryOut h r').2)

theorem atomic_run {r r' : D.Reg} {es : List (Event F)} (h : Atomic D r r' es) :
    ∃ tr, Run (machine D) (idle r) tr (idle r') ∧ outputs tr = es := by
  cases h with
  | @call c l hl =>
    obtain ⟨tr, hrun, houts⟩ := run_carryOut l r
    have hstep : machine D (idle r) (.call c) = some (⟨r, l, []⟩, []) :=
      Option.map_eq_some_iff.mpr ⟨l, hl, rfl⟩
    refine ⟨_, (Run.single hstep).append hrun, ?_⟩
    rw [outputs_append, houts]
    rfl
  | expire hr =>
    have hstep : machine D (idle r) .expire = some (idle r', [.expiry]) :=
      Option.map_eq_some_iff.mpr ⟨r', hr, rfl⟩
    exact ⟨_, Run.single hstep, rfl⟩
  | @dispatch r₁ h hr =>
    obtain ⟨tr, hrun, houts⟩ := run_carryOut_handler [] h r₁
    have hstep : machine D (idle r) .dispatch = some (⟨r₁, [], h⟩, [.dispatch]) :=
      Option.map_eq_some_iff.mpr ⟨(r₁, h), hr, rfl⟩
    refine ⟨_, (Run.single hstep).append hrun, ?_⟩
    rw [outputs_append, houts]
    rfl

/-- Steps without anything in between are a run, too. -/
theorem atomics_run {r r' : D.Reg}
    (h : Relation.ReflTransGen (fun r r' => ∃ es, Atomic D r r' es) r r') :
    ∃ tr, Run (machine D) (idle r) tr (idle r') := by
  induction h with
  | refl => exact ⟨[], .nil⟩
  | tail _ hstep ih =>
    obtain ⟨tr, hrun⟩ := ih
    obtain ⟨es, hes⟩ := hstep
    obtain ⟨tr', hrun', _⟩ := atomic_run hes
    exact ⟨_, hrun.append hrun'⟩

section

variable {α : Type}

/-- `e` happened after a past of which `P` holds, and nothing of `Q` since. -/
def After (P : List α → Prop) (e : α) (Q : α → Prop) (es : List α) : Prop :=
  ∃ l r, es = l ++ e :: r ∧ P l ∧ ∀ x ∈ r, ¬ Q x

variable {P : List α → Prop} {e x : α} {Q Q' : α → Prop} {es : List α}

theorem after_nil : ¬ After P e Q [] := by
  rintro ⟨l, r, h, _⟩
  simp at h

/-- The last element is the one looked for, or leaves the matter as it was. -/
theorem after_snoc : After P e Q (es ++ [x]) ↔ (x = e ∧ P es) ∨ (After P e Q es ∧ ¬ Q x) := by
  constructor
  · rintro ⟨l, r, h, hP, hQ⟩
    rcases r.eq_nil_or_concat with rfl | ⟨r, y, rfl⟩
    · obtain ⟨rfl, hx⟩ := List.append_inj' h rfl
      exact .inl ⟨List.singleton_inj.mp hx, hP⟩
    · rw [List.concat_eq_append] at h hQ
      have hsplit : es ++ [x] = (l ++ e :: r) ++ [y] := by simpa using h
      obtain ⟨rfl, hx⟩ := List.append_inj' hsplit rfl
      obtain rfl := List.singleton_inj.mp hx
      exact .inr ⟨⟨l, r, rfl, hP, fun z hz => hQ z (List.mem_append_left _ hz)⟩, hQ x (by simp)⟩
  · rintro (⟨rfl, hP⟩ | ⟨⟨l, r, rfl, hP, hQ⟩, hx⟩)
    · exact ⟨es, [], rfl, hP, by simp⟩
    · refine ⟨l, r ++ [x], by simp, hP, ?_⟩
      intro z hz
      rcases List.mem_append.mp hz with hz | hz
      · exact hQ z hz
      · rw [List.mem_singleton.mp hz]
        exact hx

/-- What ends the first also ends the second, so the second implies the first. -/
theorem After.first {e' : α} (h : After (After P e Q) e' Q' es) (he : ¬ Q e')
    (hQ : ∀ x, Q x → Q' x) : After P e Q es := by
  obtain ⟨_, r, rfl, ⟨l, m, rfl, hP, hm⟩, hr⟩ := h
  refine ⟨l, m ++ e' :: r, by simp, hP, ?_⟩
  intro x hx
  rcases List.mem_append.mp hx with hx | hx
  · exact hm x hx
  · rcases List.mem_cons.mp hx with rfl | hx
    · exact he
    · exact fun h => hr x hx (hQ x h)

end

/-- A new start and a stop, of the function that the handler is to run. -/
def Event.Changes : Event F → Prop
  | .install _ | .mask => True
  | _ => False

def Event.Dispatches : Event F → Prop
  | .dispatch => True
  | _ => False

def Event.Runs : Event F → Prop
  | .run _ => True
  | _ => False

/-- `f` is the function installed last. -/
def Installed (f : F) : List (Event F) → Prop := After (fun _ => True) (.install f) Event.Changes

/-- The count that is to run `f` has begun. -/
def Counting (f : F) : List (Event F) → Prop := After (Installed f) .count Event.Changes

/-- This count expired. -/
def Expired (f : F) : List (Event F) → Prop :=
  After (Counting f) .expiry fun e => e.Changes ∨ e.Dispatches

/-- The interrupt for this expiry was dispatched, and ran nothing yet. -/
def Caused (f : F) : List (Event F) → Prop :=
  After (Expired f) .dispatch fun e => e.Changes ∨ e.Dispatches ∨ e.Runs

/-- Each function that was run is caused by an expiry of the count begun for it. -/
def RunsCaused (es : List (Event F)) : Prop := ∀ l f r, es = l ++ .run f :: r → Caused f l

/-- What the past comes to: the function installed, the one whose count is on, the one whose
count expired last, and the one that a handler is to run. -/
structure Monitor (F : Type) where
  installed : Option F
  live : Option F
  cause : Option F
  due : Option F

def Monitor.none : Monitor F := ⟨.none, .none, .none, .none⟩

def Monitor.next (m : Monitor F) : Event F → Monitor F
  | .install f => ⟨some f, .none, .none, .none⟩
  | .count => { m with live := m.installed }
  | .mask => .none
  | .expiry => { m with cause := m.live }
  | .dispatch => { m with cause := .none, due := m.cause }
  | .run _ => { m with due := .none }

def monitor (es : List (Event F)) : Monitor F := es.foldl Monitor.next .none

theorem monitor_snoc (es : List (Event F)) (e : Event F) :
    monitor (es ++ [e]) = (monitor es).next e := by
  rw [monitor, List.foldl_append]
  rfl

section

variable {f : F} {es : List (Event F)}

theorem installed_iff : (monitor es).installed = some f ↔ Installed f es := by
  induction es using List.reverseRecOn with
  | nil => exact ⟨fun h => (by cases h), fun h => (after_nil h).elim⟩
  | append_singleton es e ih =>
    rw [monitor_snoc, Installed, after_snoc, ← Installed, ← ih]
    cases e <;> simp [Monitor.next, Monitor.none, Event.Changes]

theorem counting_iff : (monitor es).live = some f ↔ Counting f es := by
  induction es using List.reverseRecOn with
  | nil => exact ⟨fun h => (by cases h), fun h => (after_nil h).elim⟩
  | append_singleton es e ih =>
    have hinstalled : Counting f es → Installed f es :=
      fun h => h.first not_false fun _ hx => hx
    rw [monitor_snoc, Counting, after_snoc, ← Counting, ← ih, ← installed_iff]
    rw [← ih, ← installed_iff] at hinstalled
    cases e with
    | count => simpa [Monitor.next, Event.Changes] using hinstalled
    | _ => simp [Monitor.next, Monitor.none, Event.Changes]

theorem expired_iff : (monitor es).cause = some f ↔ Expired f es := by
  induction es using List.reverseRecOn with
  | nil => exact ⟨fun h => (by cases h), fun h => (after_nil h).elim⟩
  | append_singleton es e ih =>
    have hcounting : Expired f es → Counting f es :=
      fun h => h.first not_false fun _ hx => .inl hx
    rw [monitor_snoc, Expired, after_snoc, ← Expired, ← ih, ← counting_iff]
    rw [← ih, ← counting_iff] at hcounting
    cases e with
    | expiry => simpa [Monitor.next, Event.Changes, Event.Dispatches] using hcounting
    | _ => simp [Monitor.next, Monitor.none, Event.Changes, Event.Dispatches]

theorem caused_iff : (monitor es).due = some f ↔ Caused f es := by
  induction es using List.reverseRecOn with
  | nil => exact ⟨fun h => (by cases h), fun h => (after_nil h).elim⟩
  | append_singleton es e ih =>
    rw [monitor_snoc, Caused, after_snoc, ← Caused, ← ih, ← expired_iff]
    cases e <;> simp [Monitor.next, Monitor.none, Event.Changes, Event.Dispatches, Event.Runs]

theorem runsCaused_nil : RunsCaused ([] : List (Event F)) := by
  intro l f r h
  simp at h

/-- One more event: what it runs has to be due. -/
theorem runsCaused_snoc {e : Event F} (h : RunsCaused es)
    (hrun : ∀ f, e = .run f → (monitor es).due = some f) : RunsCaused (es ++ [e]) := by
  intro l f r hsplit
  rcases r.eq_nil_or_concat with rfl | ⟨r, y, rfl⟩
  · obtain ⟨rfl, he⟩ := List.append_inj' hsplit rfl
    exact caused_iff.mp (hrun f (List.singleton_inj.mp he))
  · have hsplit' : es ++ [e] = (l ++ .run f :: r) ++ [y] := by simpa using hsplit
    exact h l f r (List.append_inj' hsplit' rfl).1

end

namespace Monitor

/-- The function of the driver is installed and its count not begun. -/
def Awaits (m : Monitor F) (func : Option F) : Prop :=
  m.live = .none ∧ ∃ f, func = some f ∧ m.installed = some f

/-- Its count is on. -/
def Counts (m : Monitor F) (func : Option F) : Prop := ∃ f, func = some f ∧ m.live = some f

/-- Its count expired. -/
def Explains (m : Monitor F) (func : Option F) : Prop := m.Counts func ∧ m.cause = func

/-- It is to be run for that. -/
def Owes (m : Monitor F) (func : Option F) : Prop := m.Counts func ∧ m.due = func

variable {m : Monitor F} {func func' : Option F}

theorem awaits_install (m : Monitor F) (f : F) : (m.next (.install f)).Awaits (some f) :=
  ⟨rfl, f, rfl, rfl⟩

theorem counts_count (h : m.Awaits func) : (m.next .count).Counts func := h.2

theorem explains_expiry (h : m.Counts func) : (m.next .expiry).Explains func := by
  obtain ⟨f, rfl, hlive⟩ := h
  exact ⟨⟨f, rfl, hlive⟩, hlive⟩

theorem owes_dispatch (h : m.Explains func) : (m.next .dispatch).Owes func := h

/-- No count is on while one is awaited. -/
theorem counts_awaits (h : m.Counts func) : ¬ m.Awaits func' := by
  rintro ⟨hnone, _⟩
  obtain ⟨f, _, hlive⟩ := h
  cases hnone.symm.trans hlive

end Monitor

def Monitor.observe (m : Monitor F) (e : Option (Event F)) : Monitor F := e.elim m m.next

theorem monitor_append (es : List (Event F)) (e : Option (Event F)) :
    monitor (es ++ e.toList) = (monitor es).observe e := by
  cases e with
  | none => rw [Option.toList_none, List.append_nil]; rfl
  | some e => exact monitor_snoc es e

theorem runsCaused_append {es : List (Event F)} {e : Option (Event F)} (h : RunsCaused es)
    (hrun : ∀ f, e = some (.run f) → (monitor es).due = some f) : RunsCaused (es ++ e.toList) := by
  cases e with
  | none => simpa using h
  | some e => exact runsCaused_snoc h fun f hf => hrun f (congrArg some hf)

/-- An outline of a program. `Inv` holds with the rest of a handler still to come, `Needs` before
an access of the program and `Gives` after it. The device and the handler keep what an access
needs. Functions are installed in states of `C` only. -/
structure Outline (D : Device Call F) (init : D.Reg) (C : D.Reg → Prop) where
  Inv : List D.Access → D.Reg → Monitor F → Prop
  Needs : D.Access → D.Reg → Monitor F → Prop
  Gives : D.Access → D.Reg → Monitor F → Prop
  init : Inv [] init .none
  chain : ∀ {c l}, D.accesses c = some l → l.IsChain fun a b => ∀ r m, Gives a r m → Needs b r m
  first : ∀ {c l a r m}, D.accesses c = some l → a ∈ l.head? → Needs a r m
  main : ∀ {a r r' e m}, Inv [] r m → Needs a r m → D.access a r = (r', e) →
    (∀ f, e = some (.install f) → C r) →
    Inv [] r' (m.observe e) ∧ Gives a r' (m.observe e) ∧ ∀ f, e ≠ some (.run f)
  handler : ∀ {a h r r' e m}, Inv (a :: h) r m → D.access a r = (r', e) →
    Inv h r' (m.observe e) ∧ (∀ b, Needs b r m → Needs b r' (m.observe e)) ∧
      ∀ f, e = some (.run f) → m.due = some f
  expire : ∀ {h r r' m}, Inv h r m → D.expire r = some r' →
    Inv h r' (m.next .expiry) ∧ ∀ b, Needs b r m → Needs b r' (m.next .expiry)
  dispatch : ∀ {h r r' m}, Inv [] r m → D.dispatch r = some (r', h) →
    Inv h r' (m.next .dispatch) ∧ ∀ b, Needs b r m → Needs b r' (m.next .dispatch)

/-- The functions that a run installs are installed in states of `C`. -/
def InstallsIn (C : D.Reg → Prop) (t : Transition (State D) (Input Call) (Event F)) : Prop :=
  ∀ f, .install f ∈ t.outs → C t.pre.reg

def Event.Installs : Event F → Prop
  | .install _ => True
  | _ => False

instance : DecidablePred (Event.Installs (F := F))
  | .install _ => isTrue trivial
  | .count | .mask | .expiry | .dispatch | .run _ => isFalse not_false

theorem installsIn_iff {C : D.Reg → Prop} {t : Transition (State D) (Input Call) (Event F)} :
    InstallsIn C t ↔ ∀ e ∈ t.outs, e.Installs → C t.pre.reg := by
  constructor
  · intro h e he hinstalls
    cases e with
    | install f => exact h f he
    | _ => exact hinstalls.elim
  · intro h f hf
    exact h _ hf trivial

instance {C : D.Reg → Prop} [DecidablePred C]
    {t : Transition (State D) (Input Call) (Event F)} : Decidable (InstallsIn C t) :=
  decidable_of_iff' _ installsIn_iff

/-- What holds between any two steps. -/
structure Kept {init : D.Reg} {C : D.Reg → Prop} (O : Outline D init C) (es : List (Event F))
    (s : State D) : Prop where
  caused : RunsCaused es
  inv : O.Inv s.handler s.reg (monitor es)
  chain : s.main.IsChain fun a b => ∀ r m, O.Gives a r m → O.Needs b r m
  needs : ∀ a ∈ s.main.head?, O.Needs a s.reg (monitor es)

variable {init : D.Reg} {C : D.Reg → Prop}

theorem kept_append {O : Outline D init C} {es : List (Event F)} {s : State D}
    {e : Option (Event F)} (hcaused : RunsCaused es)
    (hdue : ∀ f, e = some (.run f) → (monitor es).due = some f)
    (hinv : O.Inv s.handler s.reg ((monitor es).observe e))
    (hchain : s.main.IsChain fun a b => ∀ r m, O.Gives a r m → O.Needs b r m)
    (hneeds : ∀ a ∈ s.main.head?, O.Needs a s.reg ((monitor es).observe e)) :
    Kept O (es ++ e.toList) s where
  caused := runsCaused_append hcaused hdue
  inv := by
    rw [monitor_append]
    exact hinv
  chain := hchain
  needs := by
    rw [monitor_append]
    exact hneeds

theorem kept_step (O : Outline D init C) {es : List (Event F)} {s s' : State D}
    {e : Option (Event F)} (hk : Kept O es s) (h : Stepped D s s' e)
    (hC : ∀ f, e = some (.install f) → C s.reg) : Kept O (es ++ e.toList) s' := by
  obtain ⟨hcaused, hinv, hchain, hneeds⟩ := hk
  cases h with
  | call hl =>
    exact kept_append hcaused (fun f hf => (by cases hf)) hinv (O.chain hl)
      fun a ha => O.first hl ha
  | main ha =>
    obtain ⟨hinv', hgives, hnone⟩ := O.main hinv (hneeds _ rfl) ha hC
    exact kept_append hcaused (fun f hf => absurd hf (hnone f)) hinv' hchain.tail
      fun b hb => (List.isChain_cons.mp hchain).1 b hb _ _ hgives
  | handler ha =>
    obtain ⟨hinv', hstable, hdue⟩ := O.handler hinv ha
    exact kept_append hcaused hdue hinv' hchain fun b hb => hstable b (hneeds b hb)
  | expire hr =>
    obtain ⟨hinv', hstable⟩ := O.expire hinv hr
    exact kept_append hcaused (fun f hf => (by cases hf)) hinv' hchain
      fun b hb => hstable b (hneeds b hb)
  | dispatch hr =>
    obtain ⟨hinv', hstable⟩ := O.dispatch hinv hr
    exact kept_append hcaused (fun f hf => (by cases hf)) hinv' hchain
      fun b hb => hstable b (hneeds b hb)

/-- In a run of an outlined program, whatever is run is caused. -/
theorem Outline.run (O : Outline D init C) {tr : List (Transition (State D) (Input Call) (Event F))}
    {s : State D} (hrun : Run (machine D) (idle init) tr s) (hC : ∀ t ∈ tr, InstallsIn C t) :
    Kept O (outputs tr) s := by
  refine hrun.invariant_where (I := fun tr s => Kept O (outputs tr) s) (C := InstallsIn C) hC ?_ ?_
  · exact ⟨runsCaused_nil, O.init, List.isChain_nil, fun a ha => (by cases ha)⟩
  · intro tr s i s' outs _ hk hstep hinstall
    obtain ⟨e, rfl, hstepped⟩ := step_stepped hstep
    rw [outputs_append, outputs_singleton]
    exact kept_step O hk hstepped fun f hf => hinstall f (by simp [hf])

end Preempt

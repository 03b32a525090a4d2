import Mathlib.Data.List.Induction

/-!
# Deterministic machines with outputs

A machine reads one input at a time and either refuses it or moves to one state
and emits outputs. A run keeps every transition it made, so that a property of a
run can say what happened before what. A machine simulates another one if every
step is matched by a run of the other that an observer cannot tell from it; inputs
that no observer notices can be left out of a run.
-/
namespace Mealy

variable {σ ι ο : Type*}

/-- A refused input is `none`. -/
abbrev Machine (σ ι ο : Type*) := σ → ι → Option (σ × List ο)

structure Transition (σ ι ο : Type*) where
  pre : σ
  input : ι
  outs : List ο
  post : σ

/-- All transitions from `s₀` to the current state, oldest first. -/
inductive Run (M : Machine σ ι ο) (s₀ : σ) : List (Transition σ ι ο) → σ → Prop where
  | nil : Run M s₀ [] s₀
  | snoc {tr : List (Transition σ ι ο)} {s s' : σ} {i : ι} {outs : List ο} :
      Run M s₀ tr s → M s i = some (s', outs) → Run M s₀ (tr ++ [⟨s, i, outs, s'⟩]) s'

/-- Every output of a run, oldest first. -/
def outputs (tr : List (Transition σ ι ο)) : List ο := tr.flatMap Transition.outs

@[simp] theorem outputs_nil : outputs ([] : List (Transition σ ι ο)) = [] := rfl
@[simp] theorem outputs_append (l r : List (Transition σ ι ο)) :
    outputs (l ++ r) = outputs l ++ outputs r := by simp [outputs]
@[simp] theorem outputs_singleton (t : Transition σ ι ο) : outputs [t] = t.outs := by
  simp [outputs]
@[simp] theorem outputs_cons (t : Transition σ ι ο) (l : List (Transition σ ι ο)) :
    outputs (t :: l) = t.outs ++ outputs l := by simp [outputs]

variable {M : Machine σ ι ο} {s₀ s s' u : σ} {tr tr' : List (Transition σ ι ο)}

theorem Run.single {i : ι} {outs : List ο} (h : M s i = some (s', outs)) :
    Run M s [⟨s, i, outs, s'⟩] s' := by
  simpa using Run.snoc Run.nil h

@[simp] theorem run_nil_iff : Run M s₀ [] s ↔ s = s₀ := by
  constructor
  · intro h
    generalize hw : ([] : List (Transition σ ι ο)) = w at h
    cases h with
    | nil => rfl
    | snoc _ _ => simp at hw
  · rintro rfl
    exact .nil

theorem Run.append (h : Run M s₀ tr s) (h' : Run M s tr' s') : Run M s₀ (tr ++ tr') s' := by
  induction h' with
  | nil => simpa using h
  | snoc _ hstep ih => simpa [List.append_assoc] using Run.snoc ih hstep

/-- The last transition of a run is a step from the state before it. -/
theorem run_snoc_iff {t : Transition σ ι ο} : Run M s₀ (tr ++ [t]) s ↔
    Run M s₀ tr t.pre ∧ M t.pre t.input = some (t.post, t.outs) ∧ t.post = s := by
  constructor
  · intro h
    generalize hw : tr ++ [t] = w at h
    cases h with
    | nil => simp at hw
    | snoc hrun hstep =>
      obtain ⟨rfl, ht⟩ := List.append_inj' hw rfl
      obtain rfl := List.singleton_inj.mp ht
      exact ⟨hrun, hstep, rfl⟩
  · rintro ⟨hrun, hstep, rfl⟩
    exact hrun.snoc hstep

/-- A run can be cut anywhere. -/
theorem Run.split (h : Run M s₀ (tr ++ tr') s) : ∃ u, Run M s₀ tr u ∧ Run M u tr' s := by
  induction tr' using List.reverseRecOn generalizing s with
  | nil => exact ⟨s, by simpa using h, .nil⟩
  | append_singleton l t ih =>
    rw [← List.append_assoc, run_snoc_iff] at h
    obtain ⟨hfront, hstep, rfl⟩ := h
    obtain ⟨u, hu, hrest⟩ := ih hfront
    exact ⟨u, hu, hrest.snoc hstep⟩

/-- A transition of a run was taken from a state the run had reached. -/
theorem Run.reached {l r : List (Transition σ ι ο)} {t : Transition σ ι ο}
    (h : Run M s₀ (l ++ t :: r) s) :
    Run M s₀ l t.pre ∧ M t.pre t.input = some (t.post, t.outs) := by
  have hcut : Run M s₀ ((l ++ [t]) ++ r) s := by simpa using h
  obtain ⟨u, hu, _⟩ := hcut.split
  obtain ⟨hl, hstep, _⟩ := run_snoc_iff.mp hu
  exact ⟨hl, hstep⟩

/-- Steps that do nothing can be left out of a run. -/
theorem Run.filter {p : Transition σ ι ο → Bool} (h : Run M s₀ tr s) :
    (∀ t ∈ tr, p t = false → t.post = t.pre ∧ t.outs = []) →
      Run M s₀ (tr.filter p) s ∧ outputs (tr.filter p) = outputs tr := by
  induction h with
  | nil => exact fun _ => ⟨.nil, rfl⟩
  | @snoc tr s s' i outs _ hstep ih =>
    intro hidle
    obtain ⟨hrun, houts⟩ := ih fun t ht => hidle t (List.mem_append_left _ ht)
    rw [List.filter_append, outputs_append, outputs_append, houts]
    cases hp : p ⟨s, i, outs, s'⟩ with
    | true =>
      rw [List.filter_cons_of_pos hp]
      exact ⟨hrun.snoc hstep, rfl⟩
    | false =>
      obtain ⟨hpost, hnone⟩ := hidle _ (List.mem_append_right _ (List.mem_singleton_self _)) hp
      obtain rfl : s' = s := hpost
      obtain rfl : outs = [] := hnone
      rw [List.filter_cons_of_neg (by simp [hp]), List.filter_nil, List.append_nil]
      exact ⟨hrun, rfl⟩

theorem Run.of_mem (h : Run M s₀ tr s) {t : Transition σ ι ο} (ht : t ∈ tr) :
    ∃ before after, tr = before ++ t :: after ∧ Run M s₀ before t.pre ∧
      M t.pre t.input = some (t.post, t.outs) := by
  obtain ⟨before, after, rfl⟩ := List.mem_iff_append.mp ht
  exact ⟨before, after, rfl, h.reached⟩

/-- A property of the history and the state that holds at the start and that every
transition meeting a condition keeps holds of every run of such transitions. What is
known of all runs can be used of the run so far. -/
theorem Run.invariant_where {I : List (Transition σ ι ο) → σ → Prop}
    {C : Transition σ ι ο → Prop} (h : Run M s₀ tr s) (hC : ∀ t ∈ tr, C t)
    (start : I [] s₀)
    (keep : ∀ {tr s i s' outs}, Run M s₀ tr s → I tr s → M s i = some (s', outs) →
      C ⟨s, i, outs, s'⟩ → I (tr ++ [⟨s, i, outs, s'⟩]) s') : I tr s := by
  induction h with
  | nil => exact start
  | snoc hrun hstep ih =>
    exact keep hrun (ih fun t ht => hC t (List.mem_append_left _ ht)) hstep (hC _ (by simp))

theorem Run.invariant {I : List (Transition σ ι ο) → σ → Prop} (h : Run M s₀ tr s)
    (start : I [] s₀)
    (keep : ∀ {tr s i s' outs}, Run M s₀ tr s → I tr s → M s i = some (s', outs) →
      I (tr ++ [⟨s, i, outs, s'⟩]) s') : I tr s :=
  h.invariant_where (C := fun _ => True) (fun _ _ => trivial) start
    fun hrun hI hstep _ => keep hrun hI hstep

def Happened (p : Transition σ ι ο → Prop) (tr : List (Transition σ ι ο)) : Prop := ∃ t ∈ tr, p t

/-- `p` happened, and `q` after it. -/
def Before (p q : Transition σ ι ο → Prop) (tr : List (Transition σ ι ο)) : Prop :=
  ∃ l r, tr = l ++ r ∧ Happened p l ∧ Happened q r

variable {p q : Transition σ ι ο → Prop} {t : Transition σ ι ο}

@[simp] theorem happened_nil : ¬ Happened p ([] : List (Transition σ ι ο)) := by
  rintro ⟨t, ht, _⟩
  cases ht

@[simp] theorem happened_append {l r : List (Transition σ ι ο)} :
    Happened p (l ++ r) ↔ Happened p l ∨ Happened p r := by
  constructor
  · rintro ⟨t, ht, hp⟩
    exact (List.mem_append.mp ht).imp (fun ht => ⟨t, ht, hp⟩) fun ht => ⟨t, ht, hp⟩
  · rintro (⟨t, ht, hp⟩ | ⟨t, ht, hp⟩)
    · exact ⟨t, List.mem_append_left _ ht, hp⟩
    · exact ⟨t, List.mem_append_right _ ht, hp⟩

@[simp] theorem happened_singleton : Happened p [t] ↔ p t := by simp [Happened]

@[simp] theorem before_nil : ¬ Before p q ([] : List (Transition σ ι ο)) := by
  rintro ⟨l, r, hlr, hp, _⟩
  obtain ⟨rfl, rfl⟩ := List.append_eq_nil_iff.mp hlr.symm
  exact happened_nil hp

/-- The second event of the pair is either old or the last transition. -/
@[simp] theorem before_snoc :
    Before p q (tr ++ [t]) ↔ Before p q tr ∨ (Happened p tr ∧ q t) := by
  constructor
  · rintro ⟨l, r, hlr, hp, hq⟩
    obtain rfl | ⟨r', u, rfl⟩ := r.eq_nil_or_concat
    · exact absurd hq happened_nil
    · rw [List.concat_eq_append, ← List.append_assoc] at hlr
      obtain ⟨rfl, hu⟩ := List.append_inj' hlr rfl
      obtain rfl := List.singleton_inj.mp hu
      rw [List.concat_eq_append, happened_append, happened_singleton] at hq
      exact hq.imp (fun hq => ⟨l, r', rfl, hp, hq⟩) fun hq => ⟨happened_append.mpr (.inl hp), hq⟩
  · rintro (⟨l, r, rfl, hp, hq⟩ | ⟨hp, hq⟩)
    · exact ⟨l, r ++ [t], by simp, hp, happened_append.mpr (.inl hq)⟩
    · exact ⟨tr, [t], rfl, hp, happened_singleton.mpr hq⟩

theorem Before.first (h : Before p q tr) : Happened p tr := by
  obtain ⟨l, r, rfl, hp, _⟩ := h
  exact happened_append.mpr (.inl hp)

/-- `p` happened, and `q` not after it. -/
def Since (p q : Transition σ ι ο → Prop) (tr : List (Transition σ ι ο)) : Prop :=
  ∃ l u r, tr = l ++ u :: r ∧ p u ∧ ¬ Happened q r

@[simp] theorem since_nil : ¬ Since p q ([] : List (Transition σ ι ο)) := by
  rintro ⟨l, u, r, h, _⟩
  simp at h

@[simp] theorem since_snoc : Since p q (tr ++ [t]) ↔ p t ∨ (Since p q tr ∧ ¬ q t) := by
  constructor
  · rintro ⟨l, u, r, hlr, hp, hq⟩
    obtain rfl | ⟨r', v, rfl⟩ := r.eq_nil_or_concat
    · obtain ⟨rfl, hu⟩ := List.append_inj' hlr rfl
      obtain rfl := List.singleton_inj.mp hu
      exact .inl hp
    · rw [List.concat_eq_append, ← List.cons_append, ← List.append_assoc] at hlr
      obtain ⟨rfl, hv⟩ := List.append_inj' hlr rfl
      obtain rfl := List.singleton_inj.mp hv
      rw [List.concat_eq_append, happened_append, happened_singleton, not_or] at hq
      exact .inr ⟨⟨l, u, r', rfl, hp, hq.1⟩, hq.2⟩
  · rintro (hp | ⟨⟨l, u, r, rfl, hp, hq⟩, hqt⟩)
    · exact ⟨tr, t, [], rfl, hp, happened_nil⟩
    · refine ⟨l, u, r ++ [t], by simp, hp, ?_⟩
      rw [happened_append, happened_singleton, not_or]
      exact ⟨hq, hqt⟩

/-- The run of a list of inputs, where all of them are accepted. -/
def exec (M : Machine σ ι ο) : σ → List ι → Option (List (Transition σ ι ο) × σ)
  | s, [] => some ([], s)
  | s, i :: is =>
    match M s i with
    | none => none
    | some (s', outs) => (exec M s' is).map fun r => (⟨s, i, outs, s'⟩ :: r.1, r.2)

theorem run_of_exec (is : List ι) (h : exec M s is = some (tr, s')) : Run M s tr s' := by
  induction is generalizing s tr with
  | nil =>
    simp only [exec, Option.some.injEq, Prod.mk.injEq] at h
    obtain ⟨rfl, rfl⟩ := h
    exact .nil
  | cons i is ih =>
    rw [exec] at h
    cases hm : M s i with
    | none => simp [hm] at h
    | some r =>
      obtain ⟨v, outs⟩ := r
      simp only [hm, Option.map_eq_some_iff, Prod.exists, Prod.mk.injEq] at h
      obtain ⟨rest, w, hrest, rfl, rfl⟩ := h
      exact (Run.single hm).append (ih hrest)

/-- A run found by computing it, and what the computation says about it. -/
theorem run_of_exec_any {p : List (Transition σ ι ο) × σ → Bool} (is : List ι)
    (h : (exec M s is).any p = true) : ∃ tr s', Run M s tr s' ∧ p (tr, s') = true := by
  cases he : exec M s is with
  | none => simp [he] at h
  | some r =>
    obtain ⟨tr, s'⟩ := r
    rw [he] at h
    exact ⟨tr, s', run_of_exec is he, h⟩

section Simulation

variable {σ' ι' ο' ε : Type*}

/-- What an observer sees of a run. -/
def seen (see : Transition σ ι ο → List ε) (tr : List (Transition σ ι ο)) : List ε :=
  tr.flatMap see

variable {see : Transition σ ι ο → List ε}

@[simp] theorem seen_nil : seen see [] = [] := rfl
@[simp] theorem seen_append (l r : List (Transition σ ι ο)) :
    seen see (l ++ r) = seen see l ++ seen see r := by simp [seen]
@[simp] theorem seen_singleton (t : Transition σ ι ο) : seen see [t] = see t := by simp [seen]

/-- `abs` forgets what the second machine does not have; `I` holds of the states that
the first one comes to. -/
structure Simulation (M : Machine σ ι ο) (N : Machine σ' ι' ο') (I : σ → Prop) (abs : σ → σ')
    (see : Transition σ ι ο → List ε) (see' : Transition σ' ι' ο' → List ε) : Prop where
  step : ∀ {s i s' outs}, I s → M s i = some (s', outs) →
    I s' ∧ ∃ tr, Run N (abs s) tr (abs s') ∧ seen see' tr = see ⟨s, i, outs, s'⟩

variable {N : Machine σ' ι' ο'} {I : σ → Prop} {abs : σ → σ'}
variable {see' : Transition σ' ι' ο' → List ε}

theorem Simulation.run (sim : Simulation M N I abs see see') (h : Run M s₀ tr s)
    (start : I s₀) :
    I s ∧ ∃ tr', Run N (abs s₀) tr' (abs s) ∧ seen see' tr' = seen see tr := by
  induction h with
  | nil => exact ⟨start, [], .nil, rfl⟩
  | snoc _ hstep ih =>
    obtain ⟨hI, tr', hrun, hsame⟩ := ih
    obtain ⟨hI', tr'', hstep', hsame'⟩ := sim.step hI hstep
    refine ⟨hI', tr' ++ tr'', hrun.append hstep', ?_⟩
    rw [seen_append, seen_append, seen_singleton, hsame, hsame']

end Simulation

section Unwinding

variable {α : Type*}

def inputs (tr : List (Transition σ ι ο)) : List ι := tr.map Transition.input

@[simp] theorem inputs_nil : inputs ([] : List (Transition σ ι ο)) = [] := rfl
@[simp] theorem inputs_append (l r : List (Transition σ ι ο)) :
    inputs (l ++ r) = inputs l ++ inputs r := List.map_append
@[simp] theorem inputs_singleton (t : Transition σ ι ο) : inputs [t] = [t.input] := rfl

/-- `obs` is what is observed of a state and `seen` which outputs are. -/
structure Unwinding (M : Machine σ ι ο) (obs : σ → α) (visible : ι → Bool) (seen : ο → Bool) :
    Prop where
  respects : ∀ {s s' i outs}, visible i = false → M s i = some (s', outs) →
    obs s' = obs s ∧ outs.filter seen = []
  consistent : ∀ {s s' u i outs}, visible i = true → M s i = some (s', outs) → obs u = obs s →
    ∃ u' outs', M u i = some (u', outs') ∧ obs u' = obs s' ∧ outs'.filter seen = outs.filter seen

variable {obs : σ → α} {visible : ι → Bool} {seen : ο → Bool}

/-- A run with its invisible inputs left out looks the same. -/
theorem Unwinding.purge (hu : Unwinding M obs visible seen) (h : Run M s tr s')
    (hobs : obs u = obs s) : ∃ tr' u', Run M u tr' u' ∧ inputs tr' = (inputs tr).filter visible ∧
      obs u' = obs s' ∧ (outputs tr').filter seen = (outputs tr).filter seen := by
  induction h with
  | nil => exact ⟨[], u, .nil, rfl, hobs, rfl⟩
  | @snoc tr s₁ s' i outs _ hstep ih =>
    obtain ⟨tr', u', hrun, hin, hobs', hout⟩ := ih
    cases hv : visible i with
    | false =>
      obtain ⟨hsame, hnone⟩ := hu.respects hv hstep
      refine ⟨tr', u', hrun, ?_, hobs'.trans hsame.symm, ?_⟩
      · simp [hin, hv]
      · simp [hout, hnone]
    | true =>
      obtain ⟨u₁, outs', hstep', hobs₁, hsame⟩ := hu.consistent hv hstep hobs'
      refine ⟨_, u₁, hrun.snoc hstep', ?_, hobs₁, ?_⟩
      · simp [hin, hv]
      · simp [hout, hsame]

end Unwinding

end Mealy

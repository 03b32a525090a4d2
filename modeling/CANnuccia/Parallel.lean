import CANnuccia.Mealy

/-!
# Machines side by side

An input of the whole is an input of some of the machines, and of each of them at most one.
A machine that refuses its input stays as it is.
-/
namespace Mealy

variable {κ σ ι ο ξ υ : Type*}

/-- What the machines of a whole are given, and what can be seen of it. -/
structure Wiring (κ σ ι ξ υ : Type*) where
  /-- The input of each machine. -/
  input : (κ → σ) → ξ → κ → Option ι
  /-- The inputs that the whole takes. -/
  takes : (κ → σ) → ξ → Bool
  outs : (κ → σ) → ξ → List υ

variable (M : κ → Machine σ ι ο) (W : Wiring κ σ ι ξ υ)

/-- What one of the machines does with an input of the whole. -/
def reaction (s : κ → σ) (x : ξ) (k : κ) : Option (ι × σ × List ο) :=
  (W.input s x k).bind fun i => (M k (s k) i).map fun r => (i, r)

def parallel : Machine (κ → σ) ξ υ := fun s x =>
  if W.takes s x then
    some (fun k => ((reaction M W s x k).map fun r => r.2.1).getD (s k), W.outs s x)
  else none

/-- The transition that one of the machines makes in a transition of the whole, if any. -/
def component (k : κ) (t : Transition (κ → σ) ξ υ) : List (Transition σ ι ο) :=
  match reaction M W t.pre t.input k with
  | some (i, s', outs) => [⟨t.pre k, i, outs, s'⟩]
  | none => []

/-- The run of one of the machines in a run of the whole. -/
def components (k : κ) (tr : List (Transition (κ → σ) ξ υ)) : List (Transition σ ι ο) :=
  tr.flatMap (component M W k)

variable {M W} {s s' s₀ : κ → σ} {x : ξ} {outs : List υ} {k : κ}
variable {tr : List (Transition (κ → σ) ξ υ)}

theorem parallel_takes (h : parallel M W s x = some (s', outs)) :
    W.takes s x = true ∧ outs = W.outs s x ∧
      ∀ k, s' k = ((reaction M W s x k).map fun r => r.2.1).getD (s k) := by
  rw [parallel, Option.ite_none_right_eq_some, Option.some.injEq, Prod.mk.injEq] at h
  obtain ⟨htakes, rfl, rfl⟩ := h
  exact ⟨htakes, rfl, fun _ => rfl⟩

theorem reaction_step {i : ι} {u : σ} {o : List ο} (h : reaction M W s x k = some (i, u, o)) :
    W.input s x k = some i ∧ M k (s k) i = some (u, o) := by
  obtain ⟨i', hi, hr⟩ := Option.bind_eq_some_iff.mp h
  obtain ⟨r, hr, he⟩ := Option.map_eq_some_iff.mp hr
  cases he
  exact ⟨hi, hr⟩

/-- One step of the whole is at most one of each machine. -/
theorem component_run (h : parallel M W s x = some (s', outs)) (k : κ) :
    Run (M k) (s k) (component M W k ⟨s, x, outs, s'⟩) (s' k) := by
  have hpost := (parallel_takes h).2.2 k
  rw [component]
  cases hr : reaction M W s x k with
  | none =>
    rw [hr] at hpost
    simp [hpost]
  | some r =>
    obtain ⟨i, u, o⟩ := r
    rw [hr] at hpost
    obtain rfl : s' k = u := hpost
    exact Run.single (reaction_step hr).2

/-- In a run of the whole every machine makes a run. -/
theorem components_run (h : Run (parallel M W) s₀ tr s) (k : κ) :
    Run (M k) (s₀ k) (components M W k tr) (s k) := by
  induction h with
  | nil => exact .nil
  | snoc _ hstep ih =>
    rw [components, List.flatMap_append, List.flatMap_singleton]
    exact ih.append (component_run hstep k)

theorem components_snoc (k : κ) (t : Transition (κ → σ) ξ υ) :
    components M W k (tr ++ [t]) = components M W k tr ++ component M W k t := by
  rw [components, List.flatMap_append, List.flatMap_singleton]
  rfl

/-- An input that changes only one of the machines. -/
theorem parallel_alone [DecidableEq κ] {i : ι} {u : σ} {o : List ο} (htakes : W.takes s x = true)
    (hk : reaction M W s x k = some (i, u, o))
    (hothers : ∀ j ≠ k, ∀ r, reaction M W s x j = some r → r.2.1 = s j) :
    parallel M W s x = some (Function.update s k u, W.outs s x) := by
  rw [parallel, if_pos htakes, Option.some.injEq, Prod.mk.injEq]
  refine ⟨?_, rfl⟩
  funext j
  by_cases hj : j = k
  · subst hj
    rw [hk, Function.update_self]
    rfl
  · rw [Function.update_of_ne hj]
    cases hr : reaction M W s x j with
    | none => rfl
    | some r => exact hothers j hj r hr

end Mealy

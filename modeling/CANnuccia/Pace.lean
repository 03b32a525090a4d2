import CANnuccia.Mealy

/-!
# Steps counted against each other

A potential bounds how many steps of one kind a machine makes before one of another kind.
Where the machine's own steps take time, the time is counted in the same way.
-/
namespace Mealy

variable {σ ι ο : Type*} {M : Machine σ ι ο} {s₀ s : σ} {tr : List (Transition σ ι ο)}

/-- What the transitions of a run come to. -/
def total (f : Transition σ ι ο → Nat) : List (Transition σ ι ο) → Nat
  | [] => 0
  | t :: tr => f t + total f tr

@[simp] theorem total_nil (f : Transition σ ι ο → Nat) : total f [] = 0 := rfl

theorem total_append (f : Transition σ ι ο → Nat) (l r : List (Transition σ ι ο)) :
    total f (l ++ r) = total f l + total f r := by
  induction l with
  | nil => rw [List.nil_append, total_nil, Nat.zero_add]
  | cons t l ih => rw [List.cons_append, total, total, ih, Nat.add_assoc]

@[simp] theorem total_snoc (f : Transition σ ι ο → Nat) (t : Transition σ ι ο) :
    total f (tr ++ [t]) = total f tr + f t := by
  rw [total_append]
  rfl

theorem total_mul (c : Nat) (f : Transition σ ι ο → Nat) (tr : List (Transition σ ι ο)) :
    total (fun t => c * f t) tr = c * total f tr := by
  induction tr with
  | nil => rfl
  | cons t tr ih => rw [total, total, ih, Nat.mul_add]

theorem total_mono {f g : Transition σ ι ο → Nat} (h : ∀ t, f t ≤ g t)
    (tr : List (Transition σ ι ο)) : total f tr ≤ total g tr := by
  induction tr with
  | nil => exact Nat.le_refl _
  | cons t tr ih => exact Nat.add_le_add (h t) ih

/-- The last one. -/
theorem last_counted {f : Transition σ ι ο → Nat} (h : total f tr ≠ 0) :
    ∃ a x b, tr = a ++ x :: b ∧ f x ≠ 0 ∧ total f b = 0 := by
  induction tr using List.reverseRecOn with
  | nil => exact absurd rfl h
  | append_singleton tr x ih =>
    by_cases hx : f x = 0
    · rw [total_snoc, hx, Nat.add_zero] at h
      obtain ⟨a, y, b, rfl, hy, hb⟩ := ih h
      exact ⟨a, y, b ++ [x], by simp, hy, by rw [total_snoc, hb, hx]⟩
    · exact ⟨tr, x, [], rfl, hx, rfl⟩

/-- `D n s` says that `n` is enough for what is left to be done in `s`. If every step pays
its cost from that, and gets its gain back, the costs of a run are bounded by the gains. -/
theorem Run.paced {D : Nat → σ → Prop} (cost gain : Transition σ ι ο → Nat) (h : Run M s₀ tr s)
    (hstep : ∀ {n s i s' outs}, D n s → M s i = some (s', outs) → ∃ n', D n' s' ∧
      cost ⟨s, i, outs, s'⟩ + n' ≤ n + gain ⟨s, i, outs, s'⟩)
    {n : Nat} (h₀ : D n s₀) : ∃ n', D n' s ∧ total cost tr + n' ≤ n + total gain tr := by
  induction h with
  | nil => exact ⟨n, h₀, by simp⟩
  | snoc _ hmove ih =>
    obtain ⟨k, hk, hpaid⟩ := ih
    obtain ⟨n', hn', hlast⟩ := hstep hk hmove
    refine ⟨n', hn', ?_⟩
    rw [total_snoc, total_snoc]
    omega

/-- A queue of length `queue`, which an item leaves with every gain. As `D n s`, at most `n`
is left until the next gain, and it is never more than `c`. -/
structure Queueing (M : Machine σ ι ο) (D : Nat → σ → Prop) (c : Nat)
    (cost gain arrivals : Transition σ ι ο → Nat) (queue : σ → Nat) : Prop where
  positive : ∀ {n s}, D n s → 0 < n
  pays : ∀ {n s i s' outs}, D n s → n ≤ c → M s i = some (s', outs) → ∃ n' ≤ c, D n' s' ∧
    cost ⟨s, i, outs, s'⟩ + n' ≤ n + c * gain ⟨s, i, outs, s'⟩
  moves : ∀ {n s i s' outs}, D n s → M s i = some (s', outs) →
    queue s' ≤ queue s - gain ⟨s, i, outs, s'⟩ + arrivals ⟨s, i, outs, s'⟩
  apart : ∀ {n s i s' outs}, D n s → M s i = some (s', outs) →
    arrivals ⟨s, i, outs, s'⟩ = 0 ∨ gain ⟨s, i, outs, s'⟩ = 0

/-- In no part of the run more than `k` items come ahead of their time. -/
def Paced (c k : Nat) (cost arrivals : Transition σ ι ο → Nat) (tr : List (Transition σ ι ο)) :
    Prop :=
  ∀ a b d, tr = a ++ b ++ d → c * total arrivals b ≤ total cost b + c * k

variable {c k : Nat} {cost gain arrivals : Transition σ ι ο → Nat}

theorem Paced.nil : Paced c k cost arrivals [] := by
  intro a b d h
  rw [List.nil_eq, List.append_eq_nil_iff, List.append_eq_nil_iff] at h
  rw [h.1.2]
  exact Nat.zero_le _

/-- An item can come after a pause. -/
theorem Paced.after {l q r : List (Transition σ ι ο)} (h : Paced c (k + 1) cost arrivals l)
    (hquiet : total arrivals q = 0)
    (hone : total arrivals r = 0 ∨ total arrivals r ≤ 1 ∧ c ≤ total cost q) :
    Paced c (k + 1) cost arrivals (l ++ (q ++ r)) := by
  rintro a b d heq
  have hsplit : ∀ e f, q ++ r = e ++ f → total arrivals e = 0 ∨
      total arrivals e ≤ 1 ∧ c ≤ total cost e := by
    intro e f he
    rcases List.append_eq_append_iff.mp he with ⟨g, rfl, rfl⟩ | ⟨g, rfl, rfl⟩
    · rw [total_append] at hone
      rw [total_append, total_append, hquiet]
      rcases hone with hnone | ⟨hle, hcost⟩
      · exact .inl (by omega)
      · exact .inr ⟨by omega, by omega⟩
    · rw [total_append] at hquiet
      exact .inl (by omega)
  rcases List.append_eq_append_iff.mp heq with ⟨e, hab, he⟩ | ⟨e, rfl, he⟩
  · rcases List.append_eq_append_iff.mp hab with ⟨f, rfl, rfl⟩ | ⟨f, rfl, rfl⟩
    · have hold := h a f [] (by simp)
      rw [total_append, total_append, Nat.mul_add]
      rcases hsplit e d he with hzero | ⟨hle, hcost⟩
      · rw [hzero, Nat.mul_zero]
        omega
      · have hmul := Nat.mul_le_mul_left c hle
        omega
    · have hle : total arrivals b ≤ k + 1 := by
        have hfront := hsplit (f ++ b) d he
        rw [total_append] at hfront
        omega
      have hmul := Nat.mul_le_mul_left c hle
      omega
  · exact h a b e rfl

theorem Paced.init {l r : List (Transition σ ι ο)} (h : Paced c k cost arrivals (l ++ r)) :
    Paced c k cost arrivals l := by
  rintro a b d rfl
  exact h a b (d ++ r) (List.append_assoc _ _ _)

variable {D : Nat → σ → Prop} {queue : σ → Nat}

/-- What waits came after the queue was last empty, in `b`. -/
theorem Queueing.backlog (hq : Queueing M D c cost gain arrivals queue) (h : Run M s₀ tr s)
    {n₀ : Nat} (h₀ : D n₀ s₀) (hn₀ : n₀ ≤ c) (hempty : queue s₀ = 0) :
    ∃ n ≤ c, D n s ∧ (queue s = 0 ∨ ∃ a b, tr = a ++ b ∧
      total cost b + n + c * queue s ≤ c * total arrivals b + c) := by
  induction h with
  | nil => exact ⟨n₀, hn₀, h₀, .inl hempty⟩
  | @snoc tr s s' i outs _ hstep ih =>
    obtain ⟨n, hn, hD, hback⟩ := ih
    obtain ⟨n', hn', hD', hpaid⟩ := hq.pays hD hn hstep
    have hmoves := hq.moves hD hstep
    refine ⟨n', hn', hD', ?_⟩
    rcases hq.apart hD hstep with hnone | hgain
    · rw [hnone, Nat.add_zero] at hmoves
      rcases hback with hzero | ⟨a, b, rfl, hb⟩
      · exact .inl (by omega)
      · by_cases hlast : queue s' = 0
        · exact .inl hlast
        · refine .inr ⟨a, b ++ [⟨s, i, outs, s'⟩], by simp, ?_⟩
          have hsum : queue s' + gain ⟨s, i, outs, s'⟩ ≤ queue s := by omega
          have hmul := Nat.mul_le_mul_left c hsum
          rw [Nat.mul_add] at hmul
          rw [total_snoc, total_snoc, hnone, Nat.add_zero]
          omega
    · rw [hgain, Nat.mul_zero, Nat.add_zero] at hpaid
      rw [hgain, Nat.sub_zero] at hmoves
      have hmul := Nat.mul_le_mul_left c hmoves
      rw [Nat.mul_add] at hmul
      rcases hback with hzero | ⟨a, b, rfl, hb⟩
      · refine .inr ⟨tr, [⟨s, i, outs, s'⟩], rfl, ?_⟩
        rw [hzero, Nat.mul_zero, Nat.zero_add] at hmul
        simp only [total, Nat.add_zero]
        omega
      · refine .inr ⟨a, b ++ [⟨s, i, outs, s'⟩], by simp, ?_⟩
        rw [total_snoc, total_snoc, Nat.mul_add]
        omega

/-- Where items come at the pace at which they leave, there is always room for `k`. -/
theorem Queueing.room (hq : Queueing M D c cost gain arrivals queue) (h : Run M s₀ tr s)
    {n₀ : Nat} (h₀ : D n₀ s₀) (hn₀ : n₀ ≤ c) (hempty : queue s₀ = 0) {i : ι} {s' : σ}
    {outs : List ο} (hstep : M s i = some (s', outs))
    (hpaced : Paced c k cost arrivals (tr ++ [⟨s, i, outs, s'⟩]))
    (hcome : arrivals ⟨s, i, outs, s'⟩ ≠ 0) : queue s + arrivals ⟨s, i, outs, s'⟩ ≤ k := by
  obtain ⟨n, hn, hD, hback⟩ := hq.backlog h h₀ hn₀ hempty
  obtain ⟨n', _, hD', hpaid⟩ := hq.pays hD hn hstep
  have hpos := hq.positive hD'
  have hgain := (hq.apart hD hstep).resolve_left hcome
  rw [hgain, Nat.mul_zero, Nat.add_zero] at hpaid
  have hless : c * (queue s + arrivals ⟨s, i, outs, s'⟩) < c * (k + 1) := by
    rw [Nat.mul_add, Nat.mul_add, Nat.mul_one]
    rcases hback with hzero | ⟨a, b, rfl, hb⟩
    · have hpace := hpaced tr [⟨s, i, outs, s'⟩] [] (by simp)
      simp only [total, Nat.add_zero] at hpace
      rw [hzero, Nat.mul_zero]
      omega
    · have hpace := hpaced a (b ++ [⟨s, i, outs, s'⟩]) [] (by simp)
      rw [total_snoc, total_snoc, Nat.mul_add] at hpace
      omega
  exact Nat.lt_succ_iff.mp (Nat.lt_of_mul_lt_mul_left hless)

section Timed

variable {x y : σ × Nat} {s' : σ} {outs : List ο}

/-- A unit of time passes, or something happens. -/
inductive TimedInput (ι : Type*) where
  | tick
  /-- A step of the machine itself takes `d` units longer than one. -/
  | act (i : ι) (d : Nat)

/-- Only then does time pass. -/
def TimedInput.goes (own : ι → Bool) : TimedInput ι → Bool
  | .tick => true
  | .act i _ => own i

/-- A machine whose own steps take time, each at most its limit. It makes one as soon as the
last one is over, and until then only such inputs come as are not its own. -/
def timed (M : Machine σ ι ο) (own : ι → Bool) (limit : σ → ι → Nat) :
    Machine (σ × Nat) (TimedInput ι) ο
  | (_, 0), .tick => none
  | (s, left + 1), .tick => some ((s, left), [])
  | (s, left), .act i d =>
    if own i then
      if left = 0 ∧ d < limit s i then (M s i).map fun r => ((r.1, d), r.2) else none
    else if d = 0 then (M s i).map fun r => ((r.1, left), r.2)
    else none

inductive Ticked (M : Machine σ ι ο) (own : ι → Bool) (limit : σ → ι → Nat) :
    σ × Nat → TimedInput ι → σ × Nat → List ο → Prop where
  | tick (s : σ) (left : Nat) : Ticked M own limit (s, left + 1) .tick (s, left) []
  | own {s s' : σ} {i : ι} {d : Nat} {outs : List ο} : own i = true → d < limit s i →
      M s i = some (s', outs) → Ticked M own limit (s, 0) (.act i d) (s', d) outs
  | other {s s' : σ} {left : Nat} {i : ι} {outs : List ο} : own i = false →
      M s i = some (s', outs) → Ticked M own limit (s, left) (.act i 0) (s', left) outs

variable {own : ι → Bool} {limit : σ → ι → Nat} {i : TimedInput ι}

theorem timed_ticked (h : timed M own limit x i = some (y, outs)) :
    Ticked M own limit x i y outs := by
  obtain ⟨s, left⟩ := x
  cases i with
  | tick =>
    cases left with
    | zero => cases h
    | succ left =>
      cases h
      exact .tick s left
  | act i d =>
    rw [timed] at h
    split at h
    · rename_i hown
      rw [Option.ite_none_right_eq_some] at h
      obtain ⟨⟨rfl, hd⟩, hmap⟩ := h
      obtain ⟨r, hr, he⟩ := Option.map_eq_some_iff.mp hmap
      cases he
      exact .own hown hd hr
    · rename_i hown
      rw [Option.ite_none_right_eq_some] at h
      obtain ⟨rfl, hmap⟩ := h
      obtain ⟨r, hr, he⟩ := Option.map_eq_some_iff.mp hmap
      cases he
      exact .other (Bool.eq_false_iff.mpr hown) hr

/-- The time that passes. -/
def clock (own : ι → Bool) (t : Transition (σ × Nat) (TimedInput ι) ο) : Nat :=
  if t.input.goes own then 1 else 0

/-- A run without its clock. -/
def untimed (tr : List (Transition (σ × Nat) (TimedInput ι) ο)) : List (Transition σ ι ο) :=
  tr.filterMap fun t =>
    match t.input with
    | .tick => none
    | .act i _ => some ⟨t.pre.1, i, t.outs, t.post.1⟩

theorem untimed_append (l r : List (Transition (σ × Nat) (TimedInput ι) ο)) :
    untimed (l ++ r) = untimed l ++ untimed r := List.filterMap_append

theorem mem_untimed {l : List (Transition (σ × Nat) (TimedInput ι) ο)} {t : Transition σ ι ο}
    (h : t ∈ untimed l) : ∃ p d q, ⟨(t.pre, p), .act t.input d, t.outs, (t.post, q)⟩ ∈ l := by
  obtain ⟨⟨⟨s, p⟩, i, outs, ⟨s', q⟩⟩, hu, he⟩ := List.mem_filterMap.mp h
  cases i with
  | tick => cases he
  | act i d =>
    cases he
    exact ⟨p, d, q, hu⟩

theorem Run.untimed {l : List (Transition (σ × Nat) (TimedInput ι) ο)}
    (h : Run (timed M own limit) x l y) : Run M x.1 (untimed l) y.1 := by
  induction h with
  | nil => exact .nil
  | snoc _ hstep ih =>
    rw [untimed_append]
    cases timed_ticked hstep with
    | tick s left => exact ih.append .nil
    | own _ _ hr | other _ hr => exact ih.append (Run.single hr)

/-- What a step comes to, where a tick comes to nothing. -/
def timeless (f : Transition σ ι ο → Nat) (t : Transition (σ × Nat) (TimedInput ι) ο) : Nat :=
  total f (untimed [t])

theorem total_timeless (f : Transition σ ι ο → Nat)
    (l : List (Transition (σ × Nat) (TimedInput ι) ο)) :
    total (timeless f) l = total f (untimed l) := by
  induction l with
  | nil => rfl
  | cons t l ih =>
    have hcons : untimed (t :: l) = untimed [t] ++ untimed l := untimed_append [t] l
    rw [total, ih, hcons, total_append, timeless]

/-- A step comes to its end. -/
theorem ticks (M : Machine σ ι ο) (own : ι → Bool) (limit : σ → ι → Nat) (s : σ) (left : Nat) :
    ∃ l : List (Transition (σ × Nat) (TimedInput ι) ο), Run (timed M own limit) (s, left) l (s, 0) ∧
    untimed l = [] ∧ total (clock own) l = left := by
  induction left with
  | zero => exact ⟨[], .nil, rfl, rfl⟩
  | succ left ih =>
    obtain ⟨l, hl, hnone, htotal⟩ := ih
    have htick : timed M own limit (s, left + 1) .tick = some ((s, left), []) := rfl
    refine ⟨_, (Run.single htick).append hl, ?_, ?_⟩
    · rw [untimed_append, hnone]
      rfl
    · rw [total_append, htotal, Nat.add_comm]
      rfl

/-- Every run is one in which each step takes as long as it may. -/
theorem Run.slowly (own : ι → Bool) (hlimit : ∀ s i, 0 < limit s i) (h : Run M s₀ tr s) :
    ∃ l, Run (timed M own limit) (s₀, 0) l (s, 0) ∧ Mealy.untimed l = tr ∧
      total (clock own) l = total (fun t => if own t.input then limit t.pre t.input else 0) tr := by
  induction h with
  | nil => exact ⟨[], .nil, rfl, rfl⟩
  | @snoc tr s s' i outs _ hstep ih =>
    obtain ⟨l, hl, hsame, htotal⟩ := ih
    cases hown : own i with
    | false =>
      have hact : timed M own limit (s, 0) (.act i 0) = some ((s', 0), outs) := by
        simp [timed, hown, hstep]
      refine ⟨_, hl.append (Run.single hact), ?_, ?_⟩
      · rw [untimed_append, hsame]
        rfl
      · rw [total_append, total_snoc, htotal]
        simp [total, clock, TimedInput.goes, hown]
    | true =>
      have hpos := hlimit s i
      have hless : limit s i - 1 < limit s i := Nat.sub_one_lt_of_lt hpos
      have hact : timed M own limit (s, 0) (.act i (limit s i - 1)) =
          some ((s', limit s i - 1), outs) := by
        simp [timed, hown, hstep, hless]
      obtain ⟨q, hq, hnone, hticks⟩ := ticks M own limit s' (limit s i - 1)
      refine ⟨_, (hl.append (Run.single hact)).append hq, ?_, ?_⟩
      · rw [untimed_append, untimed_append, hsame, hnone, List.append_nil]
        rfl
      · rw [total_append, total_append, total_snoc, htotal, hticks]
        simp [total, clock, TimedInput.goes, hown]
        omega

end Timed

end Mealy

import Mathlib.Logic.Relation

/-!
# Programs that access registers

A program reads and writes the registers of a device one at a time, and may wait for a
register to take some value. Between two accesses, each a `step`, the device moves on its
own. `Meets` says what a program comes to whatever the device does, and what it does to
the device on the way.
-/

inductive Mmio (ρ α : Type) where
  | pure (a : α)
  | read (reg : ρ) (next : BitVec 32 → Mmio ρ α)
  | write (reg : ρ) (value : BitVec 32) (next : Mmio ρ α)
  /-- An empty loop that reads the register until the value is right. -/
  | await (reg : ρ) (cond : BitVec 32 → Bool) (next : Mmio ρ α)

namespace Mmio

open Relation (ReflTransGen)

variable {ρ α β σ ν : Type}

protected def bind : Mmio ρ α → (α → Mmio ρ β) → Mmio ρ β
  | .pure a, f => f a
  | .read reg next, f => .read reg fun v => (next v).bind f
  | .write reg value next, f => .write reg value (next.bind f)
  | .await reg cond next, f => .await reg cond (next.bind f)

instance : Monad (Mmio ρ) where
  pure := .pure
  bind := Mmio.bind

def load (reg : ρ) : Mmio ρ (BitVec 32) := .read reg .pure

def store (reg : ρ) (value : BitVec 32) : Mmio ρ Unit := .write reg value (.pure ())

/-- An assignment such as `|=`. -/
def modify (reg : ρ) (f : BitVec 32 → BitVec 32) : Mmio ρ Unit :=
  .read reg fun v => .write reg (f v) (.pure ())

def waitFor (reg : ρ) (cond : BitVec 32 → Bool) : Mmio ρ Unit := .await reg cond (.pure ())

@[simp] theorem pure_bind' (a : α) (f : α → Mmio ρ β) : (Pure.pure a : Mmio ρ α) >>= f = f a := rfl
@[simp] theorem pureCtor_bind (a : α) (f : α → Mmio ρ β) : (Mmio.pure a : Mmio ρ α) >>= f = f a :=
  rfl
@[simp] theorem load_bind (reg : ρ) (f : BitVec 32 → Mmio ρ β) : load reg >>= f = .read reg f := rfl
@[simp] theorem store_bind (reg : ρ) (value : BitVec 32) (f : Unit → Mmio ρ β) :
    store reg value >>= f = .write reg value (f ()) := rfl
@[simp] theorem modify_bind (reg : ρ) (g : BitVec 32 → BitVec 32) (f : Unit → Mmio ρ β) :
    modify reg g >>= f = .read reg fun v => .write reg (g v) (f ()) := rfl
@[simp] theorem waitFor_bind (reg : ρ) (cond : BitVec 32 → Bool) (f : Unit → Mmio ρ β) :
    waitFor reg cond >>= f = .await reg cond (f ()) := rfl

/-- The program has returned. -/
def returned : Mmio ρ α → Option α
  | .pure a => some a
  | _ => none

theorem returned_eq {p : Mmio ρ α} {a : α} (h : p.returned = some a) : p = .pure a := by
  cases p with
  | pure b => exact congrArg Mmio.pure (Option.some.inj h)
  | _ => cases h

/-- The program does not wait. -/
def Straight : Mmio ρ α → Prop
  | .pure _ => True
  | .read _ next => ∀ v, (next v).Straight
  | .write _ _ next => next.Straight
  | .await _ _ _ => False

theorem Straight.bind {p : Mmio ρ α} {f : α → Mmio ρ β} (hp : p.Straight)
    (hf : ∀ a, (f a).Straight) : (p >>= f).Straight := by
  induction p with
  | pure a => exact hf a
  | read reg next ih => exact fun v => ih v (hp v)
  | write reg v next ih => exact ih hp
  | await reg cond next => exact hp.elim

/-- The program returns after at most `n` accesses, whatever it reads. -/
def Within : Nat → Mmio ρ α → Prop
  | _, .pure _ => True
  | n + 1, .read _ next => ∀ v, (next v).Within n
  | n + 1, .write _ _ next => next.Within n
  | _, _ => False

theorem Within.le {p : Mmio ρ α} {n m : Nat} (h : p.Within n) (hn : n ≤ m) : p.Within m := by
  induction p generalizing n m with
  | pure a => cases m <;> trivial
  | read reg next ih =>
    obtain _ | n := n
    · exact h.elim
    · obtain ⟨m, rfl⟩ := Nat.exists_eq_add_of_lt hn
      exact fun v => ih v (h v) (by omega)
  | write reg v next ih =>
    obtain _ | n := n
    · exact h.elim
    · obtain ⟨m, rfl⟩ := Nat.exists_eq_add_of_lt hn
      exact ih (n := n) h (by omega)
  | await reg cond next =>
    cases n <;> exact h.elim

/-- The accesses of one part and of what follows it. -/
theorem Within.bind {p : Mmio ρ α} {f : α → Mmio ρ β} {n m : Nat} (hp : p.Within n)
    (hf : ∀ a, (f a).Within m) : (p >>= f).Within (n + m) := by
  induction p generalizing n with
  | pure a => exact (hf a).le (Nat.le_add_left m n)
  | read reg next ih =>
    obtain _ | n := n
    · exact hp.elim
    · rw [Nat.add_right_comm]
      exact fun v => ih v (hp v)
  | write reg v next ih =>
    obtain _ | n := n
    · exact hp.elim
    · rw [Nat.add_right_comm]
      exact ih (n := n) hp
  | await reg cond next =>
    cases n <;> exact hp.elim

structure Device (ρ σ : Type) where
  read : ρ → σ → BitVec 32
  write : ρ → BitVec 32 → σ → σ

variable (D : Device ρ σ)

/-- The next access. -/
def step : Mmio ρ α → σ → Mmio ρ α × σ
  | .pure a, s => (.pure a, s)
  | .read reg next, s => (next (D.read reg s), s)
  | .write reg value next, s => (next, D.write reg value s)
  | .await reg cond next, s => (if cond (D.read reg s) then next else .await reg cond next, s)

theorem Within.step {p : Mmio ρ α} {n : Nat} (h : p.Within n) (hnot : p.returned = none) (s : σ) :
    ∃ k, n = k + 1 ∧ (p.step D s).1.Within k := by
  cases p with
  | pure a => cases hnot
  | await reg cond next => cases n <;> exact h.elim
  | read reg next =>
    obtain _ | n := n
    · exact h.elim
    · exact ⟨n, rfl, h _⟩
  | write reg v next =>
    obtain _ | n := n
    · exact h.elim
    · exact ⟨n, rfl, h⟩

/-- While a program has not returned, what follows it waits. -/
theorem step_bind {p : Mmio ρ α} (f : α → Mmio ρ β) (s : σ) (h : p.returned = none) :
    (p >>= f).step D s = ((p.step D s).1 >>= f, (p.step D s).2) := by
  cases p with
  | pure a => cases h
  | read reg next => rfl
  | write reg value next => rfl
  | await reg cond next =>
    have hleft : (await reg cond next >>= f).step D s =
        (if cond (D.read reg s) then next >>= f else await reg cond next >>= f, s) := rfl
    rw [hleft, step]
    split <;> rfl

/-- An access that is not the last one. -/
def Goes (x y : Mmio ρ α × σ) : Prop := y = x.1.step D x.2 ∧ y.1.returned = none

/-- A program that does not wait comes to its last access. -/
theorem Straight.ends {p : Mmio ρ α} (hp : p.Straight) (hnot : p.returned = none) (s : σ) :
    ∃ q u a, ReflTransGen (Goes D) (p, s) (q, u) ∧ (q.step D u).1.returned = some a := by
  induction p generalizing s with
  | pure a => cases hnot
  | read reg next ih =>
    cases hr : (next (D.read reg s)).returned with
    | some a => exact ⟨_, s, a, .refl, hr⟩
    | none =>
      obtain ⟨q, u, a, hpath, hlast⟩ := ih (D.read reg s) (hp _) hr s
      exact ⟨q, u, a, .head ⟨rfl, hr⟩ hpath, hlast⟩
  | write reg v next ih =>
    cases hr : next.returned with
    | some a => exact ⟨_, s, a, .refl, hr⟩
    | none =>
      obtain ⟨q, u, a, hpath, hlast⟩ := ih hp hr (D.write reg v s)
      exact ⟨q, u, a, .head ⟨rfl, hr⟩ hpath, hlast⟩
  | await reg cond next => exact hp.elim

section Meets

variable (D : Device ρ σ) (move G : σ → σ → Prop)

/-- Before every access the device may move. Every access, from the state before it to the
one after it, is one that `G` allows, and where the program returns, `post` holds. -/
def Meets (post : α → σ → Prop) : Mmio ρ α → σ → Prop
  | .pure a, s => post a s
  | .read reg next, s => ∀ s', ReflTransGen move s s' →
    G s' s' ∧ (next (D.read reg s')).Meets post s'
  | .write reg v next, s => ∀ s', ReflTransGen move s s' →
    G s' (D.write reg v s') ∧ next.Meets post (D.write reg v s')
  | .await reg cond next, s => ∀ s', ReflTransGen move s s' →
    G s' s' ∧ (cond (D.read reg s') = true → next.Meets post s')

variable {D move G} {post post' : α → σ → Prop} {p : Mmio ρ α} {s s' : σ}

/-- A program that has not returned does not notice that the device moves. -/
theorem Meets.moved (h : Meets D move G post p s) (hr : p.returned = none) (hm : move s s') :
    Meets D move G post p s' := by
  cases p with
  | pure a => cases hr
  | read reg next => exact fun u hu => h u (.head hm hu)
  | write reg v next => exact fun u hu => h u (.head hm hu)
  | await reg cond next => exact fun u hu => h u (.head hm hu)

/-- An access changes what it may, and the rest of the program goes on from there. -/
theorem Meets.step (h : Meets D move G post p s) (hr : p.returned = none) :
    G s (p.step D s).2 ∧ Meets D move G post (p.step D s).1 (p.step D s).2 := by
  cases p with
  | pure a => cases hr
  | read reg next => exact h s .refl
  | write reg v next => exact h s .refl
  | await reg cond next =>
    refine ⟨(h s .refl).1, ?_⟩
    rw [Mmio.step]
    cases hc : cond (D.read reg s) with
    | true => exact (h s .refl).2 hc
    | false => exact h

theorem Meets.ended {a : α} (h : Meets D move G post p s) (hr : p.returned = some a) :
    post a s := by
  rw [returned_eq hr] at h
  exact h

theorem Meets.mono (h : Meets D move G post p s) (hpost : ∀ a s, post a s → post' a s) :
    Meets D move G post' p s := by
  induction p generalizing s with
  | pure a => exact hpost a s h
  | read reg next ih => exact fun u hu => ⟨(h u hu).1, ih _ (h u hu).2⟩
  | write reg v next ih => exact fun u hu => ⟨(h u hu).1, ih (h u hu).2⟩
  | await reg cond next ih => exact fun u hu => ⟨(h u hu).1, fun hc => ih ((h u hu).2 hc)⟩

theorem Meets.bind {f : α → Mmio ρ β} {post : β → σ → Prop}
    (h : Meets D move G (fun a s => Meets D move G post (f a) s) p s) :
    Meets D move G post (p >>= f) s := by
  induction p generalizing s with
  | pure a => exact h
  | read reg next ih => exact fun u hu => ⟨(h u hu).1, ih _ (h u hu).2⟩
  | write reg v next ih => exact fun u hu => ⟨(h u hu).1, ih (h u hu).2⟩
  | await reg cond next ih => exact fun u hu => ⟨(h u hu).1, fun hc => ih ((h u hu).2 hc)⟩

/-- One part after the other. -/
theorem Meets.seq {f : α → Mmio ρ β} {post' : β → σ → Prop} (h : Meets D move G post p s)
    (hf : ∀ a s, post a s → Meets D move G post' (f a) s) : Meets D move G post' (p >>= f) s :=
  (h.mono hf).bind

/-- The device keeps `A`, so that it can be used at every access. -/
def Stable (move : σ → σ → Prop) (A : σ → Prop) : Prop := ∀ s s', A s → move s s' → A s'

variable {A : σ → Prop} {reg : ρ}

theorem Stable.moves (hA : Stable move A) (h : A s) (hm : ReflTransGen move s s') : A s' := by
  induction hm with
  | refl => exact h
  | tail _ hlast ih => exact hA _ _ ih hlast

theorem meets_read {next : BitVec 32 → Mmio ρ α} (hA : Stable move A) (h : A s)
    (hnext : ∀ s, A s → G s s ∧ Meets D move G post (next (D.read reg s)) s) :
    Meets D move G post (.read reg next) s :=
  fun u hu => hnext u (hA.moves h hu)

theorem meets_write {v : BitVec 32} (hA : Stable move A) (h : A s)
    (hnext : ∀ s, A s → G s (D.write reg v s) ∧ Meets D move G post p (D.write reg v s)) :
    Meets D move G post (.write reg v p) s :=
  fun u hu => hnext u (hA.moves h hu)

theorem meets_await {cond : BitVec 32 → Bool} (hA : Stable move A) (h : A s)
    (hnext : ∀ s, A s → G s s ∧ (cond (D.read reg s) = true → Meets D move G post p s)) :
    Meets D move G post (.await reg cond p) s :=
  fun u hu => hnext u (hA.moves h hu)

end Meets

end Mmio

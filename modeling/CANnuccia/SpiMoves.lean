import CANnuccia.Mmio
import CANnuccia.Spi

/-!
# Programs over SPI whose slave moves on its own

`Meets` says of them what `Mmio.Meets` says of programs that access registers: what a
program comes to, whatever the slave does between two actions on the bus.
-/
namespace Spi

open Mmio (Stable)
open Relation (ReflTransGen)

variable {α β σ : Type} (S : Slave σ) (move : σ → σ → Prop)

/-- The next action. -/
def step : Spi α → σ → Spi α × σ
  | .pure a, s => (.pure a, s)
  | .select p, s => (p, S.select s)
  | .transfer byte f, s => (f (S.transfer byte s).1, (S.transfer byte s).2)
  | .deselect p, s => (p, S.deselect s)

/-- Before every action the slave may move. Where the program returns, `post` holds. -/
def Meets (post : α → σ → Prop) : Spi α → σ → Prop
  | .pure a, s => post a s
  | .select p, s => ∀ s', ReflTransGen move s s' → p.Meets post (S.select s')
  | .transfer byte f, s => ∀ s', ReflTransGen move s s' →
    (f (S.transfer byte s').1).Meets post (S.transfer byte s').2
  | .deselect p, s => ∀ s', ReflTransGen move s s' → p.Meets post (S.deselect s')

variable {S move} {post post' : α → σ → Prop} {p : Spi α} {s s' : σ}

/-- A program that has not returned does not notice that the slave moves. -/
theorem Meets.moved (h : Meets S move post p s) (hr : p.returned = none) (hm : move s s') :
    Meets S move post p s' := by
  cases p with
  | pure a => cases hr
  | select p => exact fun u hu => h u (.head hm hu)
  | transfer byte f => exact fun u hu => h u (.head hm hu)
  | deselect p => exact fun u hu => h u (.head hm hu)

/-- The rest of the program goes on from where an action has led. -/
theorem Meets.step (h : Meets S move post p s) :
    Meets S move post (p.step S s).1 (p.step S s).2 := by
  cases p with
  | pure a => exact h
  | select p => exact h s .refl
  | transfer byte f => exact h s .refl
  | deselect p => exact h s .refl

theorem Meets.ended {a : α} (h : Meets S move post p s) (hr : p.returned = some a) :
    post a s := by
  cases p with
  | pure b =>
    cases hr
    exact h
  | _ => cases hr

theorem Meets.mono (h : Meets S move post p s) (hpost : ∀ a s, post a s → post' a s) :
    Meets S move post' p s := by
  induction p generalizing s with
  | pure a => exact hpost a s h
  | select p ih => exact fun u hu => ih (h u hu)
  | transfer byte f ih => exact fun u hu => ih _ (h u hu)
  | deselect p ih => exact fun u hu => ih (h u hu)

theorem Meets.bind {f : α → Spi β} {post : β → σ → Prop}
    (h : Meets S move (fun a s => Meets S move post (f a) s) p s) :
    Meets S move post (p >>= f) s := by
  induction p generalizing s with
  | pure a => exact h
  | select p ih => exact fun u hu => ih (h u hu)
  | transfer byte g ih => exact fun u hu => ih _ (h u hu)
  | deselect p ih => exact fun u hu => ih (h u hu)

/-- One part after the other. -/
theorem Meets.seq {f : α → Spi β} {post' : β → σ → Prop} (h : Meets S move post p s)
    (hf : ∀ a s, post a s → Meets S move post' (f a) s) : Meets S move post' (p >>= f) s :=
  (h.mono hf).bind

-- What the slave keeps can be used at every action.

variable {A : σ → Prop} {byte : BitVec 8}

theorem meets_select (hA : Stable move A) (h : A s)
    (hnext : ∀ s, A s → Meets S move post p (S.select s)) :
    Meets S move post (.select p) s :=
  fun u hu => hnext u (hA.moves h hu)

theorem meets_transfer {f : BitVec 8 → Spi α} (hA : Stable move A) (h : A s)
    (hnext : ∀ s, A s → Meets S move post (f (S.transfer byte s).1) (S.transfer byte s).2) :
    Meets S move post (.transfer byte f) s :=
  fun u hu => hnext u (hA.moves h hu)

theorem meets_deselect (hA : Stable move A) (h : A s)
    (hnext : ∀ s, A s → Meets S move post p (S.deselect s)) :
    Meets S move post (.deselect p) s :=
  fun u hu => hnext u (hA.moves h hu)

end Spi

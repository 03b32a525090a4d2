import Mathlib.Data.List.Basic

/-!
# Programs that talk over SPI

A program selects its slave, exchanges bytes with it and deselects it. What happens
between two windows of selection is left to who runs the program: `run` runs it alone,
`window` up to the end of the next window, so that the slave can move on its own after.
-/

inductive Spi (α : Type) where
  | pure (a : α)
  | select (next : Spi α)
  | transfer (byte : BitVec 8) (next : BitVec 8 → Spi α)
  | deselect (next : Spi α)

namespace Spi

variable {α β σ : Type}

protected def bind : Spi α → (α → Spi β) → Spi β
  | .pure a, f => f a
  | .select next, f => .select (next.bind f)
  | .transfer byte next, f => .transfer byte fun r => (next r).bind f
  | .deselect next, f => .deselect (next.bind f)

instance : Monad Spi where
  pure := .pure
  bind := Spi.bind

def spiSelect : Spi Unit := .select (.pure ())

/-- Writes a byte and returns the byte received with it. -/
def spiTransfer (byte : BitVec 8) : Spi (BitVec 8) := .transfer byte .pure

def spiDeselect : Spi Unit := .deselect (.pure ())

/-- Writes bytes and drops what is received. -/
def transferAll : List (BitVec 8) → Spi Unit
  | [] => .pure ()
  | b :: bs => .transfer b fun _ => transferAll bs

@[simp] theorem pure_bind' (a : α) (f : α → Spi β) : (Pure.pure a : Spi α) >>= f = f a := rfl
@[simp] theorem select_bind (f : Unit → Spi β) : spiSelect >>= f = .select (f ()) := rfl
@[simp] theorem transfer_bind (byte : BitVec 8) (f : BitVec 8 → Spi β) :
    spiTransfer byte >>= f = .transfer byte f := rfl
@[simp] theorem deselect_bind (f : Unit → Spi β) : spiDeselect >>= f = .deselect (f ()) := rfl

theorem bind_assoc {γ : Type} (p : Spi α) (f : α → Spi β) (g : β → Spi γ) :
    (p >>= f) >>= g = p >>= fun a => f a >>= g := by
  induction p with
  | pure a => rfl
  | select next ih => exact congrArg Spi.select ih
  | transfer byte next ih =>
    refine congrArg (Spi.transfer byte) ?_
    funext r
    exact ih r
  | deselect next ih => exact congrArg Spi.deselect ih

/-- What the pins of a slave do to it. -/
structure Slave (σ : Type) where
  select : σ → σ
  transfer : BitVec 8 → σ → BitVec 8 × σ
  deselect : σ → σ

variable (S : Slave σ)

def run : Spi α → σ → α × σ
  | .pure a, s => (a, s)
  | .select next, s => next.run (S.select s)
  | .transfer byte next, s => (next (S.transfer byte s).1).run (S.transfer byte s).2
  | .deselect next, s => next.run (S.deselect s)

/-- The program that is left after the next window, and the slave. -/
def window : Spi α → σ → Spi α × σ
  | .pure a, s => (.pure a, s)
  | .select next, s => next.window (S.select s)
  | .transfer byte next, s => (next (S.transfer byte s).1).window (S.transfer byte s).2
  | .deselect next, s => (next, S.deselect s)

@[simp] theorem run_pure (a : α) (s : σ) : (Pure.pure a : Spi α).run S s = (a, s) := rfl
@[simp] theorem run_select (p : Spi α) (s : σ) : (select p).run S s = p.run S (S.select s) := rfl
@[simp] theorem run_transfer (byte : BitVec 8) (f : BitVec 8 → Spi α) (s : σ) :
    (transfer byte f).run S s = (f (S.transfer byte s).1).run S (S.transfer byte s).2 := rfl
@[simp] theorem run_deselect (p : Spi α) (s : σ) :
    (deselect p).run S s = p.run S (S.deselect s) := rfl

theorem run_bind (p : Spi α) (f : α → Spi β) (s : σ) :
    (p >>= f).run S s = (f (p.run S s).1).run S (p.run S s).2 := by
  induction p generalizing s with
  | pure a => rfl
  | select next ih => exact ih _
  | transfer byte next ih => exact ih _ _
  | deselect next ih => exact ih _

@[simp] theorem window_select (p : Spi α) (s : σ) :
    (select p).window S s = p.window S (S.select s) := rfl
@[simp] theorem window_transfer (byte : BitVec 8) (f : BitVec 8 → Spi α) (s : σ) :
    (transfer byte f).window S s = (f (S.transfer byte s).1).window S (S.transfer byte s).2 := rfl
@[simp] theorem window_deselect (p : Spi α) (s : σ) :
    (deselect p).window S s = (p, S.deselect s) := rfl

/-- If nothing happens between the windows, they make up the run. -/
theorem run_window (p : Spi α) (s : σ) : (p.window S s).1.run S (p.window S s).2 = p.run S s := by
  induction p generalizing s with
  | pure a => rfl
  | select next ih => exact ih _
  | transfer byte next ih => exact ih _ _
  | deselect next _ => rfl

/-- The program that is left after the next action; a transfer receives `byte`. -/
def next : Spi α → BitVec 8 → Spi α
  | .pure a, _ => .pure a
  | .select p, _ => p
  | .transfer _ f, byte => f byte
  | .deselect p, _ => p

/-- The program has returned. -/
def returned : Spi α → Option α
  | .pure a => some a
  | _ => none

/-- Whatever bytes are received, the program returns what `post` says. -/
def Always (post : α → Prop) : Spi α → Prop
  | .pure a => post a
  | .select p => p.Always post
  | .transfer _ f => ∀ byte, (f byte).Always post
  | .deselect p => p.Always post

variable {post : α → Prop} {p : Spi α}

theorem Always.of_forall (h : ∀ a, post a) : p.Always post := by
  induction p with
  | pure a => exact h a
  | select p ih => exact ih
  | transfer b f ih => exact ih
  | deselect p ih => exact ih

theorem Always.next (h : p.Always post) (byte : BitVec 8) : (p.next byte).Always post := by
  cases p with
  | pure a => exact h
  | select p => exact h
  | transfer b f => exact h byte
  | deselect p => exact h

theorem Always.ended {a : α} (h : p.Always post) (hr : p.returned = some a) : post a := by
  cases p with
  | pure b =>
    cases hr
    exact h
  | _ => cases hr

theorem Always.bind {f : α → Spi β} {post : β → Prop} (h : p.Always fun a => (f a).Always post) :
    (p >>= f).Always post := by
  induction p with
  | pure a => exact h
  | select p ih => exact ih h
  | transfer b g ih => exact fun byte => ih byte (h byte)
  | deselect p ih => exact ih h

/-- The slave after some bytes. -/
def Slave.absorb (bytes : List (BitVec 8)) (s : σ) : σ :=
  bytes.foldl (fun s b => (S.transfer b s).2) s

@[simp] theorem run_transferAll (bytes : List (BitVec 8)) (f : Unit → Spi β) (s : σ) :
    (transferAll bytes >>= f).run S s = (f ()).run S (S.absorb bytes s) := by
  induction bytes generalizing s with
  | nil => rfl
  | cons b bytes ih => exact ih _

@[simp] theorem window_transferAll (bytes : List (BitVec 8)) (f : Unit → Spi β) (s : σ) :
    (transferAll bytes >>= f).window S s = (f ()).window S (S.absorb bytes s) := by
  induction bytes generalizing s with
  | nil => rfl
  | cons b bytes ih => exact ih _

end Spi

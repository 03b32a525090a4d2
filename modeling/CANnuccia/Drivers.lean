import CANnuccia.Util

/-!
# The interfaces of the drivers (common/flash.h, common/timer.h)

A driver is given by its state (the static variables of flash.c or timer.c and what
the hardware holds) and by what each function does to that state. A timer adds two
moves of its own: the counter reaches its end, and a requested interrupt is
dispatched. The counter is not timed, so an expiry may come at any moment while it
counts.
-/
namespace CANnuccia

open Util

/-- What the flash hardware is asked to do, with the byte address it is asked for. -/
inductive FlashOp where
  | erase (addr : Nat)
  | program (addr : Nat)
  deriving DecidableEq, Repr

def FlashOp.addr : FlashOp → Nat
  | .erase a => a
  | .program a => a

/-- The bytes of an erased page. -/
def erased (size : Nat) : List U8 := List.replicate size 0xFF#8

@[simp] theorem erased_length (size : Nat) : (erased size).length = size := by simp [erased]

@[simp] theorem erased_getElem {size i : Nat} (h : i < (erased size).length) :
    (erased size)[i] = 0xFF#8 := List.getElem_replicate _

/-- `w` is the width of `uintptr_t`, which is that of `unsigned` on both targets.
`cnFlashFill` is `none` where its loop does not end; its data is the memory the
pointer leads to, as far as it is read. `contents`, `ops` and `locked` observe the
state: the flash bytes, the operations issued since reset, and whether the driver
or the controller refuses to write. -/
structure FlashDriver (w : Nat) where
  Flash : Type
  cnFlashSize : BitVec w
  cnFlashPageWriteable : BitVec w → Bool
  cnFlashUnlock : Flash → Bool × Flash
  cnFlashLock : Flash → Bool × Flash
  cnFlashBeginWrite : BitVec w → Flash → Bool × Flash
  cnFlashFill : BitVec w → BitVec w → (Nat → U8) → Flash → Option (BitVec w × Flash)
  cnFlashEndWrite : Flash → Bool × Flash
  AtReset : Flash → Prop
  contents : Flash → Nat → U8
  ops : Flash → List FlashOp
  locked : Flash → Bool

/-- While a driver is locked no call changes a flash byte, and only a successful
unlock ends that. Unlocking and locking ask nothing of the hardware. -/
structure LockRespected {w : Nat} (D : FlashDriver w) : Prop where
  reset : ∀ f, D.AtReset f → D.locked f = true
  reset_ops : ∀ f, D.AtReset f → D.ops f = []
  unlock_contents : ∀ f, D.contents (D.cnFlashUnlock f).2 = D.contents f
  unlock_ops : ∀ f, D.ops (D.cnFlashUnlock f).2 = D.ops f
  unlock_refused : ∀ f, D.locked f = true → (D.cnFlashUnlock f).1 = false →
    D.locked (D.cnFlashUnlock f).2 = true
  lock_contents : ∀ f, D.contents (D.cnFlashLock f).2 = D.contents f
  lock_ops : ∀ f, D.ops (D.cnFlashLock f).2 = D.ops f
  lock_locked : ∀ f, D.locked (D.cnFlashLock f).2 = true
  beginWrite : ∀ addr f, D.locked f = true →
    D.contents (D.cnFlashBeginWrite addr f).2 = D.contents f ∧
      D.locked (D.cnFlashBeginWrite addr f).2 = true
  fill : ∀ offset size data f n f', D.locked f = true →
    D.cnFlashFill offset size data f = some (n, f') →
      D.contents f' = D.contents f ∧ D.locked f' = true
  endWrite : ∀ f, D.locked f = true →
    D.contents (D.cnFlashEndWrite f).2 = D.contents f ∧ D.locked (D.cnFlashEndWrite f).2 = true

/-- A successful unlock opens the driver, and no write cycle closes it again. -/
structure UnlockLasts {w : Nat} (D : FlashDriver w) : Prop where
  unlock_done : ∀ f, (D.cnFlashUnlock f).1 = true → D.locked (D.cnFlashUnlock f).2 = false
  beginWrite : ∀ addr f, D.locked f = false → D.locked (D.cnFlashBeginWrite addr f).2 = false
  fill : ∀ offset size data f n f', D.locked f = false →
    D.cnFlashFill offset size data f = some (n, f') → D.locked f' = false
  endWrite : ∀ f, D.locked f = false → D.locked (D.cnFlashEndWrite f).2 = false

variable {F : Type}

/-- `F` is the type of the timeout functions. `cnTimerStart` is `none` where its
arithmetic is undefined in C. `irq` is `none` while no interrupt can be
dispatched; otherwise it runs the handler and tells what function that called. -/
structure TimerDriver (F : Type) where
  Timer : Type
  reset : Timer
  cnTimerStart : U32 → Bool → Option F → Timer → Option (Bool × Timer)
  cnTimerStop : Timer → Timer
  expire : Timer → Option Timer
  irq : Timer → Option (Timer × Option F)

inductive TimerCall (F : Type) where
  | start (delayUs : U32) (oneshot : Bool) (onTimeout : Option F)
  | stop

/-- What the calls and the hardware do to a timer. -/
inductive TimerDriver.Step (T : TimerDriver F) : T.Timer → T.Timer → Prop where
  | start {t t' : T.Timer} {delayUs : U32} {oneshot : Bool} {onTimeout : Option F} {ok : Bool} :
      T.cnTimerStart delayUs oneshot onTimeout t = some (ok, t') → T.Step t t'
  | stop (t : T.Timer) : T.Step t (T.cnTimerStop t)
  | expire {t t' : T.Timer} : T.expire t = some t' → T.Step t t'
  | irq {t t' : T.Timer} {f : Option F} : T.irq t = some (t', f) → T.Step t t'

/-- A one-shot timer seen from outside. It is armed by one start with one
function, stays armed until its only interrupt is dispatched or it is stopped,
and is quiet from then on. -/
structure OneShot (D : TimerDriver F) (delayUs : U32) (onTimeout : F) where
  Quiet : D.Timer → Prop
  Armed : D.Timer → Prop
  reset_quiet : Quiet D.reset
  reset_expire : D.expire D.reset = none
  start_armed : ∃ t, D.cnTimerStart delayUs true (some onTimeout) D.reset = some (true, t) ∧ Armed t
  stop_quiet : ∀ t, Quiet (D.cnTimerStop t)
  quiet_expire : ∀ {t t'}, Quiet t → D.expire t = some t' → Quiet t'
  quiet_irq : ∀ {t}, Quiet t → D.irq t = none
  armed_expire : ∀ {t t'}, Armed t → D.expire t = some t' → Armed t'
  armed_irq : ∀ {t t' f}, Armed t → D.irq t = some (t', f) → Quiet t' ∧ f = some onTimeout

end CANnuccia

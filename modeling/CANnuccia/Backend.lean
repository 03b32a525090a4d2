import CANnuccia.Stm32Flash
import CANnuccia.Stm32Timer
import CANnuccia.AvrFlash
import CANnuccia.AvrTimer

/-!
# The two builds

A backend is what main.c is compiled against: the macros of the toolchain file
and the functions of the target's directory.
-/
namespace CANnuccia

open Util

/-- The functions main.c hands to the timer. -/
inductive Callback where
  | onTimeout
  deriving DecidableEq, Repr

/-- BOOTLOADER_TIMEOUT_US -/
def bootloaderTimeoutUs : U32 := 3000000#32

structure Backend where
  /-- Width of `uintptr_t`, `size_t` and `unsigned`. -/
  w : Nat
  cnFlashPageSize : BitVec w
  cnFlashPageMask : BitVec w
  cnEMachine : U16
  cnCRC16 : List U8 → U16
  flash : FlashDriver w
  timer : TimerDriver Callback
  oneShot : OneShot timer bootloaderTimeoutUs .onTimeout
  lockRespected : LockRespected flash

def stm32 : Backend where
  w := 32
  cnFlashPageSize := Stm32Flash.cnFlashPageSize
  cnFlashPageMask := Stm32Flash.cnFlashPageMask
  cnEMachine := 0x0028#16
  cnCRC16 := stm32CnCRC16
  flash := Stm32Flash.driver
  timer := Stm32Timer.driver Callback
  oneShot := Stm32Timer.oneShot Callback.onTimeout
  lockRespected := Stm32Flash.lockRespected

def avr : Backend where
  w := 16
  cnFlashPageSize := AvrFlash.cnFlashPageSize
  cnFlashPageMask := AvrFlash.cnFlashPageMask
  cnEMachine := 0x0053#16
  cnCRC16 := avrCnCRC16
  flash := AvrFlash.driver
  timer := AvrTimer.driver Callback
  oneShot := AvrTimer.oneShot Callback.onTimeout
  lockRespected := AvrFlash.lockRespected

inductive Target where
  | stm32 | avr
  deriving DecidableEq, Repr

def Target.backend : Target → Backend
  | .stm32 => CANnuccia.stm32
  | .avr => CANnuccia.avr

theorem Target.unlockLasts (t : Target) : UnlockLasts t.backend.flash := by
  cases t
  · exact Stm32Flash.unlockLasts
  · exact AvrFlash.unlockLasts

end CANnuccia

import CANnuccia.Filter

/-!
# The set-up of the CAN controller on AVR (avr/can.c)

What `cnCANInit` does over SPI; the pins and the SPI unit itself are not modelled.
-/
namespace CANnuccia.AvrCan

open Util
open Spi (spiSelect spiTransfer spiDeselect)

def mcpCmdReset : U8 := 0xC0#8
def mcpCmdRead : U8 := 0x03#8
def mcpCmdBitModify : U8 := 0x05#8

def mcpRegCanctrl : U8 := 0x0F#8
def mcpRegCnf1 : U8 := 0x2A#8
def mcpRegCnf2 : U8 := 0x29#8
def mcpRegCnf3 : U8 := 0x28#8

def mcpModemask : U8 := 0xE0#8
def mcpModeNormal : U8 := 0x00#8
def mcpModeConfig : U8 := 0x80#8

def mcpCnf1Val : U8 := 0x00#8
def mcpCnf2Val : U8 := 0x91#8
def mcpCnf3Val : U8 := 0x01#8

def mcpRead (addr : U8) : Spi U8 := do
  spiSelect
  let _ ← spiTransfer mcpCmdRead
  let _ ← spiTransfer addr
  let reg ← spiTransfer 0x00#8
  spiDeselect
  return reg

def mcpWrite (addr value : U8) : Spi Unit := do
  spiSelect
  let _ ← spiTransfer mcpCmdWrite
  let _ ← spiTransfer addr
  let _ ← spiTransfer value
  spiDeselect

def mcpModify (addr mask value : U8) : Spi Unit := do
  spiSelect
  let _ ← spiTransfer mcpCmdBitModify
  let _ ← spiTransfer addr
  let _ ← spiTransfer mask
  let _ ← spiTransfer value
  spiDeselect

/-- It reads back what it has asked for, not the mode the controller is in. -/
def mcpChangeMode (newMode : U8) : Spi Bool := do
  mcpModify mcpRegCanctrl mcpModemask newMode
  let reg ← mcpRead mcpRegCanctrl
  return decide (reg &&& mcpModemask = newMode)

def mcpReset : Spi Unit := do
  spiSelect
  let _ ← spiTransfer mcpCmdReset
  spiDeselect

/-- It waits a millisecond after the reset. -/
def mcpSetup (id mask : U32) : Spi Bool := do
  mcpReset
  if ← mcpChangeMode mcpModeConfig then
    mcpWrite mcpRegCnf1 mcpCnf1Val
    mcpWrite mcpRegCnf2 mcpCnf2Val
    mcpWrite mcpRegCnf3 mcpCnf3Val
    mcpSetFilter0 id mask
    mcpChangeMode mcpModeNormal
  else return false

/-- What it returns, and `inited` after it. -/
def cnCANInit (inited : Bool) (id mask : U32) : Spi (Bool × Bool) := do
  if inited then
    if ← mcpChangeMode mcpModeConfig then
      mcpSetFilter0 id mask
      let r ← mcpChangeMode mcpModeNormal
      return (r, true)
    else return (false, true)
  else
    let r ← mcpSetup id mask
    return (r, r)

end CANnuccia.AvrCan

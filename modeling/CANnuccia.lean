import CANnuccia.Mealy
import CANnuccia.Parallel
import CANnuccia.Pace
import CANnuccia.Mmio
import CANnuccia.Fifo
import CANnuccia.Overlay
import CANnuccia.PageStore
import CANnuccia.Masks
import CANnuccia.Crc
import CANnuccia.Util
import CANnuccia.Crc16
import CANnuccia.CanMsgs
import CANnuccia.Drivers
import CANnuccia.Stm32Flash
import CANnuccia.AvrFlash
import CANnuccia.Stm32Timer
import CANnuccia.AvrTimer
import CANnuccia.Backend
import CANnuccia.Pump
import CANnuccia.Moves
import CANnuccia.Timeout
import CANnuccia.Unlock
import CANnuccia.Select
import CANnuccia.FillBounds
import CANnuccia.FlashCycle
import CANnuccia.Commit
import CANnuccia.AvrStore
import CANnuccia.Sequential
import CANnuccia.Session
import CANnuccia.Held
import CANnuccia.Integrity
import CANnuccia.Detection
import CANnuccia.Refusal
import CANnuccia.Handlers
import CANnuccia.Retry
import CANnuccia.Buffer
import CANnuccia.Leak
import CANnuccia.Bus
import CANnuccia.Spi
import CANnuccia.Mcp
import CANnuccia.AvrCan
import CANnuccia.Stm32Can
import CANnuccia.Mailboxes
import CANnuccia.Identifiers
import CANnuccia.Frames
import CANnuccia.Receive
import CANnuccia.MixedBus
import CANnuccia.Framing
import CANnuccia.Lengths
import CANnuccia.Delivery
import CANnuccia.Filter
import CANnuccia.Written
import CANnuccia.AvrDelay
import CANnuccia.Stm32Period
import CANnuccia.TimerCalls
import CANnuccia.Preempt
import CANnuccia.Stm32Preempt
import CANnuccia.AvrPreempt
import CANnuccia.Stale
import CANnuccia.StoreRefined
import CANnuccia.Extent
import CANnuccia.Observed
import CANnuccia.AvrInit
import CANnuccia.SpiMoves
import CANnuccia.McpSetup
import CANnuccia.AvrNode
import CANnuccia.BxCan
import CANnuccia.BxCanCalls
import CANnuccia.BxCanInit
import CANnuccia.Stm32Node
import CANnuccia.Stm32Traffic
import CANnuccia.Replay
import CANnuccia.NodeSession
import CANnuccia.NodeStore
import CANnuccia.NodeBus
import CANnuccia.Restarts
import CANnuccia.Latency
import CANnuccia.Backlog
import CANnuccia.Startup
import CANnuccia.Launch
import CANnuccia.Clocks
import CANnuccia.BitTiming

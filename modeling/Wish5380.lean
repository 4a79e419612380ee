import Wish5380.Chip.Steps
import Wish5380.Dma.System
import Wish5380.Clocked.Interlock
import Wish5380.Targ.Ownership
import Wish5380.Targ.WriteData
import Wish5380.Dma.Receive
import Wish5380.Dma.Send
import Wish5380.Dma.Pair
import Wish5380.Soft.Model
import Wish5380.Soft.Core
import Wish5380.Soft.Hard
import Wish5380.Soft.Passes
import Wish5380.Soft.Refine
import Wish5380.Chip.Interrupt
import Wish5380.Sd.Model
import Wish5380.Targ.Selection
import Wish5380.Dma.Contention
import Wish5380.Wb.Decode
import Wish5380.Wb.Contract
import Wish5380.Wb.System
import Wish5380.Clocked.History
import Wish5380.Sd.Trace
import Wish5380.Sd.Answers
import Wish5380.Sd.Visits
import Wish5380.Sd.Fresh
import Wish5380.Sd.NotReady
import Wish5380.Sd.Addressing
import Wish5380.Clocked.Leads
import Wish5380.Sd.Card
import Wish5380.Sd.Stack
import Wish5380.Sd.Exchange
import Wish5380.Sd.Views
import Wish5380.Bus.Filters
import Wish5380.Chip.BusLoss
import Wish5380.Chip.EndOfProcess
import Wish5380.Targ.Protocol
import Wish5380.Targ.Responses
import Wish5380.Targ.Capacity
import Wish5380.Targ.Decode
import Wish5380.Targ.Sense
import Wish5380.Chip.InitiatorDma
import Wish5380.Clocked.Watchdog
import Wish5380.Sd.Progress
import Wish5380.Sd.Commands
import Wish5380.Sd.StartUp
import Wish5380.Sd.Blocks
import Wish5380.Crc.Errors
import Wish5380.Sd.LineErrors
import Wish5380.Sd.Framing
import Wish5380.Targ.Messages
import Wish5380.Bytes.Store
import Wish5380.Tt.Model
import Wish5380.Tt.Packer
import Wish5380.Soft.Settles
import Wish5380.Callback.Activity
import Wish5380.Sun3.Model
import Wish5380.Sun3.Pump
import Wish5380.Sun3.Eop
import Wish5380.Sun3.Accounts
import Wish5380.Soft.Connected
import Wish5380.Soft.Delivers
import Wish5380.Soft.Arrival
import Wish5380.Soft.Reads
import Wish5380.Soft.Wires
import Wish5380.Sd.Transceiver
import Wish5380.Sd.ClockRate
import Wish5380.Targ.Indices
import Wish5380.Sd.Packet
import Wish5380.Sd.BlockArray
import Wish5380.Block.Volume
import Wish5380.Block.Device
import Wish5380.Block.Disk
import Wish5380.Block.Read
import Wish5380.Block.Write
import Wish5380.Block.ReadBack
import Wish5380.Block.Card
import Wish5380.Block.OnCard
import Wish5380.Clocked.Program
import Wish5380.Driver.Model
import Wish5380.Driver.Lines
import Wish5380.Driver.Pio
import Wish5380.Driver.Select
import Wish5380.Driver.Execute
import Wish5380.Driver.Course
import Wish5380.Driver.Session
import Wish5380.Driver.OnDisk
import Wish5380.Driver.Progress
import Wish5380.Driver.Blocks

import BTHomeWritable.Lib.Circular
import BTHomeWritable.Lib.Statements
import BTHomeWritable.Lib.LittleEndian
import BTHomeWritable.Lib.Runs
import BTHomeWritable.Lib.Aead
import BTHomeWritable.Device.Base
import BTHomeWritable.Device.Seal
import BTHomeWritable.Device.Counters
import BTHomeWritable.Device.Effects
import BTHomeWritable.Device.Nonces
import BTHomeWritable.Device.Replay
import BTHomeWritable.Device.FlashFailure
import BTHomeWritable.Receiver.Frames
import BTHomeWritable.Agreement.Seal
import BTHomeWritable.Agreement.Resync
import BTHomeWritable.Lib.StableSort
import BTHomeWritable.Device.Plan
import BTHomeWritable.Device.PlanInv
import BTHomeWritable.Agreement.Packet
import BTHomeWritable.Lib.Overtaking
import BTHomeWritable.Receiver.Queue
import BTHomeWritable.Receiver.QueueShape
import BTHomeWritable.Receiver.QueueRest
import BTHomeWritable.Receiver.QueueOrder
import BTHomeWritable.Receiver.QueueSettles
import BTHomeWritable.Receiver.Coordinator
import BTHomeWritable.Receiver.ObjectId
import BTHomeWritable.Receiver.Absorbing
import BTHomeWritable.Agreement.Hearing
import BTHomeWritable.Receiver.Slots
import BTHomeWritable.Receiver.SlotsInv
import BTHomeWritable.Lib.WaitFor
import BTHomeWritable.Receiver.Link
import BTHomeWritable.Receiver.LinkInv
import BTHomeWritable.Receiver.Cache
import BTHomeWritable.Receiver.CacheLayout
import BTHomeWritable.Receiver.CacheRevision
import BTHomeWritable.Firmware.State
import BTHomeWritable.Firmware.Radio
import BTHomeWritable.Firmware.Writes
import BTHomeWritable.Firmware.Setup
import BTHomeWritable.Firmware.Frames
import BTHomeWritable.Firmware.Restart
import BTHomeWritable.Firmware.Accounts
import BTHomeWritable.Firmware.Reads
import BTHomeWritable.Firmware.Plans
import BTHomeWritable.Firmware.Picture
import BTHomeWritable.Firmware.Publishing
import BTHomeWritable.Firmware.OnAir
import BTHomeWritable.Firmware.Timers
import BTHomeWritable.Firmware.ReadTimer
import BTHomeWritable.Firmware.SetupErrors
import BTHomeWritable.Firmware.Rates
import BTHomeWritable.Firmware.PacketIds
import BTHomeWritable.Firmware.Changes
import BTHomeWritable.Receiver.Turns
import BTHomeWritable.Receiver.ReadFlags
import BTHomeWritable.Receiver.StandingDown
import BTHomeWritable.Receiver.WrittenValue
import BTHomeWritable.Receiver.Entity
import BTHomeWritable.Receiver.Duplicates
import BTHomeWritable.Receiver.Grammar
import BTHomeWritable.Lib.HalfEven
import BTHomeWritable.Receiver.Scaled
import BTHomeWritable.Agreement.Numbers
import BTHomeWritable.Agreement.Objects
import BTHomeWritable.Device.Strides
import BTHomeWritable.Lib.BlockCipher
import BTHomeWritable.Lib.Buffers
import BTHomeWritable.Lib.Ccm
import BTHomeWritable.Device.Ccm
import BTHomeWritable.Device.CcmBlocks
import BTHomeWritable.Device.CcmRefines
import BTHomeWritable.Tools.CcmReference
import BTHomeWritable.Agreement.Ccm
import BTHomeWritable.Receiver.SlotsOrder
import BTHomeWritable.Lib.Renaming
import BTHomeWritable.Receiver.Migration
import BTHomeWritable.Lib.JavaScript
import BTHomeWritable.Tools.StripComments
import BTHomeWritable.Tools.StrippedTokens
import BTHomeWritable.Agreement.Channel
import BTHomeWritable.Agreement.Question
import BTHomeWritable.Firmware.Packets
import BTHomeWritable.Agreement.Broadcasts
import BTHomeWritable.Receiver.ConfigFlow
import BTHomeWritable.Agreement.Values
import BTHomeWritable.Lib.FirstSeen
import BTHomeWritable.Receiver.Platforms
import BTHomeWritable.Firmware.BTHome
import BTHomeWritable.Agreement.Types
import BTHomeWritable.Lib.Utf8
import BTHomeWritable.Receiver.Controls
import BTHomeWritable.Agreement.Commands
import BTHomeWritable.Lib.Scripted
import BTHomeWritable.Firmware.Lives

import Msrt.RingQueue
import Msrt.Checked
import Msrt.SaturatingWords
import Msrt.RingArray
import Msrt.ByteWords
import Msrt.ShiftRegister
import Msrt.BinaryRemainder
import Msrt.Chunks
import Msrt.SlotTable
import Msrt.SlotMap
import Msrt.Scanner
import Msrt.Lcg
import Msrt.SendLedger
import Msrt.Simulation
import Msrt.SipHash
import Msrt.Core
import Msrt.Integrity
import Msrt.CrcRegister
import Msrt.CrcPolynomials
import Msrt.SipAbsorption
import Msrt.StreamingDecoder
import Msrt.PacketCodec
import Msrt.Queues
import Msrt.InFlight
import Msrt.Reassembly
import Msrt.Engine
import Msrt.Endpoint
import Msrt.WireStream
import Msrt.PacketFormat
import Msrt.PacketImage
import Msrt.StreamRecovery
import Msrt.BurstErrors
import Msrt.Frames
import Msrt.History
import Msrt.ReceiveStream
import Msrt.IngressBounds
import Msrt.SchedulerSpec
import Msrt.ListQueues
import Msrt.Sending
import Msrt.Polling
import Msrt.ReassemblySpec
import Msrt.ReassemblyTable
import Msrt.DedupWindow
import Msrt.Receiving
import Msrt.Delivery
import Msrt.Outgoing
import Msrt.MessageIds
import Msrt.SendMoves
import Msrt.QueuedWrites
import Msrt.QueueOrder
import Msrt.AllOrNothing
import Msrt.Retransmission
import Msrt.Link
import Msrt.LinkDelivery
import Msrt.Acknowledgements
import Msrt.Verdicts
import Msrt.RetransmitTick
import Msrt.DynamicRecovery
import Msrt.Release
import Msrt.Sessions
import Msrt.Draining
import Msrt.Server
import Msrt.Lifecycle
import Msrt.ReassemblyAge
import Msrt.DynamicEngine
import Msrt.DynamicBackoff
import Msrt.NoStranding
import Msrt.KeepAlive
import Msrt.DrainOrder
import Msrt.SilentPeer
import Msrt.PingTimer
import Msrt.Connection
import Msrt.PeerLink
import Msrt.ReceiveRoom
import Msrt.RecoveryRound
import Msrt.Reconnect
import Msrt.MachineIntegrity
import Msrt.MachineCodec
import Msrt.MachineDecoder
import Msrt.MachineQueues
import Msrt.MachineTables
import Msrt.MachineEngine
import Msrt.MachineSending
import Msrt.MachineReceiving
import Msrt.MachinePolling
import Msrt.MachineInvariant
import Msrt.NoPanic
import Msrt.Fragmentation
import Msrt.AckTracker
import Msrt.InOrder
import Msrt.Transfer
import Msrt.LosslessLink
import Msrt.IdleConnection
import Msrt.FirstTransmissions
import Msrt.LogOnce
import Msrt.NoisyLink

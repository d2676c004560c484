import VeyraCam.Crypto.KeyExchange
import VeyraCam.Crypto.Mbedtls
import VeyraCam.Crypto.SessionCrypto
import VeyraCam.Desktop.Commands
import VeyraCam.Desktop.ControlLine
import VeyraCam.Desktop.FlatObject
import VeyraCam.Desktop.FramePath
import VeyraCam.Desktop.LockUse
import VeyraCam.Desktop.MediaGate
import VeyraCam.Desktop.Pairing
import VeyraCam.Desktop.ReadLoop
import VeyraCam.Desktop.Reconnect
import VeyraCam.Desktop.ServiceManager
import VeyraCam.Desktop.SessionController
import VeyraCam.Desktop.TcpControlClient
import VeyraCam.Desktop.UdpServer
import VeyraCam.Library.AttemptLimit
import VeyraCam.Library.Base64
import VeyraCam.Library.BinaryFloat
import VeyraCam.Library.Blocks
import VeyraCam.Library.CircularWindow
import VeyraCam.Library.FirstLeast
import VeyraCam.Library.JsonText
import VeyraCam.Library.LineScanner
import VeyraCam.Library.LittleEndian
import VeyraCam.Library.LockOrder
import VeyraCam.Library.Machine
import VeyraCam.Library.OrderedMap
import VeyraCam.Library.ReplayWindow
import VeyraCam.Library.SlidingWindow
import VeyraCam.Link.Agreement
import VeyraCam.Link.ByteLink
import VeyraCam.Link.Challenge
import VeyraCam.Link.CommandLines
import VeyraCam.Link.CommandsIssued
import VeyraCam.Link.ControlLink
import VeyraCam.Link.Decoded
import VeyraCam.Link.Delivery
import VeyraCam.Link.Handling
import VeyraCam.Link.JsonObject
import VeyraCam.Link.LineText
import VeyraCam.Link.Lines
import VeyraCam.Link.Media
import VeyraCam.Link.MediaKeys
import VeyraCam.Link.Phase
import VeyraCam.Link.SessionId
import VeyraCam.Link.TokenRoundTrip
import VeyraCam.Memory.MemoryPool
import VeyraCam.Memory.RingBuffer
import VeyraCam.Memory.RingThreads
import VeyraCam.Packet.Assembly
import VeyraCam.Packet.Audio
import VeyraCam.Packet.Bookkeeping
import VeyraCam.Packet.Foreign
import VeyraCam.Packet.Holes
import VeyraCam.Packet.Injection
import VeyraCam.Packet.LostKeyframe
import VeyraCam.Packet.Nonces
import VeyraCam.Packet.Packetizer
import VeyraCam.Packet.Provenance
import VeyraCam.Packet.Rearm
import VeyraCam.Packet.Reassembler
import VeyraCam.Packet.Receiver
import VeyraCam.Packet.Reception
import VeyraCam.Packet.Recovery
import VeyraCam.Packet.ReplayFilter
import VeyraCam.Packet.RoundTrip
import VeyraCam.Packet.SerialOrder
import VeyraCam.Packet.Transmission
import VeyraCam.Packet.Wire
import VeyraCam.Phone.AppAtRest
import VeyraCam.Phone.AppProgress
import VeyraCam.Phone.AppStarts
import VeyraCam.Phone.AppTimeline
import VeyraCam.Phone.Camera2Controller
import VeyraCam.Phone.CameraApp
import VeyraCam.Phone.CommandGate
import VeyraCam.Phone.Destination
import VeyraCam.Phone.HalfPaired
import VeyraCam.Phone.Lockout
import VeyraCam.Phone.LockoutExit
import VeyraCam.Phone.NativeSender
import VeyraCam.Phone.NativeSenderContext
import VeyraCam.Phone.NativeUse
import VeyraCam.Phone.PairingManager
import VeyraCam.Phone.Sealing
import VeyraCam.Phone.StreamingService
import VeyraCam.Phone.ThermalBitrate
import VeyraCam.Phone.ThermalController
import VeyraCam.Phone.UdpTransport
import VeyraCam.Protocol.Bytes
import VeyraCam.Protocol.Header
import VeyraCam.Protocol.Json
import VeyraCam.Protocol.JsonReading
import VeyraCam.Session.ArrivalOrder
import VeyraCam.Session.Backpressure
import VeyraCam.Session.BufferLedger
import VeyraCam.Session.Coherence
import VeyraCam.Session.Duplex
import VeyraCam.Session.Indistinct
import VeyraCam.Session.JitterBuffer
import VeyraCam.Session.Playback
import VeyraCam.Session.Playout
import VeyraCam.Session.Restart
import VeyraCam.Session.Streaming
import VeyraCam.Session.VeyraSession
import VeyraCam.Telemetry.Bitrate
import VeyraCam.Telemetry.Collector
import VeyraCam.Telemetry.Decoding
import VeyraCam.Telemetry.Stats
import VeyraCam.Transport.Active
import VeyraCam.Transport.Handoff
import VeyraCam.Transport.Manager
import VeyraCam.Transport.Pinned
import VeyraCam.Transport.Transport

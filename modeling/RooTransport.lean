import RooTransport.Base.Serial
import RooTransport.Base.Run
import RooTransport.Base.Span
import RooTransport.Base.Fifo
import RooTransport.Base.Varint
import RooTransport.Base.Framing
import RooTransport.Base.Tinyframe
import RooTransport.Base.Circular
import RooTransport.Base.Bell
import RooTransport.Link.RingBuffer
import RooTransport.Link.Packet
import RooTransport.Link.RetryBackoff
import RooTransport.Link.Receiver
import RooTransport.Link.Transmitter
import RooTransport.Link.ReceiverSpec
import RooTransport.Link.ReceiverRead
import RooTransport.Link.ReceiverWindow
import RooTransport.Link.ReceiverChecks
import RooTransport.Link.ReceiverIsolation
import RooTransport.Link.ThreadSafeReceiver
import RooTransport.Link.ReceiverStream
import RooTransport.Link.TransmitterSpec
import RooTransport.Link.TransmitterHeader
import RooTransport.Link.TransmitterChecks
import RooTransport.Link.SendWindow
import RooTransport.Link.AvailableForWrite
import RooTransport.Link.TransmitterOrder
import RooTransport.Link.SendSchedule
import RooTransport.Link.TransmitterQueue
import RooTransport.Link.TransmitterStream
import RooTransport.Link.FirstTransmissions
import RooTransport.Link.ThreadSafeTransmitter
import RooTransport.Link.TransmitterWakeUps
import RooTransport.Link.LinkStream
import RooTransport.Link.ControlBit
import RooTransport.Link.Channel
import RooTransport.Link.ChannelChecks
import RooTransport.Link.DisconnectCallbacks
import RooTransport.Link.Handshake
import RooTransport.Link.CrossTalk
import RooTransport.Link.Pair
import RooTransport.Link.PairAcks
import RooTransport.Link.AckRoundTrip
import RooTransport.Link.PairCredit
import RooTransport.Link.Wire
import RooTransport.Link.Reconstruction
import RooTransport.Link.StreamEnds
import RooTransport.Link.Lane
import RooTransport.Link.LaneProgress
import RooTransport.Link.ChannelLanes
import RooTransport.Link.Duplex
import RooTransport.Link.DuplexProgress
import RooTransport.Link.OutgoingData
import RooTransport.Link.SenderThread
import RooTransport.Link.SenderDelay
import RooTransport.Packets.PacketReceiverOverStream
import RooTransport.Packets.Reception
import RooTransport.Packets.PacketSenderOverStream
import RooTransport.Packets.FrameRoundTrip
import RooTransport.Packets.ReceiveAvailable
import RooTransport.Pico.DmaTransmit
import RooTransport.Pico.DmaReceive
import RooTransport.Messaging.LinkMessaging
import RooTransport.Messaging.LinkMessagingEnd
import RooTransport.Messaging.LossyLink
import RooTransport.Messaging.LossySending
import RooTransport.Messaging.Delivery
import RooTransport.Rpc.Header
import RooTransport.Rpc.HeaderCodec
import RooTransport.Rpc.Client
import RooTransport.Rpc.ClientRegistry
import RooTransport.Rpc.ClientCallbacks
import RooTransport.Rpc.Server
import RooTransport.Rpc.ServerResponses
import RooTransport.Rpc.Serialization
import RooTransport.Rpc.SerializationRoundTrip
import RooTransport.Rpc.UnaryStub
import RooTransport.Rpc.UnaryHandler
import RooTransport.Rpc.ServerHandles
import RooTransport.Rpc.EndpointChecks

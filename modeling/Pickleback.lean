import Pickleback.AckDelivery
import Pickleback.AckInbox
import Pickleback.AckLedger
import Pickleback.BufferCount
import Pickleback.ClientSessions
import Pickleback.ComposeBound
import Pickleback.DeliveryOrder
import Pickleback.Farewell
import Pickleback.FragmentAcks
import Pickleback.FragmentSizes
import Pickleback.Freshness
import Pickleback.Handshake
import Pickleback.Isolation
import Pickleback.KeepAlive
import Pickleback.MessageIds
import Pickleback.MessageWire
import Pickleback.PacketDedup
import Pickleback.PacketIds
import Pickleback.PacketWire
import Pickleback.FirstPacket
import Pickleback.PayloadIntegrity
import Pickleback.PayloadLength
import Pickleback.Reassembly
import Pickleback.Reading
import Pickleback.ReceiveSafety
import Pickleback.Reconnection
import Pickleback.SeenWindow
import Pickleback.ServerEvents
import Pickleback.Settlement
import Pickleback.Watermark

import Masque.Library.Outcome
import Masque.Library.Blame
import Masque.Library.Mealy
import Masque.Library.WriteOnce
import Masque.Library.Framing
import Masque.Library.Blank
import Masque.Library.BigEndian
import Masque.Library.TaggedInt
import Masque.Library.SocketAddr
import Masque.Library.Scan
import Masque.Library.Utf8
import Masque.Library.Str
import Masque.Library.Percent
import Masque.Library.PercentNormal
import Masque.Library.Base64
import Masque.Error
import Masque.Config
import Masque.QuicVarint
import Masque.Capsule
import Masque.QuicVarint.EntryPoints
import Masque.Capsule.Codec
import Masque.Capsule.PrefixDecoder
import Masque.Capsule.InPlace
import Masque.Capsule.Parser
import Masque.Capsule.Reference
import Masque.Capsule.Simulation
import Masque.Capsule.ParserRuns
import Masque.Capsule.Work
import Masque.Capsule.KnownCapsules
import Masque.Capsule.StreamReader
import Masque.Capsule.Limits
import Masque.Capsule.Blind
import Masque.HttpDatagram
import Masque.HttpDatagram.Codec
import Masque.DatagramCapsule
import Masque.DatagramCapsule.Codec
import Masque.DatagramCapsule.Forwarding
import Masque.Session
import Masque.Association
import Masque.Association.Framing
import Masque.Association.Delivery
import Masque.Association.Secrecy
import Masque.Association.Faults
import Masque.Session.Negotiation
import Masque.Session.Recording
import Masque.Association.Socket
import Masque.CapsuleProtocol
import Masque.CapsuleProtocol.Base64
import Masque.CapsuleProtocol.Grammar
import Masque.CapsuleProtocol.Acceptance
import Masque.Tunnel
import Masque.Tunnel.Actions
import Masque.Tunnel.Delivery
import Masque.Tunnel.Connection
import Masque.Client
import Masque.ConnectUdp
import Masque.ConnectUdp.PercentCoding
import Masque.ConnectUdp.Hosts
import Masque.ConnectUdp.Authority
import Masque.ConnectUdp.QueryValues
import Masque.ConnectUdp.Paths
import Masque.ConnectUdp.Query
import Masque.ConnectUdp.Uri
import Masque.ConnectUdp.Validity
import Masque.ConnectUdp.RoundTrip
import Masque.ConnectUdp.Faults
import Masque.ConnectUdp.Generation
import Masque.Panics

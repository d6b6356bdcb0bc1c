import Masque.Library.Outcome

/-!
# Errors

The error type of the crate, with the variants the modelled functions return. A `Result`
is an `Outcome`, so that a panic is a third possibility beside `Ok` and `Err`.
-/

namespace Masque

/-- The kind of variable-length integer failure. -/
inductive VarIntErrorKind where
  | emptyBuffer
  | bufferTooShort
  | offsetOutOfBounds
  | valueTooLarge
  deriving DecidableEq, Repr

/-- The kind of HTTP/3 datagram or Capsule Protocol error. -/
inductive H3DatagramErrorKind where
  | generic
  | invalidVarint
  | varintOutOfRange
  | lengthTooLarge
  | lengthOverflow
  | truncated
  | unexpectedCapsuleType
  | notNegotiated
  | mismatchedStreamId
  | invalidContextId
  | payloadTooLarge
  deriving DecidableEq, Repr

/-- The phase of the transport stack in which a call failed. -/
inductive TransportKind where
  | endpointCreation
  | connect
  | quicHandshake
  | h3Handshake
  | requestAccept
  | driverClosed
  | close
  | other
  | udpBind
  | udpConnect
  | udpSend
  | udpRecv
  | udpLocalAddr
  deriving DecidableEq, Repr

/-- Errors of the crate. The `source` of a transport error is an operating-system error
and does not take part in comparisons; it is left out. -/
inductive Error where
  | invalidConfig (field message : String)
  | invalidVarInt (kind : VarIntErrorKind) (message : String)
  | invalidConnectUdpRequest (field message : String)
  | invalidAssociationId (value max : UInt64)
  | transport (kind : TransportKind) (message : String)
  | h3DatagramSetting (setting value : UInt64)
  | h3SettingsConflict (setting previous received : UInt64)
  | capsuleProtocolConflict (previous received : Bool)
  | h3DatagramError (kind : H3DatagramErrorKind) (message : String) (source : Option Error)
  deriving Repr

/-- `Result<T>`. -/
abbrev Result (α : Type) := Outcome Error α

namespace Error

/-- `Error::h3_datagram_error`. -/
def h3Datagram (kind : H3DatagramErrorKind) (message : String) : Error :=
  .h3DatagramError kind message none

/-- `Error::h3_datagram_error_with_source`. -/
def h3DatagramWithSource (kind : H3DatagramErrorKind) (message : String) (source : Error) :
    Error :=
  .h3DatagramError kind message (some source)

/-- The field that a request error blames. -/
def requestField : Error → Option String
  | .invalidConnectUdpRequest field _ => some field
  | _ => none

/-- The kind of a datagram or capsule error. -/
def datagramKind : Error → Option H3DatagramErrorKind
  | .h3DatagramError kind _ _ => some kind
  | _ => none

@[simp] theorem datagramKind_h3Datagram (kind : H3DatagramErrorKind) (message : String) :
    (h3Datagram kind message).datagramKind = some kind := rfl

@[simp] theorem datagramKind_h3DatagramWithSource (kind : H3DatagramErrorKind)
    (message : String) (source : Error) :
    (h3DatagramWithSource kind message source).datagramKind = some kind := rfl

end Error

end Masque

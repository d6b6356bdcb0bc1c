import Masque.Error
import Masque.Library.Mealy

/-!
# Sessions

The negotiation state of `types.rs`, with the setting values of `settings.rs`. A mutating
method is its result together with the session it leaves, and `Session.machine` answers
the four of them.
-/

namespace Masque

open Outcome

/-- `SETTINGS_H3_DATAGRAM`. -/
def settingsH3Datagram : UInt64 := 0x33

/-- A validated value of the `SETTINGS_H3_DATAGRAM` setting. -/
structure H3DatagramSettingValue where
  get : UInt64
  get_eq : get = 0 ∨ get = 1
  deriving DecidableEq

namespace H3DatagramSettingValue

def disabled : H3DatagramSettingValue := ⟨0, .inl rfl⟩

def enabled : H3DatagramSettingValue := ⟨1, .inr rfl⟩

def new (value : UInt64) : Result H3DatagramSettingValue :=
  if h : value = 0 ∨ value = 1 then .ok ⟨value, h⟩
  else .err (.h3DatagramSetting settingsH3Datagram value)

def isEnabled (v : H3DatagramSettingValue) : Bool := v.get == 1

end H3DatagramSettingValue

def validateH3DatagramSettingValue (value : UInt64) : Result Unit := do
  let _ ← H3DatagramSettingValue.new value
  return ()

/-- A MASQUE target protocol. -/
inductive Protocol where
  | connectUdp
  | connectIp
  | connectEthernet
  deriving DecidableEq, Repr

/-- The carrier of the UDP payloads of an association. -/
inductive UdpCarrier where
  | h3Datagram
  | datagramCapsule
  deriving DecidableEq, Repr

/-- Negotiated capabilities, each direction's value recorded at most once. -/
structure NegotiatedCaps where
  localH3Datagram : Option H3DatagramSettingValue
  peerH3Datagram : Option H3DatagramSettingValue
  localCapsuleProtocol : Option Bool
  peerCapsuleProtocol : Option Bool
  deriving DecidableEq

/-- The context of one MASQUE request. -/
structure Session where
  protocol : Protocol
  caps : NegotiatedCaps
  deriving DecidableEq

namespace Session

def new (protocol : Protocol) : Session where
  protocol
  caps := {
    localH3Datagram := none
    peerH3Datagram := none
    localCapsuleProtocol := none
    peerCapsuleProtocol := none }

def isH3DatagramEnabled (s : Session) : Bool :=
  match s.caps.localH3Datagram, s.caps.peerH3Datagram with
  | some own, some peer => own.isEnabled && peer.isEnabled
  | _, _ => false

/-- Record a value in an empty slot; a slot that holds one already is a conflict. -/
def recordOnce {α : Type} (s : Session) (slot : Option α) (conflict : α → Error)
    (recorded : Session) : Result Unit × Session :=
  match slot with
  | some previous => (.err (conflict previous), s)
  | none => (.ok (), recorded)

def setLocalH3Datagram (s : Session) (value : H3DatagramSettingValue) : Result Unit × Session :=
  s.recordOnce s.caps.localH3Datagram
    (fun previous => .h3SettingsConflict settingsH3Datagram previous.get value.get)
    { s with caps.localH3Datagram := some value }

def negotiatePeerH3Datagram (s : Session) (value : H3DatagramSettingValue) :
    Result Unit × Session :=
  s.recordOnce s.caps.peerH3Datagram
    (fun previous => .h3SettingsConflict settingsH3Datagram previous.get value.get)
    { s with caps.peerH3Datagram := some value }

def setLocalCapsuleProtocol (s : Session) (enabled : Bool) : Result Unit × Session :=
  s.recordOnce s.caps.localCapsuleProtocol
    (fun previous => .capsuleProtocolConflict previous enabled)
    { s with caps.localCapsuleProtocol := some enabled }

def negotiatePeerCapsuleProtocol (s : Session) (enabled : Bool) : Result Unit × Session :=
  s.recordOnce s.caps.peerCapsuleProtocol
    (fun previous => .capsuleProtocolConflict previous enabled)
    { s with caps.peerCapsuleProtocol := some enabled }

def isDatagramCapsuleEnabled (s : Session) : Bool :=
  let h3Finalized := s.caps.localH3Datagram.isSome && s.caps.peerH3Datagram.isSome
  h3Finalized && !s.isH3DatagramEnabled &&
    match s.caps.localCapsuleProtocol, s.caps.peerCapsuleProtocol with
    | some true, some true => true
    | _, _ => false

def selectUdpCarrier (s : Session) : Result UdpCarrier :=
  if s.protocol ≠ .connectUdp then
    .err (.invalidConfig "protocol" "UDP carrier selection requires Protocol::ConnectUdp")
  else if s.isH3DatagramEnabled then
    .ok .h3Datagram
  else if s.isDatagramCapsuleEnabled then
    .ok .datagramCapsule
  else
    .err (.h3Datagram .notNegotiated "no UDP transport carrier is negotiated for this session")

/-- The calls that may change a session. -/
inductive Call where
  | setLocalH3Datagram (value : H3DatagramSettingValue)
  | negotiatePeerH3Datagram (value : H3DatagramSettingValue)
  | setLocalCapsuleProtocol (enabled : Bool)
  | negotiatePeerCapsuleProtocol (enabled : Bool)
  deriving DecidableEq

/-- A session as a machine that answers calls. -/
def machine : Mealy Session Call (Result Unit) where
  step s
    | .setLocalH3Datagram value => s.setLocalH3Datagram value
    | .negotiatePeerH3Datagram value => s.negotiatePeerH3Datagram value
    | .setLocalCapsuleProtocol enabled => s.setLocalCapsuleProtocol enabled
    | .negotiatePeerCapsuleProtocol enabled => s.negotiatePeerCapsuleProtocol enabled

end Session

end Masque

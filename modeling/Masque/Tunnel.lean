import Masque.Association.Delivery
import Masque.CapsuleProtocol
import Masque.Session.Negotiation

/-!
# The tunnel of one request

Two ends of a CONNECT-UDP request over one connection. Each records settings and headers,
opens its association with what it has recorded by then, sends payloads on the carrier that
this selects and receives what arrives. The transport keeps the bytes of the request stream
in order and delivers them in any pieces; HTTP/3 Datagrams it loses, repeats and reorders.
-/

namespace Masque

open Outcome

/-- One end of a request: its session, association and parser, what it has handed to the
transport, and how much of the other end's stream has reached it. The payloads sent and the
outcomes received, by carrier, are kept for the statements. -/
structure TunnelEnd where
  session : Session
  association : Option UdpAssociation
  parser : CapsuleParser
  stream : List UInt8
  frames : List (List UInt8)
  delivered : ℕ
  sent : UdpCarrier → List (List UInt8)
  received : UdpCarrier → List (Result (List UInt8))

/-- What an end may do next; the transport chooses what arrives. -/
inductive TunnelAction where
  | setLocalH3Datagram (value : H3DatagramSettingValue)
  | receiveSettings
  | setLocalCapsuleProtocol (enabled : Bool)
  | receiveHeader
  | bind (os : Sockets) (loc target : SocketAddr) (id : AssociationId)
  | send (payload : List UInt8)
  | sendForeign (capsuleType : CapsuleType) (value : List UInt8)
  | receiveBytes (count : ℕ)
  | receiveFrame (i : ℕ)

namespace TunnelEnd

open CapsuleParser CapsuleProtocol

def new : TunnelEnd where
  session := .new .connectUdp
  association := none
  parser := .new
  stream := []
  frames := []
  delivered := 0
  sent := fun _ => []
  received := fun _ => []

/-- A call on the session. -/
def call (e : TunnelEnd) (c : Session.Call) : Result TunnelEnd := do
  let (result, session) := Session.machine.step e.session c
  result
  return { e with session }

/-- The SETTINGS of the other end, once it has sent them. -/
def receiveSettings (e other : TunnelEnd) : Result TunnelEnd :=
  match other.session.caps.localH3Datagram with
  | none => .ok e
  | some sent => do
    let value ← H3DatagramSettingValue.new sent.get
    e.call (.negotiatePeerH3Datagram value)

/-- The Capsule-Protocol header of the other end; one that cannot be parsed is ignored. -/
def receiveHeader (e other : TunnelEnd) : Result TunnelEnd :=
  match other.session.caps.localCapsuleProtocol with
  | none => .ok e
  | some sent =>
    match parseCapsuleProtocol (serializeCapsuleProtocol sent) with
    | .ok enabled => e.call (.negotiatePeerCapsuleProtocol enabled)
    | .err _ => .ok e
    | .panic => .panic

/-- The association is opened once, at any time, with a copy of the session as it is then. -/
def bind (streamId : UInt64) (e : TunnelEnd) (os : Sockets) (loc target : SocketAddr)
    (id : AssociationId) : Result TunnelEnd :=
  match e.association with
  | some _ => .ok e
  | none => do
    let association ← UdpAssociation.bind os loc target e.session id streamId
    return { e with association := some association }

/-- Log one more payload as sent. -/
def logSent (e : TunnelEnd) (k : UdpCarrier) (payload : List UInt8) : TunnelEnd :=
  { e with sent := Function.update e.sent k (e.sent k ++ [payload]) }

theorem sent_logSent_self (e : TunnelEnd) (k : UdpCarrier) (p : List UInt8) :
    (e.logSent k p).sent k = e.sent k ++ [p] := Function.update_self _ _ _

theorem mem_sent_logSent {e : TunnelEnd} {k j : UdpCarrier} {p q : List UInt8} :
    q ∈ (e.logSent k p).sent j ↔ q ∈ e.sent j ∨ j = k ∧ q = p := by
  by_cases h : j = k
  · subst h
    simp [logSent]
  · simp [logSent, h]

/-- A payload goes out on the carrier of the association, if that has one. -/
def send (e : TunnelEnd) (payload : List UInt8) : Result TunnelEnd :=
  match e.association with
  | none => .ok e
  | some a => do
    let carrier ← a.session.selectUdpCarrier
    match carrier with
    | .h3Datagram => do
      let datagram ← a.encodeH3Datagram payload
      let frame ← datagram.encodeH3
      return { e with frames := e.frames ++ [frame] }.logSent .h3Datagram payload
    | .datagramCapsule => do
      let capsule ← a.encodeDatagramCapsule payload
      let (result, stream) := capsule.encodeInto e.stream
      result
      return { e with stream }.logSent .datagramCapsule payload

/-- A capsule of another type goes out on the stream. -/
def sendForeign (e : TunnelEnd) (capsuleType : CapsuleType) (value : List UInt8) :
    Result TunnelEnd :=
  if capsuleType.isUnknown then do
    let capsule ← Capsule.new capsuleType value
    let bytes ← capsule.encode
    return { e with stream := e.stream ++ bytes }
  else .ok e

/-- Log more outcomes as received. -/
def logReceived (e : TunnelEnd) (k : UdpCarrier) (results : List (Result (List UInt8))) :
    TunnelEnd :=
  { e with received := Function.update e.received k (e.received k ++ results) }

theorem received_logReceived_self (e : TunnelEnd) (k : UdpCarrier)
    (results : List (Result (List UInt8))) :
    (e.logReceived k results).received k = e.received k ++ results := Function.update_self _ _ _

theorem received_logReceived_of_ne {e : TunnelEnd} {k j : UdpCarrier} (h : j ≠ k)
    (results : List (Result (List UInt8))) :
    (e.logReceived k results).received j = e.received j := Function.update_of_ne h _ _

/-- The next bytes of the other end's stream arrive, and every capsule they complete is
received. -/
def receiveBytes (e other : TunnelEnd) (count : ℕ) : Result TunnelEnd :=
  match e.association with
  | none => .ok e
  | some a => do
    let chunk := (other.stream.drop e.delivered).take count
    let (known, parser) := e.parser.feedChunk chunk
    let known ← known
    return { e with parser, delivered := e.delivered + chunk.length }.logReceived
      .datagramCapsule (known.map a.receiveCapsule)

/-- One of the HTTP/3 Datagrams that the other end has sent arrives. -/
def receiveFrame (e other : TunnelEnd) (i : ℕ) : Result TunnelEnd :=
  match e.association, other.frames[i]? with
  | some a, some frame =>
    .ok (e.logReceived .h3Datagram [HttpDatagram.decodeH3 frame >>= a.decodeH3Datagram])
  | _, _ => .ok e

def act (streamId : UInt64) (e other : TunnelEnd) : TunnelAction → Result TunnelEnd
  | .setLocalH3Datagram value => e.call (.setLocalH3Datagram value)
  | .receiveSettings => e.receiveSettings other
  | .setLocalCapsuleProtocol enabled => e.call (.setLocalCapsuleProtocol enabled)
  | .receiveHeader => e.receiveHeader other
  | .bind os loc target id => e.bind streamId os loc target id
  | .send payload => e.send payload
  | .sendForeign capsuleType value => e.sendForeign capsuleType value
  | .receiveBytes count => e.receiveBytes other count
  | .receiveFrame i => e.receiveFrame other i

end TunnelEnd

/-- The two ends of a request. -/
abbrev Tunnel := Side → TunnelEnd

namespace Tunnel

def fresh : Tunnel := fun _ => .new

/-- One end acts at a time; an action that is answered with an error changes nothing. -/
def machine (streamId : UInt64) : Mealy Tunnel (Side × TunnelAction) (Result Unit) where
  step t i :=
    match (t i.1).act streamId (t i.1.other) i.2 with
    | .ok e => (.ok (), Function.update t i.1 e)
    | .err error => (.err error, t)
    | .panic => (.panic, t)

end Tunnel

end Masque

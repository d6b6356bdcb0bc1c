import Masque.DatagramCapsule
import Masque.Library.SocketAddr
import Masque.Session

/-!
# UDP associations

The associations of `association.rs`. Each of the two carriers has an encoder and a decoder
of its own, as in the source; `send` and `receive` are what the copies share, and the
`_eq` lemmas say so.
-/

namespace Masque

open Outcome

/-- An association identifier: a value that fits in a varint. -/
structure AssociationId where
  value : UInt64
  value_le : value ≤ QuicVarint.maxVarint

def AssociationId.new (value : UInt64) : Result AssociationId :=
  if h : QuicVarint.maxVarint < value then
    .err (.invalidAssociationId value QuicVarint.maxVarint)
  else
    .ok ⟨value, UInt64.not_lt.mp h⟩

/-- `MAX_UDP_PAYLOAD_IPV4`. -/
def maxUdpPayloadIpv4 : ℕ := 65507

/-- `MAX_UDP_PAYLOAD_IPV6`. -/
def maxUdpPayloadIpv6 : ℕ := 65527

def maxPayloadForAddr : SocketAddr → ℕ
  | .v4 _ _ => maxUdpPayloadIpv4
  | .v6 _ _ _ _ => maxUdpPayloadIpv6

theorem maxPayloadForAddr_of_sameFamily {s t : SocketAddr} (h : s.SameFamily t) :
    maxPayloadForAddr s = maxPayloadForAddr t := by
  cases s <;> cases t <;> first | rfl | exact h.elim

theorem maxPayloadForAddr_le (s : SocketAddr) : maxPayloadForAddr s ≤ 65527 := by
  cases s with
  | v4 ip port => exact Nat.le_of_lt (by decide : 65507 < 65527)
  | v6 ip port flowinfo scopeId => exact le_rfl

/-- A bound association. The socket itself is left out. -/
structure UdpAssociation where
  target : SocketAddr
  session : Session
  id : AssociationId
  streamId : UInt64
  connectUdp : session.protocol = .connectUdp
  valid : ValidStreamId streamId

/-- The answers of the operating system to binding and connecting a socket. -/
structure Sockets where
  bind : SocketAddr → Bool
  connect : SocketAddr → SocketAddr → Bool

namespace UdpAssociation

def bind (os : Sockets) (loc target : SocketAddr) (session : Session) (id : AssociationId)
    (streamId : UInt64) : Result UdpAssociation :=
  if hprotocol : session.protocol ≠ .connectUdp then
    .err (.invalidConfig "session" "protocol must be connect-udp")
  else if hmax : QuicVarint.maxVarint < streamId then
    .err (.invalidConfig "stream_id"
      s!"stream ID {streamId} exceeds the maximum QUIC stream ID")
  else if hmod : streamId % 4 ≠ 0 then
    .err (.invalidConfig "stream_id"
      s!"stream ID {streamId} is not a client-initiated bidirectional stream ID")
  else if os.bind loc = false then
    .err (.transport .udpBind "failed to bind UDP socket")
  else if os.connect loc target = false then
    .err (.transport .udpConnect "failed to connect UDP socket")
  else
    .ok {
      target, session, id, streamId
      connectUdp := not_not.mp hprotocol
      valid := .of_checks hmax hmod }

/-- What `bind` accepts, it hands on unchanged. -/
theorem fields_of_bind {os : Sockets} {loc target : SocketAddr} {session : Session}
    {id : AssociationId} {streamId : UInt64} {a : UdpAssociation}
    (h : bind os loc target session id streamId = .ok a) :
    a.target = target ∧ a.session = session ∧ a.id = id ∧ a.streamId = streamId := by
  unfold bind at h
  split_ifs at h
  obtain rfl := ok.inj h
  exact ⟨rfl, rfl, rfl, rfl⟩

variable (a : UdpAssociation)

def ensureH3DatagramsEnabled : Result Unit :=
  if a.session.isH3DatagramEnabled = false then
    .err (.h3Datagram .notNegotiated "HTTP/3 Datagrams are not negotiated for this association")
  else
    .ok ()

def ensureDatagramCapsuleEnabled : Result Unit :=
  if a.session.isDatagramCapsuleEnabled = false then
    .err (.h3Datagram .notNegotiated
      "DATAGRAM capsules are not enabled or selected for this association")
  else
    .ok ()

/-- The text about a payload of length `len` above the limit of the target. -/
def limitMessage (what : String) (len : ℕ) : String :=
  s!"{what} length {len} exceeds maximum UDP payload size {maxPayloadForAddr a.target} for " ++
    s!"{a.target.ip}"

def encodeH3Datagram (payload : List UInt8) : Result HttpDatagram := do
  a.ensureH3DatagramsEnabled
  let max := maxPayloadForAddr a.target
  if max < payload.length then
    .err (.invalidConfig "payload" (a.limitMessage "payload" payload.length))
  else
    let framed := 0x00 :: payload
    HttpDatagram.new a.streamId framed

def decodeH3Datagram (datagram : HttpDatagram) : Result (List UInt8) := do
  a.ensureH3DatagramsEnabled
  if datagram.streamId ≠ a.streamId then
    .err (.h3Datagram .mismatchedStreamId
      "datagram is not addressed to this association's request stream")
  else
    let payload := datagram.payload
    let (contextId, consumed) ← (QuicVarint.decode payload).mapErr
      (.h3DatagramWithSource .invalidContextId "failed to decode CONNECT-UDP Context ID")
    if contextId ≠ 0 then
      .err (.h3Datagram .invalidContextId
        s!"unsupported CONNECT-UDP Context ID {contextId}, expected 0")
    else if consumed ≠ 1 then
      .err (.h3Datagram .invalidContextId
        "non-canonical Context ID 0 encoding: must use shortest varint form")
    else do
      let udpPayload ← sliceFrom payload consumed
      let max := maxPayloadForAddr a.target
      if max < udpPayload.length then
        .err (.h3Datagram .payloadTooLarge
          (a.limitMessage "decoded UDP payload" udpPayload.length))
      else
        .ok udpPayload

def encodeDatagramCapsule (payload : List UInt8) : Result DatagramCapsule := do
  a.ensureDatagramCapsuleEnabled
  let max := maxPayloadForAddr a.target
  if max < payload.length then
    .err (.h3Datagram .payloadTooLarge (a.limitMessage "payload" payload.length))
  else do
    let framed := 0x00 :: payload
    let datagram ← HttpDatagram.new a.streamId framed
    return ⟨datagram⟩

def decodeDatagramCapsule (capsule : DatagramCapsule) : Result (List UInt8) := do
  a.ensureDatagramCapsuleEnabled
  let datagram := capsule.datagram
  if datagram.streamId ≠ a.streamId then
    .err (.h3Datagram .mismatchedStreamId
      "datagram capsule is not addressed to this association's request stream")
  else
    let payload := datagram.payload
    let (contextId, consumed) ← (QuicVarint.decode payload).mapErr
      (.h3DatagramWithSource .invalidContextId "failed to decode CONNECT-UDP Context ID")
    if contextId ≠ 0 then
      .err (.h3Datagram .invalidContextId
        s!"unsupported CONNECT-UDP Context ID {contextId}, expected 0")
    else if consumed ≠ 1 then
      .err (.h3Datagram .invalidContextId
        "non-canonical Context ID 0 encoding: must use shortest varint form")
    else do
      let udpPayload ← sliceFrom payload consumed
      let max := maxPayloadForAddr a.target
      if max < udpPayload.length then
        .err (.h3Datagram .payloadTooLarge
          (a.limitMessage "decoded UDP payload" udpPayload.length))
      else
        .ok udpPayload

section Shared

/-- What both encoders do once their carrier is enabled; `tooLarge` wraps the text of the
one error. -/
def send (tooLarge : String → Error) (payload : List UInt8) : Result HttpDatagram :=
  if maxPayloadForAddr a.target < payload.length then
    .err (tooLarge (a.limitMessage "payload" payload.length))
  else
    HttpDatagram.new a.streamId (0x00 :: payload)

/-- What both decoders do once their carrier is enabled; `mismatch` is the text for a
datagram of another stream. -/
def receive (mismatch : String) (datagram : HttpDatagram) : Result (List UInt8) :=
  if datagram.streamId ≠ a.streamId then
    .err (.h3Datagram .mismatchedStreamId mismatch)
  else do
    let (contextId, consumed) ← (QuicVarint.decode datagram.payload).mapErr
      (.h3DatagramWithSource .invalidContextId "failed to decode CONNECT-UDP Context ID")
    if contextId ≠ 0 then
      .err (.h3Datagram .invalidContextId
        s!"unsupported CONNECT-UDP Context ID {contextId}, expected 0")
    else if consumed ≠ 1 then
      .err (.h3Datagram .invalidContextId
        "non-canonical Context ID 0 encoding: must use shortest varint form")
    else do
      let udpPayload ← sliceFrom datagram.payload consumed
      if maxPayloadForAddr a.target < udpPayload.length then
        .err (.h3Datagram .payloadTooLarge
          (a.limitMessage "decoded UDP payload" udpPayload.length))
      else
        .ok udpPayload

variable {a}

theorem encodeH3Datagram_of_enabled (h : a.session.isH3DatagramEnabled = true)
    (p : List UInt8) :
    a.encodeH3Datagram p = a.send (.invalidConfig "payload") p := by
  rw [encodeH3Datagram, ensureH3DatagramsEnabled, if_neg (by simp [h]), ok_bind]
  rfl

theorem encodeDatagramCapsule_of_enabled (h : a.session.isDatagramCapsuleEnabled = true)
    (p : List UInt8) :
    a.encodeDatagramCapsule p =
      DatagramCapsule.mk <$> a.send (.h3Datagram .payloadTooLarge) p := by
  rw [encodeDatagramCapsule, ensureDatagramCapsuleEnabled, if_neg (by simp [h]), ok_bind, send]
  dsimp only
  split_ifs <;> rfl

theorem decodeH3Datagram_of_enabled (h : a.session.isH3DatagramEnabled = true)
    (d : HttpDatagram) :
    a.decodeH3Datagram d =
      a.receive "datagram is not addressed to this association's request stream" d := by
  rw [decodeH3Datagram, ensureH3DatagramsEnabled, if_neg (by simp [h]), ok_bind]
  rfl

theorem decodeDatagramCapsule_of_enabled (h : a.session.isDatagramCapsuleEnabled = true)
    (c : DatagramCapsule) :
    a.decodeDatagramCapsule c =
      a.receive "datagram capsule is not addressed to this association's request stream"
        c.datagram := by
  rw [decodeDatagramCapsule, ensureDatagramCapsuleEnabled, if_neg (by simp [h]), ok_bind]
  rfl

/-- Without HTTP/3 Datagrams their methods refuse everything. -/
theorem refuses_of_not_h3Datagram (h : a.session.isH3DatagramEnabled = false) :
    ∃ e, e.datagramKind = some .notNegotiated ∧ (∀ p, a.encodeH3Datagram p = .err e) ∧
      ∀ d, a.decodeH3Datagram d = .err e := by
  obtain ⟨e, hkind, he⟩ : ∃ e, e.datagramKind = some .notNegotiated ∧
      a.ensureH3DatagramsEnabled = .err e :=
    ⟨.h3Datagram .notNegotiated _, rfl, if_pos h⟩
  refine ⟨e, hkind, fun p => ?_, fun d => ?_⟩
  · rw [encodeH3Datagram, he, err_bind]
  · rw [decodeH3Datagram, he, err_bind]

/-- Without DATAGRAM capsules their methods refuse everything. -/
theorem refuses_of_not_datagramCapsule (h : a.session.isDatagramCapsuleEnabled = false) :
    ∃ e, e.datagramKind = some .notNegotiated ∧ (∀ p, a.encodeDatagramCapsule p = .err e) ∧
      ∀ c, a.decodeDatagramCapsule c = .err e := by
  obtain ⟨e, hkind, he⟩ : ∃ e, e.datagramKind = some .notNegotiated ∧
      a.ensureDatagramCapsuleEnabled = .err e :=
    ⟨.h3Datagram .notNegotiated _, rfl, if_pos h⟩
  refine ⟨e, hkind, fun p => ?_, fun c => ?_⟩
  · rw [encodeDatagramCapsule, he, err_bind]
  · rw [decodeDatagramCapsule, he, err_bind]

end Shared

end UdpAssociation

end Masque

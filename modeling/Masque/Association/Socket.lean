import Masque.Association.Framing
import Masque.Library.Mealy
import Masque.Session.Negotiation

/-!
# The socket of an association

The methods of `association.rs` that use the UDP socket, with the answer of the operating
system to each call as a parameter of the call. `close` takes the socket away; what was
handed to the operating system until then are the payloads within the limit
(`socket_lifecycle`), and these are what can come out of the tunnel.
-/

namespace Masque

open Outcome

/-- `MAX_UDP_PAYLOAD`. -/
def maxUdpPayload : ℕ := maxUdpPayloadIpv6

/-- Errors of the socket methods; `ε` are the errors of the operating system. -/
inductive SocketError (ε : Type) where
  | invalidConfig (field message : String)
  | transport (kind : TransportKind) (message : String) (source : Option ε)

/-- A bound association with its socket, while it has one. -/
structure SocketAssociation where
  association : UdpAssociation
  isOpen : Bool

/-- A call of a socket method, with the answer the operating system has for it. -/
inductive SocketCall (ε : Type) where
  | send (payload : List UInt8) (os : Outcome ε ℕ)
  | recvInto (buf : List UInt8) (os : Outcome ε (List UInt8))
  | recv (os : Outcome ε (List UInt8))
  | localAddr (os : Outcome ε SocketAddr)
  | close

/-- What a socket method returns: a count with the buffer it has filled, a payload, or an
address. -/
inductive SocketValue where
  | count (n : ℕ) (buf : List UInt8)
  | payload (bytes : List UInt8)
  | addr (addr : SocketAddr)
  | closed

/-- The reply to a call: the payload that was handed to the operating system, and what the
method returns. -/
structure SocketReply (ε : Type) where
  request : Option (List UInt8)
  answer : Outcome (SocketError ε) SocketValue

namespace SocketAssociation

variable {ε : Type}

/-- The error of a method that finds no socket. -/
def closedError (kind : TransportKind) : SocketError ε :=
  .transport kind "association is closed" none

/-- The socket of the association, or the error of a closed one. -/
def socket (s : SocketAssociation) (kind : TransportKind) : Outcome (SocketError ε) Unit :=
  if s.isOpen then .ok () else .err (closedError kind)

/-- What `send` checks before it hands the payload to the operating system. -/
def checkSend (s : SocketAssociation) (payload : List UInt8) : Outcome (SocketError ε) Unit := do
  s.socket .udpSend
  let max := maxPayloadForAddr s.association.target
  if max < payload.length then
    .err (.invalidConfig "payload" (s.association.limitMessage "payload" payload.length))
  else
    .ok ()

def send (s : SocketAssociation) (payload : List UInt8) (os : Outcome ε ℕ) : SocketReply ε :=
  match s.checkSend payload with
  | .ok _ =>
    { request := some payload
      answer := do
        let n ← os.mapErr fun e => .transport .udpSend "failed to send UDP datagram" (some e)
        return .count n [] }
  | .err e => ⟨none, .err e⟩
  | .panic => ⟨none, .panic⟩

/-- The datagram that arrives fills the front of the buffer; what does not fit is lost. -/
def recvInto (s : SocketAssociation) (buf : List UInt8) (os : Outcome ε (List UInt8)) :
    Outcome (SocketError ε) (ℕ × List UInt8) := do
  s.socket .udpRecv
  let datagram ← os.mapErr fun e =>
    .transport .udpRecv "failed to receive UDP datagram" (some e)
  let written := datagram.take buf.length
  return (written.length, written ++ buf.drop written.length)

/-- `recv`: a buffer of the largest payload, cut to what was written. -/
def recv (s : SocketAssociation) (os : Outcome ε (List UInt8)) :
    Outcome (SocketError ε) (List UInt8) := do
  let (n, buf) ← s.recvInto (List.replicate maxUdpPayload 0) os
  return buf.take n

def localAddr (s : SocketAssociation) (os : Outcome ε SocketAddr) :
    Outcome (SocketError ε) SocketAddr := do
  s.socket .udpLocalAddr
  os.mapErr fun e => .transport .udpLocalAddr "failed to get local address" (some e)

def close (s : SocketAssociation) : SocketAssociation := { s with isOpen := false }

/-- The socket methods as a machine; only `close` changes the association. -/
def machine : Mealy SocketAssociation (SocketCall ε) (SocketReply ε) where
  step s
    | .send payload os => (s.send payload os, s)
    | .recvInto buf os =>
      (⟨none, (fun r => .count r.1 r.2) <$> s.recvInto buf os⟩, s)
    | .recv os => (⟨none, .payload <$> s.recv os⟩, s)
    | .localAddr os => (⟨none, .addr <$> s.localAddr os⟩, s)
    | .close => (⟨none, .ok .closed⟩, s.close)

/-- The calls before the association is closed. -/
def untilClose (calls : List (SocketCall ε)) : List (SocketCall ε) :=
  calls.takeWhile fun
    | .close => false
    | _ => true

/-- The payload that a call hands to the operating system while there is a socket. -/
def handed (limit : ℕ) : SocketCall ε → Option (List UInt8)
  | .send payload _ => if payload.length ≤ limit then some payload else none
  | _ => none

/-- The reply to a call when there is no socket. -/
def closedReply : SocketCall ε → SocketReply ε
  | .send _ _ => ⟨none, .err (closedError .udpSend)⟩
  | .recvInto _ _ => ⟨none, .err (closedError .udpRecv)⟩
  | .recv _ => ⟨none, .err (closedError .udpRecv)⟩
  | .localAddr _ => ⟨none, .err (closedError .udpLocalAddr)⟩
  | .close => ⟨none, .ok .closed⟩

variable {s : SocketAssociation} {calls : List (SocketCall ε)} {p : List UInt8}

theorem checkSend_of_le (h : s.isOpen = true)
    (hp : p.length ≤ maxPayloadForAddr s.association.target) :
    s.checkSend (ε := ε) p = .ok () := by
  rw [checkSend, socket, if_pos h, ok_bind]
  exact if_neg (Nat.not_lt.mpr hp)

theorem checkSend_of_lt (h : s.isOpen = true)
    (hp : maxPayloadForAddr s.association.target < p.length) :
    s.checkSend (ε := ε) p = .err (.invalidConfig "payload"
      (s.association.limitMessage "payload" p.length)) := by
  rw [checkSend, socket, if_pos h, ok_bind]
  exact if_pos hp

theorem request_send (h : s.isOpen = true) (os : Outcome ε ℕ) :
    (s.send p os).request =
      if p.length ≤ maxPayloadForAddr s.association.target then some p else none := by
  rw [send]
  split_ifs with hp
  · rw [checkSend_of_le h hp]
  · rw [checkSend_of_lt h (Nat.not_le.mp hp)]

/-- A closed association replies so, and stays closed. -/
theorem step_of_closed (h : s.isOpen = false) (call : SocketCall ε) :
    machine.step s call = (closedReply call, s) := by
  obtain ⟨association, isOpen⟩ := s
  obtain rfl : isOpen = false := h
  cases call <;> rfl

theorem outputs_of_closed (h : s.isOpen = false) (calls : List (SocketCall ε)) :
    machine.outputs s calls = calls.map closedReply := by
  induction calls with
  | nil => rfl
  | cons call calls ih => rw [Mealy.outputs_cons, step_of_closed h, List.map_cons, ih]

/-- After a close nothing is handed over. -/
theorem requests_of_closed (calls : List (SocketCall ε)) :
    (calls.map closedReply).filterMap SocketReply.request = [] := by
  rw [List.filterMap_map, List.filterMap_eq_nil_iff]
  intro call _
  cases call <;> rfl

/-- What the operating system is handed are the payloads within the limit, until the close. -/
theorem requests_eq (h : s.isOpen = true) (calls : List (SocketCall ε)) :
    (machine.outputs s calls).filterMap SocketReply.request =
      (untilClose calls).filterMap (handed (maxPayloadForAddr s.association.target)) := by
  induction calls with
  | nil => rfl
  | cons call calls ih =>
    cases call with
    | close =>
      have hclosed : (machine.step s (.close : SocketCall ε)).2.isOpen = false := rfl
      rw [Mealy.outputs_cons, outputs_of_closed hclosed]
      exact requests_of_closed calls
    | send payload os =>
      rw [Mealy.outputs_cons]
      show ((s.send payload os :: machine.outputs s calls)).filterMap _ = List.filterMap _
        (.send payload os :: untilClose calls)
      rw [List.filterMap_cons, List.filterMap_cons, request_send h, ih]
      rfl
    | _ => exact ih

/-- A datagram that fits the buffer is received whole. -/
theorem recv_eq (h : s.isOpen = true) (hp : p.length ≤ maxUdpPayload) :
    s.recv (.ok p : Outcome ε (List UInt8)) = .ok p := by
  have htake : p.take maxUdpPayload = p := List.take_of_length_le hp
  simp only [recv, recvInto, socket, h, if_true, ok_bind, mapErr_ok, List.length_replicate,
    htake, pure_eq, List.take_left]

/-- A message of the tunnel that an association decodes to a payload. -/
def Decodes (a : UdpAssociation) (p : List UInt8) : UdpCarrier → Prop
  | .h3Datagram => ∃ d, a.decodeH3Datagram d = .ok p
  | .datagramCapsule => ∃ c, a.decodeDatagramCapsule c = .ok p

/-- What an association decodes are the payloads within its limit. -/
theorem decodes_iff {a : UdpAssociation} {k : UdpCarrier}
    (hselects : Session.Selects a.session.caps k) :
    Decodes a p k ↔ p.length ≤ maxPayloadForAddr a.target := by
  cases k with
  | h3Datagram =>
    constructor
    · rintro ⟨d, hd⟩
      exact ((UdpAssociation.decodeH3Datagram_eq_ok hselects.gates.1).mp hd).length_le
    · intro hp
      obtain ⟨d, _, hcarries⟩ := UdpAssociation.exists_carries hp
      exact ⟨d, (UdpAssociation.decodeH3Datagram_eq_ok hselects.gates.1).mpr hcarries⟩
  | datagramCapsule =>
    constructor
    · rintro ⟨c, hc⟩
      exact ((UdpAssociation.decodeDatagramCapsule_eq_ok hselects.gates.2).mp hc).length_le
    · intro hp
      obtain ⟨d, _, hcarries⟩ := UdpAssociation.exists_carries hp
      exact ⟨⟨d⟩, (UdpAssociation.decodeDatagramCapsule_eq_ok hselects.gates.2).mpr hcarries⟩

/-- Over all calls the operating system is handed the payloads within the limit that are sent
before the close, in order; after it nothing is handed over, and `send`, `recv_into`, `recv`
and `local_addr` are each refused as their own phase, while another close is none. With a
carrier, the payloads that can be handed over are those that can come out of the tunnel, and
those that arrive within the limit are received whole and can go into it. -/
theorem socket_lifecycle (a : UdpAssociation) (calls : List (SocketCall ε)) :
    (machine.outputs ⟨a, true⟩ calls).filterMap SocketReply.request =
      (untilClose calls).filterMap (handed (maxPayloadForAddr a.target)) ∧
    (∀ front rest, calls = front ++ .close :: rest →
      (machine.outputs ⟨a, true⟩ calls).drop (front.length + 1) = rest.map closedReply) ∧
    ∀ k p, Session.Selects a.session.caps k →
      (Decodes a p k ↔ ∀ os : Outcome ε ℕ, (send ⟨a, true⟩ p os).request = some p) ∧
      (p.length ≤ maxPayloadForAddr a.target →
        recv ⟨a, true⟩ (.ok p : Outcome ε (List UInt8)) = .ok p ∧ Endpoints.Delivers a a p k) := by
  refine ⟨requests_eq rfl calls, ?_, fun k p hselects => ⟨?_, fun hp => ⟨?_, ?_⟩⟩⟩
  · rintro front rest rfl
    have hlength := machine.length_outputs (⟨a, true⟩ : SocketAssociation) (front ++ [.close])
    rw [List.append_cons, Mealy.outputs_append, List.drop_left' (by simpa using hlength)]
    refine outputs_of_closed ?_ rest
    rw [Mealy.after_append]
    rfl
  · rw [decodes_iff hselects]
    constructor
    · intro hp os
      rw [request_send rfl, if_pos hp]
    · intro h
      have hrequest := h .panic
      rw [request_send rfl] at hrequest
      by_contra hp
      rw [if_neg hp] at hrequest
      cases hrequest
  · exact recv_eq rfl (hp.trans (maxPayloadForAddr_le a.target))
  · have hfamily : a.target.SameFamily a.target := by cases a.target <;> trivial
    exact Endpoints.delivers_of_selects hselects hselects rfl hfamily hp

end SocketAssociation

end Masque

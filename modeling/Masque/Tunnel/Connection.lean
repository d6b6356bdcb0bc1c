import Masque.Tunnel.Delivery

/-!
# The requests of one connection

Many requests share the HTTP/3 Datagrams of a connection, told apart by their stream IDs.
Each stream behaves as a tunnel of its own, and a frame of one stream that is handed to the
association of another is refused (`streams_isolated`).
-/

namespace Masque

open Outcome

/-- The tunnels of a connection, by stream ID. -/
abbrev Connection := UInt64 → Tunnel

namespace Connection

open UdpAssociation TunnelEnd

def fresh : Connection := fun _ => .fresh

/-- The requests proceed in any order. -/
def machine : Mealy Connection (UInt64 × Side × TunnelAction) (Result Unit) :=
  Mealy.product Tunnel.machine

/-- What the association of a stream makes of a frame that the other end has sent on some
stream of the connection. -/
def hand (c : Connection) (streamId : UInt64) (side : Side) (origin : UInt64) (i : ℕ) :
    Option (Result (List UInt8)) := do
  let a ← (c streamId side).association
  let frame ← (c origin side.other).frames[i]?
  return HttpDatagram.decodeH3 frame >>= a.decodeH3Datagram

variable {c : Connection} {streamId origin : UInt64} {side : Side} {i : ℕ}
  {a : UdpAssociation} {p : List UInt8}

/-- A frame of another stream is refused, whatever it holds. -/
theorem decode_of_stray {w : TunnelEnd} {frame : List UInt8} (hw : w.Inv origin)
    (hne : origin ≠ a.streamId) (hframe : w.frames[i]? = some frame) :
    ∃ e, (HttpDatagram.decodeH3 frame >>= a.decodeH3Datagram) = .err e ∧
      e.datagramKind = some (if a.session.isH3DatagramEnabled then .mismatchedStreamId
        else .notNegotiated) := by
  obtain ⟨p, _, d, hdecode, hstream, _⟩ := exists_of_forall₂ hw.frames hframe
  rw [hdecode, ok_bind]
  cases henabled : a.session.isH3DatagramEnabled with
  | true =>
    rw [decodeH3Datagram_of_enabled henabled, receive, if_pos (hstream ▸ hne)]
    exact ⟨_, rfl, rfl⟩
  | false =>
    obtain ⟨e, hkind, _, hdecode⟩ := refuses_of_not_h3Datagram henabled
    exact ⟨e, hdecode d, hkind⟩

theorem inv_after (inputs : List (UInt64 × Side × TunnelAction)) (streamId : UInt64) :
    Tunnel.Inv streamId (machine.after fresh inputs streamId) := by
  rw [machine, Mealy.product_after]
  exact Tunnel.inv_after streamId _

/-- The requests of a connection do not touch each other: the tunnel of each stream is where
its own actions alone lead. A frame that is handed to the association of another stream is
refused as one of another stream, or as not negotiated, whatever it holds. One of its own
stream gives the outcome of the payload it was sent for, which is the payload itself if the
association was opened with a carrier and the payload is within the limit of its target. -/
theorem streams_isolated (inputs : List (UInt64 × Side × TunnelAction)) (streamId : UInt64)
    (side : Side) :
    let c := machine.after fresh inputs
    c streamId = (Tunnel.machine streamId).after .fresh (Mealy.inputsOf streamId inputs) ∧
    ∀ a, (c streamId side).association = some a → ∀ origin i p,
      ((c origin side.other).sent .h3Datagram)[i]? = some p →
      (origin = streamId → hand c streamId side origin i = some (a.outcome .h3Datagram p) ∧
        ∀ j, a.session.selectUdpCarrier = .ok j → p.length ≤ maxPayloadForAddr a.target →
          hand c streamId side origin i = some (.ok p)) ∧
      (origin ≠ streamId → ∃ e, hand c streamId side origin i = some (.err e) ∧
        e.datagramKind = some (if a.session.isH3DatagramEnabled then .mismatchedStreamId
          else .notNegotiated)) := by
  refine ⟨Mealy.product_after Tunnel.machine fresh inputs streamId,
    fun a ha origin i p hp => ?_⟩
  have hinv := inv_after inputs streamId
  have horigin := inv_after inputs origin
  obtain ⟨frame, hframe, _⟩ := exists_of_forall₂ (horigin.ends side.other).frames.flip hp
  have hhand : hand (machine.after fresh inputs) streamId side origin i =
      some (HttpDatagram.decodeH3 frame >>= a.decodeH3Datagram) := by
    rw [hand, ha, hframe]
    rfl
  rw [hhand]
  refine ⟨?_, fun hne => ?_⟩
  · rintro rfl
    obtain ⟨q, hq, houtcome⟩ := decode_of_frame (hinv.ends side.other) (hinv.ends side) ha hframe
    obtain rfl : q = p := Option.some.inj (hq.symm.trans hp)
    rw [houtcome]
    refine ⟨rfl, fun j hj hlen => congrArg some ?_⟩
    exact (hinv.outcome_of_sent ha hj (List.mem_of_getElem? hp)).1.mpr hlen
  · obtain ⟨e, he, hkind⟩ := decode_of_stray (horigin.ends side.other)
      (((hinv.ends side).opened a ha).1.symm ▸ hne) hframe
    exact ⟨e, congrArg some he, hkind⟩

end Connection

end Masque

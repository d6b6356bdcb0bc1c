import Masque.Tunnel

/-!
# What the ends of a tunnel do

What an association makes of a framed payload, and what each action can do to an end: an
action that succeeds is one of the cases of `TunnelEnd.Acts`.
-/

namespace Masque

open Outcome Capsule CapsuleParser

namespace UdpAssociation

/-- The gate of a carrier. -/
def ensureEnabled (a : UdpAssociation) : UdpCarrier → Result Unit
  | .h3Datagram => a.ensureH3DatagramsEnabled
  | .datagramCapsule => a.ensureDatagramCapsuleEnabled

/-- What an association makes of a payload that arrives on a carrier: the payload, unless its
own session has the carrier off or the payload is over the limit of its own target. -/
def outcome (a : UdpAssociation) (k : UdpCarrier) (p : List UInt8) : Result (List UInt8) := do
  a.ensureEnabled k
  if maxPayloadForAddr a.target < p.length then
    .err (.h3Datagram .payloadTooLarge (a.limitMessage "decoded UDP payload" p.length))
  else .ok p

end UdpAssociation

/-- The capsule of a payload. -/
def framed (p : List UInt8) : Capsule := ⟨.datagram, 0x00 :: p⟩

section Framed

namespace UdpAssociation

variable {a : UdpAssociation} {d : HttpDatagram} {k : UdpCarrier} {p : List UInt8}

/-- With a carrier, only the limit of the target is left to refuse a payload. -/
theorem outcome_eq_ok (hselects : Session.Selects a.session.caps k) :
    a.outcome k p = .ok p ↔ p.length ≤ maxPayloadForAddr a.target := by
  have hgate : a.ensureEnabled k = .ok () := by
    cases k with
    | h3Datagram =>
      rw [ensureEnabled, ensureH3DatagramsEnabled, hselects.gates.1]
      rfl
    | datagramCapsule =>
      rw [ensureEnabled, ensureDatagramCapsuleEnabled, hselects.gates.2]
      rfl
  rw [outcome, hgate, ok_bind]
  split_ifs with hp
  · refine iff_of_false (fun h => ?_) (Nat.not_le.mpr hp)
    cases h
  · exact iff_of_true rfl (Nat.not_lt.mp hp)

theorem receive_framed (m : String) (hstream : d.streamId = a.streamId)
    (hpayload : d.payload = 0x00 :: p) :
    a.receive m d =
      if maxPayloadForAddr a.target < p.length then
        .err (.h3Datagram .payloadTooLarge (a.limitMessage "decoded UDP payload" p.length))
      else .ok p := by
  have hdecode := decode_eq_zero_one.mpr ⟨p, hpayload⟩
  rw [receive, if_neg (not_not.mpr hstream), hdecode, hpayload]
  simp only [mapErr_ok, ok_bind, ne_eq, not_true_eq_false, if_false, sliceFrom_cons_one]

theorem decodeH3Datagram_framed (hstream : d.streamId = a.streamId)
    (hpayload : d.payload = 0x00 :: p) : a.decodeH3Datagram d = a.outcome .h3Datagram p := by
  rw [decodeH3Datagram, outcome, ensureEnabled]
  cases a.ensureH3DatagramsEnabled with
  | ok u => exact receive_framed _ hstream hpayload
  | err e => rfl
  | panic => rfl

theorem decodeDatagramCapsule_framed {c : DatagramCapsule}
    (hstream : c.datagram.streamId = a.streamId) (hpayload : c.datagram.payload = 0x00 :: p) :
    a.decodeDatagramCapsule c = a.outcome .datagramCapsule p := by
  rw [decodeDatagramCapsule, outcome, ensureEnabled]
  cases a.ensureDatagramCapsuleEnabled with
  | ok u => exact receive_framed _ hstream hpayload
  | err e => rfl
  | panic => rfl

theorem fits_framed (h : p.length ≤ 65527) :
    (framed p).Valid ∧ (framed p).value.length ≤ defaultMaxCapsuleLength := by
  constructor
  · show p.length + 1 < 4611686018427387904
    omega
  · show p.length + 1 ≤ 65536
    omega

theorem receiveCapsule_framed (a : UdpAssociation) (hp : p.length ≤ 65527) :
    a.receiveCapsule (framed p) = a.outcome .datagramCapsule p := by
  have hvalid := (fits_framed hp).1
  have hwire := decode_wire_append hvalid []
  rw [List.append_nil] at hwire
  have hdecode : DatagramCapsule.decode (framed p).wire a.streamId =
      .ok (⟨⟨a.streamId, 0x00 :: p, a.valid⟩⟩, (framed p).wire.length) :=
    DatagramCapsule.decode_eq_ok.mpr ⟨hwire, rfl⟩
  rw [receiveCapsule, encode_eq hvalid, ok_bind, hdecode]
  exact decodeDatagramCapsule_framed rfl rfl

end UdpAssociation

end Framed

namespace TunnelEnd

open Session UdpAssociation

variable {streamId : UInt64} {e e' w w' r other : TunnelEnd}

/-- What an action that succeeds can do to an end. -/
inductive Acts (streamId : UInt64) (e other : TunnelEnd) : TunnelEnd → Prop
  | idle : Acts streamId e other e
  | session {c : Session.Call} {s : Session} (h : Records e.session c s)
      (hpeer : ∀ v, c = .negotiatePeerH3Datagram v →
        other.session.caps.localH3Datagram = some v)
      (hcapsule : ∀ b, c = .negotiatePeerCapsuleProtocol b →
        other.session.caps.localCapsuleProtocol = some b) :
      Acts streamId e other { e with session := s }
  | opens {a : UdpAssociation} (hnone : e.association = none) (hsession : a.session = e.session)
      (hstream : a.streamId = streamId) : Acts streamId e other { e with association := some a }
  | sendsFrame {a : UdpAssociation} {d : HttpDatagram} {p frame : List UInt8}
      (ha : e.association = some a) (hselects : Selects a.session.caps .h3Datagram)
      (hcarries : Carries a d p) (hframe : d.encodeH3 = .ok frame) :
      Acts streamId e other ({ e with frames := e.frames ++ [frame] }.logSent .h3Datagram p)
  | sendsCapsule {a : UdpAssociation} {p : List UInt8} (ha : e.association = some a)
      (hselects : Selects a.session.caps .datagramCapsule)
      (hp : p.length ≤ maxPayloadForAddr a.target) :
      Acts streamId e other
        ({ e with stream := e.stream ++ (framed p).wire }.logSent .datagramCapsule p)
  | sendsForeign {c : Capsule} (hvalid : c.Valid) (hc : c.capsuleType.isDatagram = false) :
      Acts streamId e other { e with stream := e.stream ++ c.wire }
  | receivesBytes {a : UdpAssociation} {known : List Capsule} {q : CapsuleParser} {count : ℕ}
      (ha : e.association = some a)
      (hfeed : e.parser.feedChunk ((other.stream.drop e.delivered).take count) = (.ok known, q)) :
      Acts streamId e other
        ({ e with
            parser := q
            delivered :=
              e.delivered + ((other.stream.drop e.delivered).take count).length }.logReceived
          .datagramCapsule (known.map a.receiveCapsule))
  | receivesFrame {a : UdpAssociation} {i : ℕ} {frame : List UInt8}
      (ha : e.association = some a) (hframe : other.frames[i]? = some frame) :
      Acts streamId e other
        (e.logReceived .h3Datagram [HttpDatagram.decodeH3 frame >>= a.decodeH3Datagram])

theorem records_of_call {c : Session.Call} (h : e.call c = .ok e') :
    ∃ s, Records e.session c s ∧ e' = { e with session := s } := by
  obtain ⟨error, hstep⟩ | ⟨s, hstep, hrecords⟩ := step_cases e.session c
  · rw [call, hstep] at h
    cases h
  · rw [call, hstep] at h
    exact ⟨s, hrecords, (ok.inj h).symm⟩

theorem acts_of_receiveSettings (h : e.receiveSettings other = .ok e') :
    Acts streamId e other e' := by
  unfold receiveSettings at h
  split at h
  · obtain rfl := ok.inj h
    exact .idle
  · next sent hsent =>
    have hnew : H3DatagramSettingValue.new sent.get = .ok sent := by
      rw [H3DatagramSettingValue.new, dif_pos sent.get_eq]
    rw [hnew, ok_bind] at h
    obtain ⟨s, hrecords, rfl⟩ := records_of_call h
    refine .session hrecords (fun v hv => ?_) (fun b hb => by cases hb)
    cases hv
    exact hsent

theorem acts_of_receiveHeader (h : e.receiveHeader other = .ok e') :
    Acts streamId e other e' := by
  unfold receiveHeader at h
  split at h
  · obtain rfl := ok.inj h
    exact .idle
  · next sent hsent =>
    rw [CapsuleProtocol.parse_serialize] at h
    obtain ⟨s, hrecords, rfl⟩ := records_of_call h
    refine .session hrecords (fun v hv => by cases hv) (fun b hb => ?_)
    cases hb
    exact hsent

theorem acts_of_bind {os : Sockets} {loc target : SocketAddr} {id : AssociationId}
    (h : e.bind streamId os loc target id = .ok e') : Acts streamId e other e' := by
  unfold TunnelEnd.bind at h
  split at h
  · obtain rfl := ok.inj h
    exact .idle
  · next hnone =>
    obtain ⟨a, ha, h⟩ := bind_eq_ok.mp h
    obtain rfl := ok.inj h
    obtain ⟨_, hsession, _, hstream⟩ := fields_of_bind ha
    exact .opens hnone hsession hstream

theorem acts_of_send {p : List UInt8} (h : e.send p = .ok e') : Acts streamId e other e' := by
  unfold send at h
  split at h
  · obtain rfl := ok.inj h
    exact .idle
  · next a ha =>
    obtain ⟨k, hk, h⟩ := bind_eq_ok.mp h
    have hselects := (selectUdpCarrier_eq_ok.mp hk).2
    cases k with
    | h3Datagram =>
      obtain ⟨d, hd, h⟩ := bind_eq_ok.mp h
      obtain ⟨frame, hframe, h⟩ := bind_eq_ok.mp h
      obtain rfl := ok.inj h
      exact .sendsFrame ha hselects ((encodeH3Datagram_eq_ok hselects.gates.1).mp hd) hframe
    | datagramCapsule =>
      obtain ⟨c, hc, h⟩ := bind_eq_ok.mp h
      obtain ⟨_, hpayload, hp⟩ := (encodeDatagramCapsule_eq_ok hselects.gates.2).mp hc
      have hcapsule : c.toCapsule = framed p := by
        rw [DatagramCapsule.toCapsule, hpayload, framed]
      have hvalid := (fits_framed (hp.trans (maxPayloadForAddr_le a.target))).1
      rw [← hcapsule] at hvalid
      rw [DatagramCapsule.encodeInto_eq hvalid] at h
      obtain rfl := ok.inj h
      rw [hcapsule]
      exact .sendsCapsule ha hselects hp

theorem acts_of_sendForeign {t : CapsuleType} {v : List UInt8} (h : e.sendForeign t v = .ok e') :
    Acts streamId e other e' := by
  unfold sendForeign at h
  split_ifs at h with hunknown
  · obtain ⟨c, hc, h⟩ := bind_eq_ok.mp h
    obtain ⟨rfl, hvalid⟩ := Capsule.new_eq_ok.mp hc
    rw [encode_eq hvalid] at h
    obtain rfl := ok.inj h
    rw [CapsuleType.isUnknown_eq_not, Bool.not_eq_true'] at hunknown
    exact .sendsForeign hvalid hunknown
  · obtain rfl := ok.inj h
    exact .idle

theorem acts_of_receiveBytes {count : ℕ} (h : e.receiveBytes other count = .ok e') :
    Acts streamId e other e' := by
  unfold receiveBytes at h
  split at h
  · obtain rfl := ok.inj h
    exact .idle
  · next a ha =>
    obtain ⟨known, hknown, h⟩ := bind_eq_ok.mp h
    obtain rfl := ok.inj h
    exact .receivesBytes ha (Prod.ext hknown rfl)

theorem acts_of_receiveFrame {i : ℕ} (h : e.receiveFrame other i = .ok e') :
    Acts streamId e other e' := by
  unfold receiveFrame at h
  split at h
  · next a frame ha hframe =>
    obtain rfl := ok.inj h
    exact .receivesFrame ha hframe
  · obtain rfl := ok.inj h
    exact .idle

/-- An action that succeeds is one of these. -/
theorem acts_of_act {action : TunnelAction} (h : e.act streamId other action = .ok e') :
    Acts streamId e other e' := by
  cases action with
  | setLocalH3Datagram value =>
    change e.call (.setLocalH3Datagram value) = .ok e' at h
    obtain ⟨s, hrecords, rfl⟩ := records_of_call h
    exact .session hrecords (fun v hv => by cases hv) (fun b hb => by cases hb)
  | receiveSettings => exact acts_of_receiveSettings h
  | setLocalCapsuleProtocol enabled =>
    change e.call (.setLocalCapsuleProtocol enabled) = .ok e' at h
    obtain ⟨s, hrecords, rfl⟩ := records_of_call h
    exact .session hrecords (fun v hv => by cases hv) (fun b hb => by cases hb)
  | receiveHeader => exact acts_of_receiveHeader h
  | bind os loc target id => exact acts_of_bind h
  | send payload => exact acts_of_send h
  | sendForeign capsuleType value => exact acts_of_sendForeign h
  | receiveBytes count => exact acts_of_receiveBytes h
  | receiveFrame i => exact acts_of_receiveFrame h

end TunnelEnd

end Masque

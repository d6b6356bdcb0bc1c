import Masque.Association

/-!
# The framing of UDP payloads

On either carrier a payload `p` is framed as `0x00 :: p` on the stream of the association,
and nothing else is accepted (`framing_exact`).
-/

namespace Masque.UdpAssociation

open Outcome

variable {a b : UdpAssociation} {d : HttpDatagram} {p : List UInt8}

/-- The datagram that carries a payload: the stream of the association, the default Context
ID in its shortest form, and a payload within the limit of the target. -/
structure Carries (a : UdpAssociation) (d : HttpDatagram) (p : List UInt8) : Prop where
  streamId_eq : d.streamId = a.streamId
  payload_eq : d.payload = 0x00 :: p
  length_le : p.length ≤ maxPayloadForAddr a.target

/-- Context ID 0 in one byte is the byte zero. -/
theorem decode_eq_zero_one {bs : List UInt8} :
    QuicVarint.decode bs = .ok (0, 1) ↔ ∃ p, bs = 0x00 :: p := by
  rw [QuicVarint.decode_eq_ok]
  constructor
  · intro h
    obtain ⟨k, hk, hwidth, _, htake⟩ := TaggedInt.encode_of_decode h
    obtain rfl : 0 = k := TaggedInt.width_injective hwidth
    obtain ⟨c, rest, rfl, _⟩ := TaggedInt.decode_eq_some.mp h
    have hc : [c] = [0x00] := htake
    rw [List.singleton_inj.mp hc]
    exact ⟨rest, rfl⟩
  · rintro ⟨p, rfl⟩
    exact TaggedInt.decode_encode_append (k := 0) (v := 0) (by decide) (by decide) p

/-- A payload within the limit is sent as the datagram that carries it, and no other is. -/
theorem send_eq_ok {tooLarge : String → Error} :
    a.send tooLarge p = .ok d ↔ Carries a d p := by
  unfold send
  split_ifs with hlarge
  · refine iff_of_false (by simp) ?_
    rintro ⟨_, _, hle⟩
    omega
  · rw [HttpDatagram.new_eq_ok]
    exact ⟨fun h => ⟨h.1, h.2, by omega⟩, fun h => ⟨h.streamId_eq, h.payload_eq⟩⟩

/-- A datagram is received exactly as the payload it carries. -/
theorem receive_eq_ok {mismatch : String} :
    a.receive mismatch d = .ok p ↔ Carries a d p := by
  unfold receive
  split_ifs with hstream
  · exact iff_of_false (by simp) (fun h => hstream h.streamId_eq)
  · rw [not_not] at hstream
    constructor
    · intro h
      obtain ⟨⟨contextId, consumed⟩, hdecode, h⟩ := bind_eq_ok.mp h
      have hdecode := mapErr_eq_ok.mp hdecode
      dsimp only at h
      split_ifs at h with hcontext hconsumed
      obtain ⟨rfl, rfl⟩ : contextId = 0 ∧ consumed = 1 :=
        ⟨not_not.mp hcontext, not_not.mp hconsumed⟩
      obtain ⟨rest, hrest⟩ := decode_eq_zero_one.mp hdecode
      obtain ⟨q, hq, h⟩ := bind_eq_ok.mp h
      rw [hrest, sliceFrom_eq_ok (by simp), ok.injEq] at hq
      split_ifs at h with hlarge
      obtain rfl := ok.inj h
      exact ⟨hstream, hrest.trans (congrArg _ hq), by omega⟩
    · rintro ⟨_, hpayload, hle⟩
      have hdecode := decode_eq_zero_one.mpr ⟨p, hpayload⟩
      rw [hdecode, hpayload]
      simp only [mapErr_ok, ok_bind, ne_eq, not_true_eq_false, if_false]
      rw [sliceFrom_eq_ok (by simp), ok_bind]
      exact if_neg (by simpa using hle)

/-- Two associations on one stream and of one limit receive a datagram alike: the same
payload, or errors of the same kind. -/
theorem receive_agree {m m' : String} (hstream : a.streamId = b.streamId)
    (hmax : maxPayloadForAddr a.target = maxPayloadForAddr b.target) :
    (∃ p, a.receive m d = .ok p ∧ b.receive m' d = .ok p) ∨
      ∃ e e' kind, a.receive m d = .err e ∧ b.receive m' d = .err e' ∧
        e.datagramKind = some kind ∧ e'.datagramKind = some kind := by
  unfold receive
  rw [← hstream, ← hmax]
  split_ifs with hmismatch
  · exact .inr ⟨_, _, _, rfl, rfl, rfl, rfl⟩
  · rcases QuicVarint.decode_total d.payload with ⟨contextId, consumed, hdecode, hle⟩ | ⟨e, he⟩
    · rw [hdecode]
      simp only [mapErr_ok, ok_bind]
      split_ifs with hcontext hconsumed
      · exact .inr ⟨_, _, _, rfl, rfl, rfl, rfl⟩
      · exact .inr ⟨_, _, _, rfl, rfl, rfl, rfl⟩
      · rw [sliceFrom_eq_ok hle]
        simp only [ok_bind]
        split_ifs with hlarge
        · exact .inr ⟨_, _, _, rfl, rfl, rfl, rfl⟩
        · exact .inl ⟨_, rfl, rfl⟩
    · rw [he]
      exact .inr ⟨_, _, _, rfl, rfl, rfl, rfl⟩

section Carriers

theorem decodeH3Datagram_eq_ok (h : a.session.isH3DatagramEnabled = true) :
    a.decodeH3Datagram d = .ok p ↔ Carries a d p := by
  rw [decodeH3Datagram_of_enabled h, receive_eq_ok]

theorem encodeH3Datagram_eq_ok (h : a.session.isH3DatagramEnabled = true) :
    a.encodeH3Datagram p = .ok d ↔ Carries a d p := by
  rw [encodeH3Datagram_of_enabled h, send_eq_ok]

theorem decodeDatagramCapsule_eq_ok (h : a.session.isDatagramCapsuleEnabled = true)
    {c : DatagramCapsule} : a.decodeDatagramCapsule c = .ok p ↔ Carries a c.datagram p := by
  rw [decodeDatagramCapsule_of_enabled h, receive_eq_ok]

theorem encodeDatagramCapsule_eq_ok (h : a.session.isDatagramCapsuleEnabled = true)
    {c : DatagramCapsule} : a.encodeDatagramCapsule p = .ok c ↔ Carries a c.datagram p := by
  rw [encodeDatagramCapsule_of_enabled h]
  constructor
  · intro hmap
    obtain ⟨d, hd, hc⟩ := bind_eq_ok.mp hmap
    obtain rfl := ok.inj hc
    exact send_eq_ok.mp hd
  · intro hcarries
    exact bind_eq_ok.mpr ⟨c.datagram, send_eq_ok.mpr hcarries, rfl⟩

/-- A payload within the limit is carried by one datagram, which the constructor accepts. -/
theorem exists_carries (hle : p.length ≤ maxPayloadForAddr a.target) :
    ∃ d, HttpDatagram.new a.streamId (0x00 :: p) = .ok d ∧ Carries a d p :=
  ⟨⟨a.streamId, 0x00 :: p, a.valid⟩, HttpDatagram.new_eq_ok.mpr ⟨rfl, rfl⟩, rfl, rfl, hle⟩

end Carriers

/-- Framing is a bijection on either carrier, onto the datagrams of the stream that hold the
byte zero and a payload within the limit, and the two carriers agree. -/
theorem framing_exact :
    (∀ a : UdpAssociation, a.session.isH3DatagramEnabled = true → ∀ d p,
      (a.decodeH3Datagram d = .ok p ↔ a.encodeH3Datagram p = .ok d) ∧
      (a.decodeH3Datagram d = .ok p ↔ d.streamId = a.streamId ∧ d.payload = 0x00 :: p ∧
        p.length ≤ maxPayloadForAddr a.target)) ∧
    (∀ a : UdpAssociation, a.session.isDatagramCapsuleEnabled = true → ∀ c p,
      (a.decodeDatagramCapsule c = .ok p ↔ a.encodeDatagramCapsule p = .ok c) ∧
      (a.decodeDatagramCapsule c = .ok p ↔ c.datagram.streamId = a.streamId ∧
        c.datagram.payload = 0x00 :: p ∧ p.length ≤ maxPayloadForAddr a.target)) ∧
    (∀ (a : UdpAssociation) (framed : List UInt8),
      ∃ d, HttpDatagram.new a.streamId framed = .ok d) ∧
    (∀ a b : UdpAssociation, a.session.isH3DatagramEnabled = true →
      b.session.isDatagramCapsuleEnabled = true → a.streamId = b.streamId →
      a.target.SameFamily b.target →
      (∀ d, (∃ p, a.decodeH3Datagram d = .ok p ∧ b.decodeDatagramCapsule ⟨d⟩ = .ok p) ∨
        ∃ e e' kind, a.decodeH3Datagram d = .err e ∧ b.decodeDatagramCapsule ⟨d⟩ = .err e' ∧
          e.datagramKind = some kind ∧ e'.datagramKind = some kind) ∧
      ∀ p d, a.encodeH3Datagram p = .ok d ↔ b.encodeDatagramCapsule p = .ok ⟨d⟩) := by
  have hcarries (a : UdpAssociation) (d : HttpDatagram) (p : List UInt8) :
      Carries a d p ↔ d.streamId = a.streamId ∧ d.payload = 0x00 :: p ∧
        p.length ≤ maxPayloadForAddr a.target :=
    ⟨fun h => ⟨h.streamId_eq, h.payload_eq, h.length_le⟩, fun h => ⟨h.1, h.2.1, h.2.2⟩⟩
  refine ⟨fun a h d p => ?_, fun a h c p => ?_, fun a framed => ?_,
    fun a b ha hb hstream hfamily => ⟨fun d => ?_, fun p d => ?_⟩⟩
  · rw [decodeH3Datagram_eq_ok h, encodeH3Datagram_eq_ok h]
    exact ⟨Iff.rfl, hcarries a d p⟩
  · rw [decodeDatagramCapsule_eq_ok h, encodeDatagramCapsule_eq_ok h]
    exact ⟨Iff.rfl, hcarries a c.datagram p⟩
  · exact ⟨⟨a.streamId, framed, a.valid⟩, HttpDatagram.new_eq_ok.mpr ⟨rfl, rfl⟩⟩
  · rw [decodeH3Datagram_of_enabled ha, decodeDatagramCapsule_of_enabled hb]
    exact receive_agree hstream (maxPayloadForAddr_of_sameFamily hfamily)
  · rw [encodeH3Datagram_eq_ok ha, encodeDatagramCapsule_eq_ok hb, hcarries, hcarries, hstream,
      maxPayloadForAddr_of_sameFamily hfamily]

end Masque.UdpAssociation

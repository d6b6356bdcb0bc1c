import Masque.Association.Delivery
import Masque.Capsule.PrefixDecoder
import Masque.HttpDatagram.Codec
import Masque.Library.Blame

/-!
# What a refused message is blamed for

A message of the peer passes the checks of two layers before its payload is handed on, the
framing of the carrier and the checks of the association. The kind of the error says which
check stopped it, and the local kinds are those that the peer has no part in.
-/

namespace Masque

open Outcome

namespace UdpAssociation

variable {a : UdpAssociation}

/-- Why an association refuses a datagram on a carrier: the first check that it does not
pass. -/
inductive ReceiveFault (a : UdpAssociation) (enabled : Bool) (d : HttpDatagram) :
    H3DatagramErrorKind → Prop
  | notNegotiated (h : enabled = false) : ReceiveFault a enabled d .notNegotiated
  | mismatchedStreamId (henabled : enabled = true) (h : d.streamId ≠ a.streamId) :
      ReceiveFault a enabled d .mismatchedStreamId
  | invalidContextId (henabled : enabled = true) (hstream : d.streamId = a.streamId)
      (h : d.payload.head? ≠ some 0x00) : ReceiveFault a enabled d .invalidContextId
  | payloadTooLarge {p : List UInt8} (henabled : enabled = true)
      (hstream : d.streamId = a.streamId) (hpayload : d.payload = 0x00 :: p)
      (h : maxPayloadForAddr a.target < p.length) : ReceiveFault a enabled d .payloadTooLarge

/-- Why a frame of the HTTP/3 carrier is refused. -/
inductive FrameFault (a : UdpAssociation) (bytes : List UInt8) : H3DatagramErrorKind → Prop
  | invalidVarint (h : TaggedInt.decode bytes = none) : FrameFault a bytes .invalidVarint
  | varintOutOfRange {q n : ℕ} (hdecode : TaggedInt.decode bytes = some (q, n))
      (h : 2 ^ 60 - 1 < q) : FrameFault a bytes .varintOutOfRange
  | received {d : HttpDatagram} {kind : H3DatagramErrorKind}
      (hdecode : HttpDatagram.decodeH3 bytes = .ok d)
      (h : ReceiveFault a a.session.isH3DatagramEnabled d kind) : FrameFault a bytes kind

/-- Why a capsule on the stream of the association is refused. -/
inductive CapsuleFault (a : UdpAssociation) (bytes : List UInt8) : H3DatagramErrorKind → Prop
  | invalidVarint (h : Capsule.header.next bytes = none) : CapsuleFault a bytes .invalidVarint
  | truncated {t l k : ℕ} (hheader : Capsule.header.next bytes = some ((t, l), k))
      (h : bytes.length < k + l) : CapsuleFault a bytes .truncated
  | unexpectedCapsuleType {c : Capsule} {n : ℕ} (hdecode : Capsule.decode bytes = .ok (c, n))
      (h : c.capsuleType.isUnknown = true) : CapsuleFault a bytes .unexpectedCapsuleType
  | received {c : DatagramCapsule} {n : ℕ} {kind : H3DatagramErrorKind}
      (hdecode : DatagramCapsule.decode bytes a.streamId = .ok (c, n))
      (h : ReceiveFault a a.session.isDatagramCapsuleEnabled c.datagram kind) :
      CapsuleFault a bytes kind

/-! ## The checks of the association -/

theorem blames_receive_stream {d : HttpDatagram} (mismatch : String)
    (h : d.streamId ≠ a.streamId) :
    Blames Error.datagramKind .mismatchedStreamId (a.receive mismatch d) := by
  rw [receive, if_pos h]
  exact ⟨_, rfl, rfl⟩

/-- Nothing but the byte zero stands for Context ID 0. -/
theorem blames_receive_context {d : HttpDatagram} (mismatch : String)
    (hstream : d.streamId = a.streamId) (h : d.payload.head? ≠ some 0x00) :
    Blames Error.datagramKind .invalidContextId (a.receive mismatch d) := by
  rw [receive, if_neg (not_not.mpr hstream)]
  obtain ⟨contextId, consumed, hdecode, -⟩ | ⟨e, he⟩ := QuicVarint.decode_total d.payload
  · rw [hdecode, mapErr_ok, ok_bind]
    dsimp only
    split_ifs with hcontext hconsumed
    · exact ⟨_, rfl, rfl⟩
    · exact ⟨_, rfl, rfl⟩
    · rw [not_not.mp hcontext, not_not.mp hconsumed] at hdecode
      obtain ⟨p, hp⟩ := decode_eq_zero_one.mp hdecode
      rw [hp] at h
      exact absurd rfl h
  · rw [he]
    exact ⟨_, rfl, rfl⟩

theorem blames_receive_large {d : HttpDatagram} {p : List UInt8} (mismatch : String)
    (hstream : d.streamId = a.streamId) (hpayload : d.payload = 0x00 :: p)
    (h : maxPayloadForAddr a.target < p.length) :
    Blames Error.datagramKind .payloadTooLarge (a.receive mismatch d) := by
  rw [receive, if_neg (not_not.mpr hstream), decode_eq_zero_one.mpr ⟨p, hpayload⟩, hpayload,
    mapErr_ok, ok_bind]
  dsimp only
  rw [if_neg (not_not.mpr rfl), if_neg (not_not.mpr rfl), sliceFrom_cons_one, ok_bind, if_pos h]
  exact ⟨_, rfl, rfl⟩

/-- A datagram carries a payload or has a fault. -/
theorem carries_or_fault (a : UdpAssociation) (d : HttpDatagram) :
    (∃ p, Carries a d p) ∨ ∃ kind, ReceiveFault a true d kind := by
  by_cases hstream : d.streamId = a.streamId
  · by_cases hcontext : d.payload.head? = some 0x00
    · obtain ⟨p, hp⟩ := List.head?_eq_some_iff.mp hcontext
      by_cases hlarge : maxPayloadForAddr a.target < p.length
      · exact .inr ⟨_, .payloadTooLarge rfl hstream hp hlarge⟩
      · exact .inl ⟨p, hstream, hp, not_lt.mp hlarge⟩
    · exact .inr ⟨_, .invalidContextId rfl hstream hcontext⟩
  · exact .inr ⟨_, .mismatchedStreamId rfl hstream⟩

/-- What both decoders do, with the check of the carrier in front. -/
theorem ReceiveFault.blames {enabled : Bool} {d : HttpDatagram} {kind : H3DatagramErrorKind}
    {x : Result (List UInt8)} (h : ReceiveFault a enabled d kind) (mismatch : String)
    (hon : enabled = true → x = a.receive mismatch d)
    (hoff : enabled = false → Blames Error.datagramKind .notNegotiated x) :
    Blames Error.datagramKind kind x := by
  cases h with
  | notNegotiated h => exact hoff h
  | mismatchedStreamId henabled h =>
    rw [hon henabled]
    exact blames_receive_stream mismatch h
  | invalidContextId henabled hstream h =>
    rw [hon henabled]
    exact blames_receive_context mismatch hstream h
  | payloadTooLarge henabled hstream hpayload h =>
    rw [hon henabled]
    exact blames_receive_large mismatch hstream hpayload h

theorem ReceiveFault.blames_h3 {d : HttpDatagram} {kind : H3DatagramErrorKind}
    (h : ReceiveFault a a.session.isH3DatagramEnabled d kind) :
    Blames Error.datagramKind kind (a.decodeH3Datagram d) := by
  refine h.blames _ (fun henabled => decodeH3Datagram_of_enabled henabled d) fun hoff => ?_
  obtain ⟨e, hkind, -, he⟩ := refuses_of_not_h3Datagram hoff
  exact ⟨e, he d, hkind⟩

theorem ReceiveFault.blames_capsule {c : DatagramCapsule} {kind : H3DatagramErrorKind}
    (h : ReceiveFault a a.session.isDatagramCapsuleEnabled c.datagram kind) :
    Blames Error.datagramKind kind (a.decodeDatagramCapsule c) := by
  refine h.blames _ (fun henabled => decodeDatagramCapsule_of_enabled henabled c) fun hoff => ?_
  obtain ⟨e, hkind, -, he⟩ := refuses_of_not_datagramCapsule hoff
  exact ⟨e, he c, hkind⟩

/-! ## Frames -/

/-- What the HTTP/3 carrier delivers to an association. -/
def receiveFrameBytes (a : UdpAssociation) (bytes : List UInt8) : Result (List UInt8) :=
  HttpDatagram.decodeH3 bytes >>= a.decodeH3Datagram

theorem blames_decodeH3_varint {bytes : List UInt8} (h : TaggedInt.decode bytes = none) :
    Blames Error.datagramKind .invalidVarint (HttpDatagram.decodeH3 bytes) := by
  obtain ⟨e, he, -⟩ := QuicVarint.decode_eq_err h
  rw [HttpDatagram.decodeH3, he]
  exact ⟨_, rfl, rfl⟩

theorem blames_decodeH3_range {bytes : List UInt8} {q n : ℕ}
    (hdecode : TaggedInt.decode bytes = some (q, n)) (h : 2 ^ 60 - 1 < q) :
    Blames Error.datagramKind .varintOutOfRange (HttpDatagram.decodeH3 bytes) := by
  have hlt := TaggedInt.lt_capacity_of_decode hdecode
  have hnat : (UInt64.ofNat q).toNat = q :=
    UInt64.toNat_ofNat_of_lt' (hlt.trans (by decide))
  have hvarint : QuicVarint.decode bytes = .ok (UInt64.ofNat q, n) :=
    QuicVarint.decode_eq_ok.mpr (hnat.symm ▸ hdecode)
  have hmax : maxQuarterStreamId < UInt64.ofNat q := by
    rw [UInt64.lt_iff_toNat_lt, hnat]
    exact h
  rw [HttpDatagram.decodeH3, hvarint, mapErr_ok, ok_bind]
  dsimp only
  rw [dif_pos hmax]
  exact ⟨_, rfl, rfl⟩

/-- Bytes hold a datagram or have a fault of the framing. -/
theorem decodeH3_or_fault (a : UdpAssociation) (bytes : List UInt8) :
    (∃ d, HttpDatagram.decodeH3 bytes = .ok d) ∨ ∃ kind, FrameFault a bytes kind := by
  cases hdecode : TaggedInt.decode bytes with
  | none => exact .inr ⟨_, .invalidVarint hdecode⟩
  | some r =>
    obtain ⟨q, n⟩ := r
    by_cases hrange : 2 ^ 60 - 1 < q
    · exact .inr ⟨_, .varintOutOfRange hdecode hrange⟩
    · obtain ⟨hnat, hmax⟩ := HttpDatagram.ofNat_le_maxQuarterStreamId (not_lt.mp hrange)
      refine .inl ⟨⟨UInt64.ofNat q * 4, bytes.drop n, HttpDatagram.validStreamId_mul_four hmax⟩,
        HttpDatagram.decodeH3_eq_ok.mpr ⟨q, n, hdecode, not_lt.mp hrange, ?_, rfl⟩⟩
      rw [HttpDatagram.toNat_mul_four hmax, hnat]

theorem FrameFault.blames {bytes : List UInt8} {kind : H3DatagramErrorKind}
    (h : FrameFault a bytes kind) : Blames Error.datagramKind kind (a.receiveFrameBytes bytes) := by
  cases h with
  | invalidVarint h => exact (blames_decodeH3_varint h).bind _
  | varintOutOfRange hdecode h => exact (blames_decodeH3_range hdecode h).bind _
  | received hdecode h =>
    rw [receiveFrameBytes, hdecode, ok_bind]
    exact h.blames_h3

/-- A frame brings a payload of the association or has a fault. -/
theorem frame_or_fault (a : UdpAssociation) (bytes : List UInt8) :
    (∃ d p, HttpDatagram.decodeH3 bytes = .ok d ∧ Carries a d p ∧
      a.receiveFrameBytes bytes = .ok p) ∨ ∃ kind, FrameFault a bytes kind := by
  obtain ⟨d, hdecode⟩ | hfault := decodeH3_or_fault a bytes
  · cases henabled : a.session.isH3DatagramEnabled with
    | false => exact .inr ⟨_, .received hdecode (.notNegotiated henabled)⟩
    | true =>
      obtain ⟨p, hp⟩ | ⟨kind, hkind⟩ := carries_or_fault a d
      · refine .inl ⟨d, p, hdecode, hp, ?_⟩
        rw [receiveFrameBytes, hdecode, ok_bind]
        exact (decodeH3Datagram_eq_ok henabled).mpr hp
      · rw [← henabled] at hkind
        exact .inr ⟨kind, .received hdecode hkind⟩
  · exact .inr hfault

/-! ## Capsules -/

/-- What the capsule at the front of the stream delivers to an association. -/
def receiveCapsuleBytes (a : UdpAssociation) (bytes : List UInt8) : Result (List UInt8) :=
  DatagramCapsule.decode bytes a.streamId >>= fun r => a.decodeDatagramCapsule r.1

theorem CapsuleFault.blames {bytes : List UInt8} {kind : H3DatagramErrorKind}
    (h : CapsuleFault a bytes kind) :
    Blames Error.datagramKind kind (a.receiveCapsuleBytes bytes) := by
  cases h with
  | invalidVarint h =>
    obtain ⟨source, hsource⟩ := Capsule.decode_of_header_eq_none h
    rw [receiveCapsuleBytes, DatagramCapsule.decode, hsource]
    exact ⟨_, rfl, rfl⟩
  | truncated hheader h =>
    obtain hnone | ⟨t, l, k, hsome⟩ := Capsule.header_cases bytes
    · rw [hnone] at hheader
      cases hheader
    · rw [hsome] at hheader
      obtain ⟨⟨rfl, rfl⟩, rfl⟩ : (t.value.toNat = _ ∧ l = _) ∧ k = _ := by
        simpa only [Option.some.injEq, Prod.mk.injEq] using hheader
      rw [receiveCapsuleBytes, DatagramCapsule.decode, Capsule.decode_of_header hsome, if_pos h]
      exact ⟨_, rfl, rfl⟩
  | unexpectedCapsuleType hdecode h =>
    rw [CapsuleType.isUnknown_eq_not, Bool.not_eq_true'] at h
    rw [receiveCapsuleBytes, DatagramCapsule.decode, hdecode, ok_bind]
    dsimp only
    rw [h, if_neg Bool.false_ne_true]
    exact ⟨_, rfl, rfl⟩
  | received hdecode h =>
    rw [receiveCapsuleBytes, hdecode, ok_bind]
    exact h.blames_capsule

/-- Bytes hold a DATAGRAM capsule of the association or have a fault of the framing. -/
theorem decodeCapsule_or_fault (a : UdpAssociation) (bytes : List UInt8) :
    (∃ c n, DatagramCapsule.decode bytes a.streamId = .ok (c, n)) ∨
      ∃ kind, CapsuleFault a bytes kind := by
  obtain hnone | ⟨t, l, k, hsome⟩ := Capsule.header_cases bytes
  · exact .inr ⟨_, .invalidVarint hnone⟩
  by_cases hshort : bytes.length < k + l
  · exact .inr ⟨_, .truncated hsome hshort⟩
  have hdecode := Capsule.decode_of_header hsome
  rw [if_neg hshort] at hdecode
  cases hunknown : t.isUnknown with
  | true => exact .inr ⟨_, .unexpectedCapsuleType hdecode hunknown⟩
  | false =>
    obtain ⟨v, hv⟩ := t
    obtain rfl : v = 0 := by
      simpa [CapsuleType.isUnknown] using hunknown
    exact .inl ⟨⟨⟨a.streamId, _, a.valid⟩⟩, k + l,
      DatagramCapsule.decode_eq_ok.mpr ⟨hdecode, rfl⟩⟩

/-- A capsule brings a payload of the association or has a fault. -/
theorem capsule_or_fault (a : UdpAssociation) (bytes : List UInt8) :
    (∃ c n p, DatagramCapsule.decode bytes a.streamId = .ok (c, n) ∧
      Carries a c.datagram p ∧ a.receiveCapsuleBytes bytes = .ok p) ∨
      ∃ kind, CapsuleFault a bytes kind := by
  obtain ⟨c, n, hdecode⟩ | hfault := decodeCapsule_or_fault a bytes
  · cases henabled : a.session.isDatagramCapsuleEnabled with
    | false => exact .inr ⟨_, .received hdecode (.notNegotiated henabled)⟩
    | true =>
      obtain ⟨p, hp⟩ | ⟨kind, hkind⟩ := carries_or_fault a c.datagram
      · refine .inl ⟨c, n, p, hdecode, hp, ?_⟩
        rw [receiveCapsuleBytes, hdecode, ok_bind]
        exact (decodeDatagramCapsule_eq_ok henabled).mpr hp
      · rw [← henabled] at hkind
        exact .inr ⟨kind, .received hdecode hkind⟩
  · exact .inr hfault

/-- Every frame and every capsule of the peer brings a payload or is refused with an error of
the kind of its fault, which is the first in the order of the checks of both layers. -/
theorem receive_faults (a : UdpAssociation) (bytes : List UInt8) :
    ((∃ d p, HttpDatagram.decodeH3 bytes = .ok d ∧ Carries a d p ∧
        a.receiveFrameBytes bytes = .ok p) ∨ ∃ kind, FrameFault a bytes kind) ∧
    (∀ kind, (∃ e, a.receiveFrameBytes bytes = .err e ∧ e.datagramKind = some kind) ↔
      FrameFault a bytes kind) ∧
    ((∃ c n p, DatagramCapsule.decode bytes a.streamId = .ok (c, n) ∧
        Carries a c.datagram p ∧ a.receiveCapsuleBytes bytes = .ok p) ∨
      ∃ kind, CapsuleFault a bytes kind) ∧
    ∀ kind, (∃ e, a.receiveCapsuleBytes bytes = .err e ∧ e.datagramKind = some kind) ↔
      CapsuleFault a bytes kind := by
  have hframe := frame_or_fault a bytes
  have hcapsule := capsule_or_fault a bytes
  refine ⟨hframe, blames_iff_of_cases (fun kind h => h.blames) ?_, hcapsule,
    blames_iff_of_cases (fun kind h => h.blames) ?_⟩
  · exact hframe.imp_left fun ⟨_, p, _, _, hp⟩ => ⟨p, hp⟩
  · exact hcapsule.imp_left fun ⟨_, _, p, _, _, hp⟩ => ⟨p, hp⟩

/-- The two encoders refuse a payload above the limit with one text, but only the capsule
carrier gives it a kind of its own: the other reports a configuration error. -/
theorem encode_large {p : List UInt8} (h : maxPayloadForAddr a.target < p.length) :
    (a.session.isH3DatagramEnabled = true → a.encodeH3Datagram p =
      .err (.invalidConfig "payload" (a.limitMessage "payload" p.length))) ∧
    (a.session.isDatagramCapsuleEnabled = true → a.encodeDatagramCapsule p =
      .err (.h3Datagram .payloadTooLarge (a.limitMessage "payload" p.length))) := by
  refine ⟨fun henabled => ?_, fun henabled => ?_⟩
  · rw [encodeH3Datagram_of_enabled henabled, send, if_pos h]
  · rw [encodeDatagramCapsule_of_enabled henabled, send, if_pos h]
    rfl

end UdpAssociation

end Masque

import Masque.Association.Delivery

/-!
# Errors keep payloads to themselves

What the receiving side reports about a message of the peer depends on its headers and its
length. Two messages of one length with the same headers are refused with the same error,
text included, or yield payloads of one length (`errors_hide_payload`).
-/

namespace Masque

open Outcome

/-- Two texts of bytes that are alike for everyone who reads only the first `n`. -/
structure SameFront (n : ℕ) (bs bs' : List UInt8) : Prop where
  length_eq : bs.length = bs'.length
  take_eq : bs.take n = bs'.take n

namespace SameFront

variable {m n : ℕ} {bs bs' : List UInt8}

theorem mono (h : SameFront n bs bs') (hmn : m ≤ n) : SameFront m bs bs' := by
  refine ⟨h.length_eq, ?_⟩
  have htake := congrArg (List.take m) h.take_eq
  rwa [List.take_take, List.take_take, Nat.min_eq_left hmn] at htake

theorem drop (h : SameFront n bs bs') (k : ℕ) : SameFront (n - k) (bs.drop k) (bs'.drop k) := by
  refine ⟨by rw [List.length_drop, List.length_drop, h.length_eq], ?_⟩
  rw [← List.drop_take, ← List.drop_take, h.take_eq]

theorem take (h : SameFront n bs bs') (k : ℕ) : SameFront n (bs.take k) (bs'.take k) := by
  refine ⟨by rw [List.length_take, List.length_take, h.length_eq], ?_⟩
  rw [List.take_take, List.take_take, Nat.min_comm, ← List.take_take, ← List.take_take, h.take_eq]

theorem eq_nil_iff (h : SameFront n bs bs') : bs = [] ↔ bs' = [] := by
  rw [← List.length_eq_zero_iff, h.length_eq, List.length_eq_zero_iff]

/-- No tagged integer is longer than eight bytes. -/
theorem decode_tagged (h : SameFront 8 bs bs') : TaggedInt.decode bs = TaggedInt.decode bs' := by
  have hread {cs cs' : List UInt8} {v k : ℕ} (htake : cs.take 8 = cs'.take 8)
      (hdecode : TaggedInt.decode cs = some (v, k)) : TaggedInt.decode cs' = some (v, k) := by
    have hk := TaggedInt.width_le_of_decode hdecode
    refine TaggedInt.decode_of_take_eq hdecode ?_
    have := congrArg (List.take k) htake
    rwa [List.take_take, List.take_take, Nat.min_eq_left hk, eq_comm] at this
  cases hdecode : TaggedInt.decode bs with
  | some p => exact (hread h.take_eq hdecode).symm
  | none =>
    cases hdecode' : TaggedInt.decode bs' with
    | none => rfl
    | some p => exact absurd (hread h.take_eq.symm hdecode') (by simp [hdecode])

theorem decodeInner (h : SameFront 8 bs bs') :
    QuicVarint.decodeInner bs = QuicVarint.decodeInner bs' := by
  rw [QuicVarint.decodeInner_eq, QuicVarint.decodeInner_eq, h.decode_tagged]
  simp only [h.eq_nil_iff]

theorem decode (h : SameFront 8 bs bs') : QuicVarint.decode bs = QuicVarint.decode bs' := by
  rw [QuicVarint.decode_eq_decodeInner, QuicVarint.decode_eq_decodeInner, h.decodeInner]

theorem decodeAt {k : ℕ} (h : SameFront n bs bs') (hn : k + 8 ≤ n) (hk : 0 < k) :
    QuicVarint.decodeAt bs k = QuicVarint.decodeAt bs' k := by
  by_cases hlt : k < bs.length
  · rw [QuicVarint.decodeAt_of_lt hlt, QuicVarint.decodeAt_of_lt (h.length_eq ▸ hlt)]
    exact ((h.drop k).mono (by omega)).decodeInner
  · have hle := not_lt.mp hlt
    rw [QuicVarint.decodeAt_of_le hle hk, QuicVarint.decodeAt_of_le (h.length_eq ▸ hle) hk]

end SameFront

theorem Capsule.header_sameFront {bs bs' : List UInt8} (h : SameFront 16 bs bs') :
    header.next bs = header.next bs' := by
  have htype := (h.mono (by decide : 8 ≤ 16)).decode_tagged
  cases hdecode : TaggedInt.decode bs with
  | none =>
    rw [header_next_eq_none.mpr (.inl hdecode), header_next_eq_none.mpr (.inl (htype ▸ hdecode))]
  | some p =>
    obtain ⟨t, k⟩ := p
    have hk := TaggedInt.width_le_of_decode hdecode
    have hlength := ((h.drop k).mono (by omega : 8 ≤ 16 - k)).decode_tagged
    have hdecode' := htype ▸ hdecode
    cases hrest : TaggedInt.decode (bs.drop k) with
    | none =>
      rw [header_next_eq_none.mpr (.inr ⟨t, k, hdecode, hrest⟩),
        header_next_eq_none.mpr (.inr ⟨t, k, hdecode', hlength ▸ hrest⟩)]
    | some q =>
      obtain ⟨l, m⟩ := q
      rw [header_next_eq_some.mpr ⟨k, m, hdecode, hrest, rfl⟩,
        header_next_eq_some.mpr ⟨k, m, hdecode', hlength ▸ hrest, rfl⟩]

/-- A capsule header is at most sixteen bytes; what is read behind it keeps its place. -/
theorem Capsule.decode_alike {n : ℕ} {bs bs' : List UInt8} (h : SameFront (n + 16) bs bs') :
    Alike (fun r r' => r.1.capsuleType = r'.1.capsuleType ∧ SameFront n r.1.value r'.1.value ∧
      r.2 = r'.2) (decode bs) (decode bs') := by
  have hvarint := (h.mono (by omega : 8 ≤ n + 16)).decode
  obtain hheader | ⟨t, l, k, hheader⟩ := header_cases bs
  · obtain ⟨e, he, _⟩ | ⟨t, a, e, ht, he, _⟩ := varints_of_header_eq_none hheader
    · simp only [decode, ← hvarint, he, mapErr_err, err_bind]
      exact .err _
    · have ha := QuicVarint.decode_eq_ok.mp ht
      have hpos := TaggedInt.framing.next_pos ha
      have hle := TaggedInt.width_le_of_decode ha
      have he' := h.decodeAt (by omega : a + 8 ≤ n + 16) hpos
      rw [he] at he'
      simp only [decode, ← hvarint, ht, he, ← he', mapErr_ok, mapErr_err, ok_bind, err_bind,
        CapsuleType.new_eq_ok_iff.mpr rfl]
      exact .err _
  · have hheader' := hheader
    rw [header_sameFront (h.mono (by omega))] at hheader'
    have hk := header_le_sixteen hheader
    rw [decode_of_header hheader, decode_of_header hheader', h.length_eq]
    split_ifs with hshort
    · exact .err _
    · exact .ok ⟨rfl, ((h.drop k).mono (by omega)).take l, rfl⟩

theorem DatagramCapsule.decode_alike {n : ℕ} {bs bs' : List UInt8} (s : UInt64)
    (h : SameFront (n + 16) bs bs') :
    Alike (fun r r' => r.1.datagram.streamId = r'.1.datagram.streamId ∧
      SameFront n r.1.datagram.payload r'.1.datagram.payload) (decode bs s) (decode bs' s) := by
  refine (Capsule.decode_alike h).bind fun r r' hr => ?_
  obtain ⟨htype, hvalue, _⟩ := hr
  simp only [htype]
  split_ifs
  · unfold HttpDatagram.new
    cases HttpDatagram.validateStreamId s with
    | ok valid => exact .ok ⟨rfl, hvalue⟩
    | err e => exact .err e
    | panic => exact .panic
  · exact .err _

/-- The quarter stream ID is at most eight bytes. -/
theorem HttpDatagram.decodeH3_alike {n : ℕ} {bs bs' : List UInt8}
    (h : SameFront (n + 8) bs bs') :
    Alike (fun d d' => d.streamId = d'.streamId ∧ SameFront n d.payload d'.payload)
      (decodeH3 bs) (decodeH3 bs') := by
  have hvarint := (h.mono (by omega : 8 ≤ n + 8)).decode
  unfold decodeH3
  rw [← hvarint]
  obtain ⟨q, consumed, hdecode, hle⟩ | ⟨e, he⟩ := QuicVarint.decode_total bs
  · have hconsumed := TaggedInt.width_le_of_decode (QuicVarint.decode_eq_ok.mp hdecode)
    rw [hdecode, mapErr_ok, ok_bind, ok_bind]
    dsimp only
    split_ifs with hmax
    · exact .err _
    · rw [sliceFrom_eq_ok hle, sliceFrom_eq_ok (h.length_eq ▸ hle)]
      exact .ok ⟨rfl, (h.drop consumed).mono (by omega)⟩
  · rw [he]
    exact .err _

namespace UdpAssociation

variable {a : UdpAssociation} {d d' : HttpDatagram}

/-- The Context ID is at most eight bytes. -/
theorem receive_alike (mismatch : String) (hstream : d.streamId = d'.streamId)
    (h : SameFront 8 d.payload d'.payload) :
    Alike (fun p p' => p.length = p'.length) (a.receive mismatch d) (a.receive mismatch d') := by
  unfold receive
  rw [← hstream, ← h.decode]
  split_ifs with hmismatch
  · exact .err _
  · obtain ⟨contextId, consumed, hdecode, hle⟩ | ⟨e, he⟩ := QuicVarint.decode_total d.payload
    · rw [hdecode, mapErr_ok, ok_bind, ok_bind]
      dsimp only
      have hlen : (d.payload.drop consumed).length = (d'.payload.drop consumed).length := by
        rw [List.length_drop, List.length_drop, h.length_eq]
      split_ifs with hcontext hconsumed
      · exact .err _
      · exact .err _
      · rw [sliceFrom_eq_ok hle, sliceFrom_eq_ok (h.length_eq ▸ hle), ok_bind, ok_bind, ← hlen]
        split_ifs
        · exact .err _
        · exact .ok hlen
    · rw [he]
      exact .err _

theorem decodeH3Datagram_alike (hstream : d.streamId = d'.streamId)
    (h : SameFront 8 d.payload d'.payload) :
    Alike (fun p p' => p.length = p'.length) (a.decodeH3Datagram d) (a.decodeH3Datagram d') := by
  cases henabled : a.session.isH3DatagramEnabled with
  | true =>
    rw [decodeH3Datagram_of_enabled henabled, decodeH3Datagram_of_enabled henabled]
    exact receive_alike _ hstream h
  | false =>
    obtain ⟨e, _, _, he⟩ := refuses_of_not_h3Datagram henabled
    rw [he, he]
    exact .err e

theorem decodeDatagramCapsule_alike {c c' : DatagramCapsule}
    (hstream : c.datagram.streamId = c'.datagram.streamId)
    (h : SameFront 8 c.datagram.payload c'.datagram.payload) :
    Alike (fun p p' => p.length = p'.length) (a.decodeDatagramCapsule c)
      (a.decodeDatagramCapsule c') := by
  cases henabled : a.session.isDatagramCapsuleEnabled with
  | true =>
    rw [decodeDatagramCapsule_of_enabled henabled, decodeDatagramCapsule_of_enabled henabled]
    exact receive_alike _ hstream h
  | false =>
    obtain ⟨e, _, _, he⟩ := refuses_of_not_datagramCapsule henabled
    rw [he, he]
    exact .err e

/-- No byte of a payload gets into an error: of two messages of one length with the same
headers, the receiving side refuses both with one and the same error, or neither. A frame has
at most sixteen bytes of headers, a capsule at most twenty-four. -/
theorem errors_hide_payload (a : UdpAssociation) (bs bs' : List UInt8)
    (hlength : bs.length = bs'.length) :
    (bs.take 16 = bs'.take 16 →
      Alike (fun p p' => p.length = p'.length)
        (HttpDatagram.decodeH3 bs >>= a.decodeH3Datagram)
        (HttpDatagram.decodeH3 bs' >>= a.decodeH3Datagram)) ∧
    (bs.take 24 = bs'.take 24 → ∀ streamId,
      Alike (fun p p' => p.length = p'.length)
        (DatagramCapsule.decode bs streamId >>= fun r => a.decodeDatagramCapsule r.1)
        (DatagramCapsule.decode bs' streamId >>= fun r => a.decodeDatagramCapsule r.1)) := by
  refine ⟨fun htake => ?_, fun htake streamId => ?_⟩
  · have hfront : SameFront (8 + 8) bs bs' := ⟨hlength, htake⟩
    exact (HttpDatagram.decodeH3_alike hfront).bind fun d d' h => decodeH3Datagram_alike h.1 h.2
  · have hfront : SameFront (8 + 16) bs bs' := ⟨hlength, htake⟩
    exact (DatagramCapsule.decode_alike streamId hfront).bind fun r r' h =>
      decodeDatagramCapsule_alike h.1 h.2

/-- Two frames for a Context ID that is not supported, with other payloads. -/
theorem errors_hide_payload_context :
    Alike (fun p p' => p.length = p'.length)
      (HttpDatagram.decodeH3 (0x01 :: 0x05 :: List.replicate 14 0x00 ++ [0x07]) >>=
        h3Association.decodeH3Datagram)
      (HttpDatagram.decodeH3 (0x01 :: 0x05 :: List.replicate 14 0x00 ++ [0x08]) >>=
        h3Association.decodeH3Datagram) :=
  (errors_hide_payload h3Association (0x01 :: 0x05 :: List.replicate 14 0x00 ++ [0x07])
    (0x01 :: 0x05 :: List.replicate 14 0x00 ++ [0x08]) rfl).1 rfl

end UdpAssociation

end Masque

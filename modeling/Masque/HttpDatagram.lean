import Masque.QuicVarint

/-!
# HTTP Datagrams

The datagrams of `datagram.rs`: a payload on a client-initiated bidirectional stream, and
its HTTP/3 encoding behind a quarter stream ID.
-/

namespace Masque

open Outcome QuicVarint

/-- `MAX_QUARTER_STREAM_ID`. -/
def maxQuarterStreamId : UInt64 := ((1 : UInt64) <<< 60) - 1

/-- A stream ID that is a varint and divisible by four. -/
structure ValidStreamId (streamId : UInt64) : Prop where
  le_max : streamId ≤ maxVarint
  mod_four : streamId % 4 = 0

theorem ValidStreamId.of_checks {streamId : UInt64} (hmax : ¬ maxVarint < streamId)
    (hmod : ¬ streamId % 4 ≠ 0) : ValidStreamId streamId :=
  ⟨UInt64.not_lt.mp hmax, not_not.mp hmod⟩

/-- An HTTP Datagram with its stream. -/
structure HttpDatagram where
  streamId : UInt64
  payload : List UInt8
  valid : ValidStreamId streamId
  deriving DecidableEq

namespace HttpDatagram

/-- `validate_stream_id`; what it lets through is a valid stream ID. -/
def validateStreamId (streamId : UInt64) : Result (PLift (ValidStreamId streamId)) :=
  if hmax : maxVarint < streamId then
    .err (.h3Datagram .generic "stream ID exceeds the maximum QUIC stream ID")
  else if hmod : streamId % 4 ≠ 0 then
    .err (.h3Datagram .generic "stream ID is not a client-initiated bidirectional stream ID")
  else
    .ok ⟨.of_checks hmax hmod⟩

def new (streamId : UInt64) (payload : List UInt8) : Result HttpDatagram := do
  let valid ← validateStreamId streamId
  return { streamId, payload, valid := valid.down }

def encodeH3 (d : HttpDatagram) : Result (List UInt8) := do
  let varint ← QuicVarint.encode (d.streamId / 4)
  return varint ++ d.payload

/-- Four times a quarter stream ID does not overflow. -/
theorem toNat_mul_four {q : UInt64} (h : q ≤ maxQuarterStreamId) :
    (q * 4).toNat = 4 * q.toNat := by
  have hq : q.toNat ≤ 1152921504606846975 := UInt64.le_iff_toNat_le.mp h
  rw [UInt64.toNat_mul, Nat.mul_comm]
  exact Nat.mod_eq_of_lt (by change 4 * q.toNat < 18446744073709551616; omega)

/-- Four times a quarter stream ID is a valid stream ID. -/
theorem validStreamId_mul_four {q : UInt64} (h : q ≤ maxQuarterStreamId) :
    ValidStreamId (q * 4) := by
  have hq : q.toNat ≤ 1152921504606846975 := UInt64.le_iff_toNat_le.mp h
  have hmul := toNat_mul_four h
  constructor
  · rw [toNat_lt_capacity, hmul, TaggedInt.capacity_three]
    omega
  · apply UInt64.toNat_inj.mp
    rw [UInt64.toNat_mod, hmul]
    exact Nat.mul_mod_right 4 _

def decodeH3 (buf : List UInt8) : Result HttpDatagram := do
  let (quarterStreamId, consumed) ← (QuicVarint.decode buf).mapErr
    (.h3DatagramWithSource .invalidVarint "invalid quarter stream ID")
  if h : maxQuarterStreamId < quarterStreamId then
    .err (.h3Datagram .varintOutOfRange "quarter stream ID exceeds 2^60 - 1")
  else do
    let payload ← sliceFrom buf consumed
    return {
      streamId := quarterStreamId * 4
      payload
      valid := validStreamId_mul_four (UInt64.not_lt.mp h) }

/-- Datagrams on a valid stream can be built, with the stream and payload given. -/
theorem new_eq_ok {s : UInt64} {p : List UInt8} {d : HttpDatagram} :
    new s p = .ok d ↔ d.streamId = s ∧ d.payload = p := by
  unfold new validateStreamId
  split_ifs with hmax hmod
  · simp only [err_bind, reduceCtorEq, false_iff]
    rintro ⟨rfl, _⟩
    exact absurd hmax (UInt64.not_lt.mpr d.valid.le_max)
  · simp only [err_bind, reduceCtorEq, false_iff]
    rintro ⟨rfl, _⟩
    exact hmod d.valid.mod_four
  · simp only [ok_bind, pure_eq, ok.injEq]
    constructor
    · rintro rfl
      exact ⟨rfl, rfl⟩
    · rintro ⟨rfl, rfl⟩
      rfl

/-- A quarter of a valid stream ID is a quarter stream ID, and four times it is the stream
ID again. -/
theorem quarter_spec {s : UInt64} (h : ValidStreamId s) :
    s / 4 ≤ maxQuarterStreamId ∧ s / 4 * 4 = s := by
  have hle : s.toNat ≤ 4611686018427387903 := UInt64.le_iff_toNat_le.mp h.le_max
  have hmod : s.toNat % 4 = 0 := by
    have := congrArg UInt64.toNat h.mod_four
    rwa [UInt64.toNat_mod] at this
  have hdiv : (s / 4).toNat = s.toNat / 4 := UInt64.toNat_div s 4
  constructor
  · rw [UInt64.le_iff_toNat_le, hdiv]
    change s.toNat / 4 ≤ 1152921504606846975
    omega
  · apply UInt64.toNat_inj.mp
    rw [UInt64.toNat_mul, hdiv]
    change s.toNat / 4 * 4 % 18446744073709551616 = s.toNat
    omega

/-- An intermediary that re-frames a datagram hands on the same datagram. -/
theorem decodeH3_encodeH3 (d : HttpDatagram) :
    ∃ bytes, d.encodeH3 = .ok bytes ∧ decodeH3 bytes = .ok d := by
  obtain ⟨hquarter, hmul⟩ := quarter_spec d.valid
  have hvarint : d.streamId / 4 ≤ maxVarint := UInt64.le_trans hquarter (by decide)
  have hdecode : QuicVarint.decode
      (TaggedInt.canonical (d.streamId / 4).toNat ++ d.payload) = .ok (d.streamId / 4, _) :=
    decode_eq_ok.mpr (TaggedInt.decode_canonical_append (toNat_lt_capacity.mp hvarint) d.payload)
  refine ⟨_, by rw [encodeH3, QuicVarint.encode_eq hvarint]; rfl, ?_⟩
  rw [decodeH3, hdecode]
  simp only [mapErr_ok, ok_bind, dif_neg (UInt64.not_lt.mpr hquarter)]
  rw [sliceFrom_append _ _ (TaggedInt.length_canonical _).symm]
  obtain ⟨streamId, payload, valid⟩ := d
  simp only [ok_bind, pure_eq, ok.injEq, HttpDatagram.mk.injEq, and_true]
  exact hmul

end HttpDatagram

end Masque

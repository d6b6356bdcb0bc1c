import Masque.HttpDatagram

/-!
# The HTTP/3 Datagram codec

`decodeH3` accepts exactly the buffers that begin with a quarter stream ID, of any width,
and `encodeH3` writes it in the least, so it gives back the buffer exactly when its varint
was in shortest form.
-/

namespace Masque.HttpDatagram

open Outcome QuicVarint TaggedInt

theorem encodeH3_eq (d : HttpDatagram) :
    d.encodeH3 = .ok (canonical (d.streamId.toNat / 4) ++ d.payload) := by
  have hvarint : d.streamId / 4 ≤ maxVarint :=
    UInt64.le_trans (quarter_spec d.valid).1 (by decide)
  have hdiv : (d.streamId / 4).toNat = d.streamId.toNat / 4 := UInt64.toNat_div _ 4
  rw [encodeH3, QuicVarint.encode_eq hvarint, ok_bind, hdiv]
  rfl

theorem ofNat_le_maxQuarterStreamId {q : ℕ} (h : q ≤ 2 ^ 60 - 1) :
    (UInt64.ofNat q).toNat = q ∧ UInt64.ofNat q ≤ maxQuarterStreamId := by
  have hnat : (UInt64.ofNat q).toNat = q :=
    UInt64.toNat_ofNat_of_lt' (by rw [UInt64.size]; omega)
  rw [UInt64.le_iff_toNat_le, hnat]
  exact ⟨rfl, h⟩

/-- A buffer is accepted exactly when a quarter stream ID is at its front; the rest of it
is the payload. -/
theorem decodeH3_eq_ok {buf : List UInt8} {d : HttpDatagram} :
    decodeH3 buf = .ok d ↔
      ∃ q n, TaggedInt.decode buf = some (q, n) ∧ q ≤ 2 ^ 60 - 1 ∧ d.streamId.toNat = 4 * q ∧
        d.payload = buf.drop n := by
  constructor
  · intro h
    obtain ⟨⟨v, n⟩, hv, h⟩ := bind_eq_ok.mp h
    have hdecode := QuicVarint.decode_eq_ok.mp (mapErr_eq_ok.mp hv)
    dsimp only at h
    split_ifs at h with hmax
    rw [sliceFrom_eq_ok (TaggedInt.framing.next_le hdecode), ok_bind] at h
    obtain rfl := ok.inj h
    have hle := UInt64.not_lt.mp hmax
    exact ⟨v.toNat, n, hdecode, UInt64.le_iff_toNat_le.mp hle, toNat_mul_four hle, rfl⟩
  · rintro ⟨q, n, hdecode, hle, hstream, hpayload⟩
    obtain ⟨hnat, hmax⟩ := ofNat_le_maxQuarterStreamId hle
    have hvarint : QuicVarint.decode buf = .ok (UInt64.ofNat q, n) :=
      QuicVarint.decode_eq_ok.mpr (hnat.symm ▸ hdecode)
    rw [decodeH3, hvarint, mapErr_ok, ok_bind]
    dsimp only
    rw [dif_neg (UInt64.not_lt.mpr hmax), sliceFrom_eq_ok (TaggedInt.framing.next_le hdecode),
      ok_bind]
    obtain ⟨streamId, payload, valid⟩ := d
    dsimp only at hstream hpayload
    simp only [pure_eq, ok.injEq, HttpDatagram.mk.injEq, hpayload, and_true]
    apply UInt64.toNat_inj.mp
    rw [toNat_mul_four hmax, hnat, hstream]

theorem validateStreamId_eq_ok (d : HttpDatagram) :
    validateStreamId d.streamId = .ok ⟨d.valid⟩ := by
  unfold validateStreamId
  rw [dif_neg (UInt64.not_lt.mpr d.valid.le_max), dif_neg (not_not.mpr d.valid.mod_four)]

/-- Equal bytes carry equal datagrams. -/
theorem encodeH3_injective {d d' : HttpDatagram} {e : List UInt8} (h : d.encodeH3 = .ok e)
    (h' : d'.encodeH3 = .ok e) : d = d' := by
  obtain ⟨bytes, hbytes, hdecode⟩ := decodeH3_encodeH3 d
  obtain ⟨bytes', hbytes', hdecode'⟩ := decodeH3_encodeH3 d'
  obtain rfl := ok.inj (h.symm.trans hbytes)
  obtain rfl := ok.inj (h'.symm.trans hbytes')
  exact ok.inj (hdecode.symm.trans hdecode')

/-- The HTTP/3 framing is exact: encoding never panics and is undone by decoding, decoding
accepts exactly the buffers with a quarter stream ID in front, and encoding again gives the
buffer exactly when that was in shortest form. -/
theorem h3_framing_exact :
    (∀ d : HttpDatagram, ∃ e, d.encodeH3 = .ok e ∧ decodeH3 e = .ok d) ∧
    (∀ buf, (∃ d, decodeH3 buf = .ok d) ↔
      ∃ q n, TaggedInt.decode buf = some (q, n) ∧ q ≤ 2 ^ 60 - 1) ∧
    (∀ buf d q n, decodeH3 buf = .ok d → TaggedInt.decode buf = some (q, n) →
      d.streamId.toNat = 4 * q ∧ validateStreamId d.streamId = .ok ⟨d.valid⟩ ∧
      d.payload = buf.drop n ∧
      ∃ e, d.encodeH3 = .ok e ∧ e.length ≤ buf.length ∧ (e = buf ↔ IsLeastWidth q n)) ∧
    ∀ (d d' : HttpDatagram) e, d.encodeH3 = .ok e → d'.encodeH3 = .ok e → d = d' := by
  refine ⟨decodeH3_encodeH3, fun buf => ⟨?_, ?_⟩, ?_, fun _ _ _ => encodeH3_injective⟩
  · rintro ⟨d, h⟩
    obtain ⟨q, n, hdecode, hle, -⟩ := decodeH3_eq_ok.mp h
    exact ⟨q, n, hdecode, hle⟩
  · rintro ⟨q, n, hdecode, hle⟩
    obtain ⟨hnat, hmax⟩ := ofNat_le_maxQuarterStreamId hle
    refine ⟨⟨UInt64.ofNat q * 4, buf.drop n, validStreamId_mul_four hmax⟩,
      decodeH3_eq_ok.mpr ⟨q, n, hdecode, hle, ?_, rfl⟩⟩
    rw [toNat_mul_four hmax, hnat]
  · intro buf d q n h hdecode
    obtain ⟨q', n', hdecode', -, hstream, hpayload⟩ := decodeH3_eq_ok.mp h
    rw [hdecode] at hdecode'
    obtain ⟨rfl, rfl⟩ := Prod.mk.inj (Option.some.inj hdecode')
    have hle := TaggedInt.framing.next_le hdecode
    have hwidth := width_tag_le hdecode
    refine ⟨hstream, validateStreamId_eq_ok d, hpayload, _, encodeH3_eq d, ?_, ?_⟩
    · rw [hstream, hpayload, Nat.mul_div_cancel_left q (by decide), List.length_append,
        length_canonical, List.length_drop]
      omega
    · rw [hstream, hpayload, Nat.mul_div_cancel_left q (by decide),
        isLeastWidth_iff (lt_capacity_of_decode hdecode), ← take_eq_canonical_iff hdecode]
      -- Both encodings end in the payload, so only the prefixes are compared.
      nth_rewrite 2 [← List.take_append_drop n buf]
      rw [List.append_cancel_right_eq, eq_comm]

end Masque.HttpDatagram

import Masque.Capsule

/-!
# The capsule codec

`Capsule.encode` and `Capsule.decode` are inverse on the whole format. Decoding accepts
every width of the two header varints, encoding emits the least, so the encoder gives back
the decoded bytes exactly when both header varints were in shortest form.
-/

namespace Masque.Capsule

open Outcome QuicVarint TaggedInt

/-- A capsule returned by one of the two constructors. -/
inductive Built (c : Capsule) : Prop where
  | new {t : CapsuleType} {v : List UInt8} (h : Capsule.new t v = .ok c)
  | decoded {buf : List UInt8} {n : ℕ} (h : decode buf = .ok (c, n))

/-- Both header varints at the front of `buf` are in shortest form. -/
def ShortestHeader (buf : List UInt8) : Prop :=
  ∃ t k l m, QuicVarint.decode buf = .ok (t, k) ∧ QuicVarint.decodeAt buf k = .ok (l, m) ∧
    IsLeastWidth t.toNat k ∧ IsLeastWidth l.toNat m

theorem valid_of_decode {buf : List UInt8} {c : Capsule} {n : ℕ} (h : decode buf = .ok (c, n)) :
    c.Valid := by
  obtain ⟨k, hk, _⟩ := format_next_eq_some.mp (decode_eq_ok.mp h)
  exact header_length_lt hk

/-- `decode` does not go through `new`, but it builds the same capsules. -/
theorem built_iff_valid {c : Capsule} : c.Built ↔ c.Valid := by
  constructor
  · rintro (h | h)
    · exact (new_eq_ok.mp h).2
    · exact valid_of_decode h
  · intro h
    exact .new (new_eq_ok.mpr ⟨rfl, h⟩)

/-- A decoded buffer starts with the two header varints and the value. -/
theorem decode_parts {buf : List UInt8} {c : Capsule} {n : ℕ} (h : decode buf = .ok (c, n)) :
    ∃ k m, TaggedInt.decode buf = some (c.capsuleType.value.toNat, k) ∧
      TaggedInt.decode (buf.drop k) = some (c.value.length, m) ∧
      n = k + m + c.value.length ∧ n ≤ buf.length ∧
      buf.take n = buf.take k ++ (buf.drop k).take m ++ c.value := by
  obtain ⟨j, hj, hle, hv, rfl⟩ := format_next_eq_some.mp (decode_eq_ok.mp h)
  obtain ⟨k, m, ht, hl, rfl⟩ := header_next_eq_some.mp hj
  refine ⟨k, m, ht, hl, rfl, hle, ?_⟩
  rw [List.take_add, ← hv, List.take_add]

/-- The two header varints in `buf` are shortest exactly when their widths are least. -/
theorem shortestHeader_iff {buf : List UInt8} {t l k m : ℕ}
    (ht : TaggedInt.decode buf = some (t, k))
    (hl : TaggedInt.decode (buf.drop k) = some (l, m)) :
    ShortestHeader buf ↔ k = width (tag t) ∧ m = width (tag l) := by
  have ht3 := lt_capacity_of_decode ht
  have hl3 := lt_capacity_of_decode hl
  constructor
  · rintro ⟨t', k', l', m', hdt, hdl, hk, hm⟩
    have hdt := QuicVarint.decode_eq_ok.mp hdt
    have hdl := QuicVarint.decodeAt_eq_ok.mp hdl
    obtain ⟨rfl, rfl⟩ : t = t'.toNat ∧ k = k' := by simpa [ht] using hdt
    obtain ⟨rfl, rfl⟩ : l = l'.toNat ∧ m = m' := by simpa [hl] using hdl
    exact ⟨(isLeastWidth_iff ht3).mp hk, (isLeastWidth_iff hl3).mp hm⟩
  · rintro ⟨hk, hm⟩
    have htn : (UInt64.ofNat t).toNat = t :=
      UInt64.toNat_ofNat_of_lt' (ht3.trans (by decide))
    have hln : (UInt64.ofNat l).toNat = l :=
      UInt64.toNat_ofNat_of_lt' (hl3.trans (by decide))
    refine ⟨UInt64.ofNat t, k, UInt64.ofNat l, m, ?_, ?_, ?_, ?_⟩
    · exact QuicVarint.decode_eq_ok.mpr (htn.symm ▸ ht)
    · exact QuicVarint.decodeAt_eq_ok.mpr (hln.symm ▸ hl)
    · exact (isLeastWidth_iff (htn.symm ▸ ht3)).mpr (htn.symm ▸ hk)
    · exact (isLeastWidth_iff (hln.symm ▸ hl3)).mpr (hln.symm ▸ hm)

/-- Re-encoding never grows a decoded capsule. -/
theorem length_wire_le_of_decode {buf : List UInt8} {c : Capsule} {n : ℕ}
    (h : decode buf = .ok (c, n)) : c.wire.length ≤ n := by
  obtain ⟨k, m, ht, hl, rfl, _, _⟩ := decode_parts h
  have hk := width_tag_le ht
  have hm := width_tag_le hl
  rw [length_wire]
  omega

/-- Re-encoding gives the decoded bytes back exactly when their header was in shortest
form. -/
theorem wire_eq_take_iff {buf : List UInt8} {c : Capsule} {n : ℕ}
    (h : decode buf = .ok (c, n)) : c.wire = buf.take n ↔ ShortestHeader buf := by
  obtain ⟨k, m, ht, hl, hn, hle, htake⟩ := decode_parts h
  rw [shortestHeader_iff ht hl]
  constructor
  · intro heq
    have hk := width_tag_le ht
    have hm := width_tag_le hl
    have hlen := congrArg List.length heq
    rw [length_wire, List.length_take, Nat.min_eq_left hle] at hlen
    omega
  · rintro ⟨hk, hm⟩
    rw [htake, wire, (take_eq_canonical_iff ht).mpr hk, (take_eq_canonical_iff hl).mpr hm]

/-- Capsule encoding and decoding are inverse. -/
theorem encode_decode_inverse :
    (∀ c : Capsule, c.Built →
      ∃ e, c.encode = .ok e ∧ ∀ rest, decode (e ++ rest) = .ok (c, e.length)) ∧
    (∀ buf c n, decode buf = .ok (c, n) →
      n ≤ buf.length ∧
      ∃ e, c.encode = .ok e ∧ e.length ≤ n ∧ (e = buf.take n ↔ ShortestHeader buf) ∧
        decode e = .ok (c, e.length)) := by
  refine ⟨fun c hc => ?_, fun buf c n h => ?_⟩
  · have hvalid := built_iff_valid.mp hc
    exact ⟨c.wire, encode_eq hvalid, decode_wire_append hvalid⟩
  · have hvalid := valid_of_decode h
    obtain ⟨_, _, _, _, _, hle, _⟩ := decode_parts h
    refine ⟨hle, c.wire, encode_eq hvalid, length_wire_le_of_decode h, wire_eq_take_iff h, ?_⟩
    simpa using decode_wire_append hvalid []

/-- A capsule with a one-byte value, and a buffer whose type varint is a byte longer than
it has to be. -/
theorem encode_decode_inverse_overlong :
    (∃ e, (Capsule.mk .datagram [7]).encode = .ok e ∧
      ∀ rest, decode (e ++ rest) = .ok (⟨.datagram, [7]⟩, e.length)) ∧
    4 ≤ [0x40, 0x00, 0x01, 0x07, 0xff].length ∧
      ∃ e, (Capsule.mk .datagram [7]).encode = .ok e ∧ e.length ≤ 4 ∧
        (e = [0x40, 0x00, 0x01, 0x07, 0xff].take 4 ↔
          ShortestHeader [0x40, 0x00, 0x01, 0x07, 0xff]) ∧
        decode e = .ok (⟨.datagram, [7]⟩, e.length) :=
  ⟨encode_decode_inverse.1 _ (.new (t := .datagram) (v := [7]) rfl),
    encode_decode_inverse.2 [0x40, 0x00, 0x01, 0x07, 0xff] ⟨.datagram, [7]⟩ 4
      (by decide +kernel)⟩

end Masque.Capsule

import Masque.Capsule

/-!
# The entry points of the varint codec

The four encoders write the same bytes, of the least width, and `decodeAt` reads them back
wherever they stand; `encodeIntoAt` changes nothing else, and nothing at all when it fails;
`decode` reads the announced width and fails only when bytes of it are missing.
-/

namespace Masque.QuicVarint

open Outcome TaggedInt

section IntoAt

variable {v : UInt64} {buf : List UInt8} {offset : ℕ}

theorem encodeIntoAt_of_lt (buf : List UInt8) (offset : ℕ) (h : maxVarint < v) :
    ∃ message, encodeIntoAt v buf offset = (.err (.invalidVarInt .valueTooLarge message), buf) := by
  rw [encodeIntoAt, ensureValid, if_pos h]
  exact ⟨_, rfl⟩

theorem encodeIntoAt_of_overflow (hv : v ≤ maxVarint)
    (h : Usize.size ≤ offset + width (tag v.toNat)) :
    encodeIntoAt v buf offset =
      (.err (.invalidVarInt .offsetOutOfBounds "offset overflow"), buf) := by
  obtain ⟨hlen, -, -⟩ := encodeToArray_spec hv
  have hadd : Usize.checkedAdd offset (width (tag v.toNat)) = none := if_neg (not_lt.mpr h)
  rw [encodeIntoAt, ensureValid_eq_ok hv]
  dsimp only
  rw [hlen, hadd]

theorem encodeIntoAt_of_short (hv : v ≤ maxVarint)
    (hsize : offset + width (tag v.toNat) < Usize.size)
    (h : buf.length < offset + width (tag v.toNat)) :
    encodeIntoAt v buf offset =
      (.err (.invalidVarInt .bufferTooShort "output buffer too short"), buf) := by
  obtain ⟨hlen, -, -⟩ := encodeToArray_spec hv
  rw [encodeIntoAt, ensureValid_eq_ok hv]
  dsimp only
  rw [hlen, Usize.checkedAdd_eq_some hsize]
  exact if_pos h

/-- A call writes the bytes of the value at the offset, or changes nothing. -/
theorem encodeIntoAt_cases (v : UInt64) (buf : List UInt8) (offset : ℕ) :
    (v ≤ maxVarint ∧ offset + width (tag v.toNat) < Usize.size ∧
      offset + width (tag v.toNat) ≤ buf.length ∧
      encodeIntoAt v buf offset = (.ok (width (tag v.toNat)),
        buf.take offset ++ canonical v.toNat ++ buf.drop (offset + width (tag v.toNat)))) ∨
    ∃ kind message, encodeIntoAt v buf offset = (.err (.invalidVarInt kind message), buf) ∧
      ((kind = .valueTooLarge ∧ maxVarint < v) ∨
        (kind = .offsetOutOfBounds ∧ v ≤ maxVarint ∧
          Usize.size ≤ offset + width (tag v.toNat)) ∨
        (kind = .bufferTooShort ∧ v ≤ maxVarint ∧
          buf.length < offset + width (tag v.toNat))) := by
  by_cases hv : v ≤ maxVarint
  · by_cases hsize : offset + width (tag v.toNat) < Usize.size
    · by_cases hfit : offset + width (tag v.toNat) ≤ buf.length
      · exact .inl ⟨hv, hsize, hfit, encodeIntoAt_eq hv hfit hsize⟩
      · exact .inr ⟨_, _, encodeIntoAt_of_short hv hsize (not_le.mp hfit),
          .inr (.inr ⟨rfl, hv, not_le.mp hfit⟩)⟩
    · exact .inr ⟨_, _, encodeIntoAt_of_overflow hv (not_lt.mp hsize),
        .inr (.inl ⟨rfl, hv, not_lt.mp hsize⟩)⟩
  · have hlt := UInt64.not_le.mp hv
    obtain ⟨message, h⟩ := encodeIntoAt_of_lt buf offset hlt
    exact .inr ⟨_, message, h, .inl ⟨rfl, hlt⟩⟩

end IntoAt

/-- The bytes that a decoder reads stand for a valid value. -/
theorem exists_decode_eq_ok {buf : List UInt8} {x n : ℕ} (h : TaggedInt.decode buf = some (x, n)) :
    ∃ v : UInt64, v ≤ maxVarint ∧ v.toNat = x ∧ decode buf = .ok (v, n) := by
  have hlt := lt_capacity_of_decode h
  have hnat : (UInt64.ofNat x).toNat = x := UInt64.toNat_ofNat_of_lt' (hlt.trans (by decide))
  exact ⟨UInt64.ofNat x, toNat_lt_capacity.mpr (hnat.symm ▸ hlt), hnat,
    decode_eq_ok.mpr (hnat.symm ▸ h)⟩

section Announced

variable {b : UInt8} {rest : List UInt8}

/-- Decoding fails exactly when bytes of the announced width are missing. -/
theorem decode_cons_eq_err :
    (∃ e, decode (b :: rest) = .err e) ↔ (b :: rest).length < width (b.toNat / 64) := by
  constructor
  · rintro ⟨e, he⟩
    by_contra hle
    obtain ⟨⟨x, n⟩, hx⟩ :=
      Option.ne_none_iff_exists'.mp fun hnone => hle (decode_cons_eq_none.mp hnone)
    obtain ⟨v, -, -, hv⟩ := exists_decode_eq_ok hx
    rw [he] at hv
    cases hv
  · intro h
    obtain ⟨e, he, -⟩ := decode_eq_err (decode_cons_eq_none.mpr h)
    exact ⟨e, he⟩

/-- The announced bytes decide what is read, and are the encoder's when their number is
the least width. -/
theorem decode_of_announced (h : width (b.toNat / 64) ≤ (b :: rest).length) :
    ∃ x ≤ maxVarint,
      (∀ buf, buf.take (width (b.toNat / 64)) = (b :: rest).take (width (b.toNat / 64)) →
        decode buf = .ok (x, width (b.toNat / 64))) ∧
      (encode x = .ok ((b :: rest).take (width (b.toNat / 64))) ↔
        IsLeastWidth x.toNat (width (b.toNat / 64))) := by
  have hread : TaggedInt.decode (b :: rest) = some (_, width (b.toNat / 64)) :=
    decode_eq_some.mpr ⟨b, rest, rfl, rfl, h, rfl⟩
  obtain ⟨x, hx, hnat, -⟩ := exists_decode_eq_ok hread
  rw [← hnat] at hread
  refine ⟨x, hx, fun buf htake => decode_eq_ok.mpr (decode_of_take_eq hread htake), ?_⟩
  rw [encode_eq hx, ok.injEq, isLeastWidth_iff (toNat_lt_capacity.mp hx),
    ← take_eq_canonical_iff hread, eq_comm]

end Announced

/-- All entry points agree: the encoders write the same bytes of the least width and change
nothing else, they are read back wherever they stand, and the decoder reads exactly the
announced width. -/
theorem entry_points_agree :
    (∀ v ≤ maxVarint, ∃ e, encode v = .ok e ∧ tryEncode v = .ok e ∧
      e.length = Capsule.varintLen v ∧ IsLeastWidth v.toNat e.length ∧
      (∀ buf offset, offset + e.length ≤ buf.length → offset + e.length < Usize.size →
        encodeIntoAt v buf offset =
          (.ok e.length, buf.take offset ++ e ++ buf.drop (offset + e.length))) ∧
      (∀ buf, e.length ≤ buf.length →
        encodeInto v buf = (.ok e.length, e ++ buf.drop e.length)) ∧
      ∀ front back, decodeAt (front ++ e ++ back) front.length = .ok (v, e.length)) ∧
    (∀ v buf offset,
      (v ≤ maxVarint ∧ offset + Capsule.varintLen v < Usize.size ∧
        offset + Capsule.varintLen v ≤ buf.length ∧
        (encodeIntoAt v buf offset).1 = .ok (Capsule.varintLen v)) ∨
      ∃ kind message, encodeIntoAt v buf offset = (.err (.invalidVarInt kind message), buf) ∧
        ((kind = .valueTooLarge ∧ maxVarint < v) ∨
          (kind = .offsetOutOfBounds ∧ v ≤ maxVarint ∧
            Usize.size ≤ offset + Capsule.varintLen v) ∨
          (kind = .bufferTooShort ∧ v ≤ maxVarint ∧
            buf.length < offset + Capsule.varintLen v))) ∧
    ∀ b rest,
      ((∃ e, decode (b :: rest) = .err e) ↔ (b :: rest).length < 2 ^ (b >>> 6).toNat) ∧
      (2 ^ (b >>> 6).toNat ≤ (b :: rest).length → ∃ x ≤ maxVarint,
        (∀ buf, buf.take (2 ^ (b >>> 6).toNat) = (b :: rest).take (2 ^ (b >>> 6).toNat) →
          decode buf = .ok (x, 2 ^ (b >>> 6).toNat)) ∧
        (encode x = .ok ((b :: rest).take (2 ^ (b >>> 6).toNat)) ↔
          IsLeastWidth x.toNat (2 ^ (b >>> 6).toNat))) := by
  refine ⟨fun v hv => ?_, fun v buf offset => ?_, fun b rest => ?_⟩
  · have hcap := toNat_lt_capacity.mp hv
    refine ⟨canonical v.toNat, encode_eq hv, tryEncode_eq hv, ?_, ?_, ?_, ?_, ?_⟩
    · rw [length_canonical, Capsule.varintLen_eq]
    · rw [length_canonical, isLeastWidth_iff hcap]
    · intro buf offset hfit hsize
      rw [length_canonical] at hfit hsize ⊢
      exact encodeIntoAt_eq hv hfit hsize
    · intro buf hfit
      rw [length_canonical] at hfit ⊢
      exact encodeInto_eq hv hfit
    · intro front back
      rw [decodeAt_eq_ok, List.append_assoc, List.drop_left, length_canonical]
      exact decode_canonical_append hcap back
  · rw [Capsule.varintLen_eq]
    rcases encodeIntoAt_cases v buf offset with ⟨hv, hsize, hfit, h⟩ | h
    · exact .inl ⟨hv, hsize, hfit, by rw [h]⟩
    · exact .inr h
  · have hshift : (b >>> 6).toNat = b.toNat / 64 := by
      revert b
      decide +kernel
    have hwidth : 2 ^ (b >>> 6).toNat = width (b.toNat / 64) := by rw [hshift, width]
    rw [hwidth]
    exact ⟨decode_cons_eq_err, decode_of_announced⟩

end Masque.QuicVarint

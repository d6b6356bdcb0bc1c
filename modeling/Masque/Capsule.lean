import Masque.QuicVarint

/-!
# Capsules

The Capsule Protocol message of `capsule.rs`: a type varint, a length varint and a value.
`Capsule.format` is the wire format in the abstract, a header of two tagged integers and
the payload the second one declares; `Capsule.decode_eq_ok` says that the decoder reads it.
-/

namespace Masque

open Outcome QuicVarint

/-- A capsule type: a value that fits in a varint. -/
structure CapsuleType where
  value : UInt64
  value_le : value ≤ maxVarint
  deriving DecidableEq

namespace CapsuleType

/-- `CapsuleType::DATAGRAM`. -/
def datagram : CapsuleType := ⟨0, by decide⟩

def new (value : UInt64) : Result CapsuleType :=
  if h : value ≤ maxVarint then
    .ok ⟨value, h⟩
  else
    .err (.h3Datagram .varintOutOfRange s!"capsule type {value} exceeds maximum varint value")

def isDatagram (t : CapsuleType) : Bool := t.value == 0

def isUnknown (t : CapsuleType) : Bool := t.value != 0

theorem new_eq_ok_iff {v : UInt64} {t : CapsuleType} : new v = .ok t ↔ t.value = v := by
  unfold new
  split
  · next h =>
    rw [ok.injEq]
    exact ⟨fun h => h ▸ rfl, fun h => by cases t; cases h; rfl⟩
  · next h =>
    simp only [reduceCtorEq, false_iff]
    rintro rfl
    exact h t.value_le

theorem isUnknown_eq_not (t : CapsuleType) : t.isUnknown = !t.isDatagram := rfl

theorem isDatagram_iff (t : CapsuleType) : t.isDatagram = true ↔ t.value.toNat = 0 := by
  rw [isDatagram, beq_iff_eq, ← UInt64.toNat_inj]
  rfl

end CapsuleType

/-- A Capsule Protocol message. -/
structure Capsule where
  capsuleType : CapsuleType
  value : List UInt8
  deriving DecidableEq

namespace Capsule

def validateLength (len : ℕ) : Result Unit :=
  match Usize.toU64 len with
  | none => .err (.h3Datagram .lengthTooLarge "capsule value length exceeds u64")
  | some lenU64 =>
    if maxVarint < lenU64 then
      .err (.h3Datagram .varintOutOfRange "capsule value length exceeds maximum varint")
    else
      .ok ()

def new (capsuleType : CapsuleType) (value : List UInt8) : Result Capsule := do
  validateLength value.length
  return { capsuleType, value }

def length (c : Capsule) : UInt64 := UInt64.ofNat c.value.length

def encode (c : Capsule) : Result (List UInt8) := do
  let (typeLen, typeBuf) := QuicVarint.encodeInto c.capsuleType.value (List.replicate 8 0)
  let typeLen ← typeLen
  let (lengthLen, lengthBuf) := QuicVarint.encodeInto c.length (List.replicate 8 0)
  let lengthLen ← lengthLen
  let typeBytes ← slice typeBuf 0 typeLen
  let lengthBytes ← slice lengthBuf 0 lengthLen
  return typeBytes ++ lengthBytes ++ c.value

def varintLen (value : UInt64) : ℕ :=
  if value ≤ 0x3f then 1
  else if value ≤ 0x3fff then 2
  else if value ≤ 0x3fffffff then 4
  else 8

/-- `encode_into`: the result and the buffer after the call. -/
def encodeInto (c : Capsule) (buf : List UInt8) : Result ℕ × List UInt8 :=
  let typeLen := varintLen c.capsuleType.value
  let lengthLen := varintLen c.length
  let valueLen := c.value.length
  match (Usize.checkedAdd typeLen lengthLen).bind (Usize.checkedAdd · valueLen) with
  | none => (.err (.h3Datagram .lengthOverflow "encoded capsule overflow"), buf)
  | some totalLen =>
    if buf.length < totalLen then
      (.err (.invalidVarInt .bufferTooShort "output buffer too short"), buf)
    else
      -- From here on an error would leave the buffer partly written.
      match QuicVarint.encodeIntoAt c.capsuleType.value buf 0 with
      | (.err e, buf) => (.err e, buf)
      | (.panic, buf) => (.panic, buf)
      | (.ok typeWritten, buf) =>
        let offset := 0 + typeWritten
        match QuicVarint.encodeIntoAt c.length buf offset with
        | (.err e, buf) => (.err e, buf)
        | (.panic, buf) => (.panic, buf)
        | (.ok lengthWritten, buf) =>
          let offset := offset + lengthWritten
          match copyFromSlice buf offset (offset + valueLen) c.value with
          | .ok buf => (.ok totalLen, buf)
          | .err e => (.err e, buf)
          | .panic => (.panic, buf)

def mapVarintErr (err : Error) : Error :=
  .h3DatagramWithSource .invalidVarint "malformed capsule varint" err

def decode (buf : List UInt8) : Result (Capsule × ℕ) := do
  let (capsuleTypeValue, offset) ← (QuicVarint.decode buf).mapErr mapVarintErr
  let capsuleType ← CapsuleType.new capsuleTypeValue
  let (length, consumed) ← (QuicVarint.decodeAt buf offset).mapErr mapVarintErr
  let offset := offset + consumed
  let length ← ofOption
    (.h3Datagram .lengthTooLarge "capsule length exceeds platform usize") (Usize.ofU64 length)
  let stop ← ofOption
    (.h3Datagram .lengthOverflow "capsule length overflow") (Usize.checkedAdd offset length)
  if buf.length < stop then
    .err (.h3Datagram .truncated "capsule value truncated")
  else do
    let value ← slice buf offset stop
    return ({ capsuleType, value }, stop)

/-- `varint_len` is the number of bytes that the encoder writes. -/
theorem varintLen_eq (v : UInt64) :
    varintLen v = TaggedInt.width (TaggedInt.tag v.toNat) := by
  obtain ⟨h0, h1, h2⟩ := le_iff_lt_capacity v
  simp only [varintLen, h0, h1, h2, TaggedInt.tag]
  split_ifs <;> rfl

section Validity

/-- The capsules the crate can build: the length of the value fits in a varint. -/
def Valid (c : Capsule) : Prop := c.value.length < TaggedInt.capacity 3

theorem validateLength_eq_ok {len : ℕ} :
    validateLength len = .ok () ↔ len < TaggedInt.capacity 3 := by
  unfold validateLength Usize.toU64
  by_cases hsize : len < Usize.size
  · have hnat : (UInt64.ofNat len).toNat = len := UInt64.toNat_ofNat_of_lt' hsize
    have hcap : len < TaggedInt.capacity 3 ↔ UInt64.ofNat len ≤ maxVarint := by
      rw [toNat_lt_capacity, hnat]
    rw [if_pos hsize, hcap]
    dsimp only
    split_ifs with h
    · exact iff_of_false (by simp) (UInt64.not_le.mpr h)
    · exact iff_of_true rfl (UInt64.not_lt.mp h)
  · rw [if_neg hsize]
    simp only [Usize.size, TaggedInt.capacity_three, reduceCtorEq, false_iff] at hsize ⊢
    omega

theorem new_eq_ok {t : CapsuleType} {v : List UInt8} {c : Capsule} :
    new t v = .ok c ↔ c = ⟨t, v⟩ ∧ c.Valid := by
  rw [new, bind_eq_ok]
  constructor
  · rintro ⟨⟨⟩, hlen, h⟩
    cases h
    exact ⟨rfl, validateLength_eq_ok.mp hlen⟩
  · rintro ⟨rfl, hvalid⟩
    exact ⟨(), validateLength_eq_ok.mpr hvalid, rfl⟩

theorem toNat_length {c : Capsule} (h : c.Valid) : c.length.toNat = c.value.length :=
  UInt64.toNat_ofNat_of_lt' (Nat.lt_trans h (by decide))

end Validity

section Format

open TaggedInt

/-- The header of a capsule: its type and the length of its value. -/
def header : Framing UInt8 (ℕ × ℕ) := TaggedInt.framing.prod TaggedInt.framing

/-- The wire format of a capsule. -/
def format : Framing UInt8 ((ℕ × ℕ) × List UInt8) := header.withPayload Prod.snd

theorem header_local : header.Local := framing_local.prod framing_local

theorem header_next_eq_some {s : List UInt8} {t l n : ℕ} :
    header.next s = some ((t, l), n) ↔
      ∃ k m, TaggedInt.decode s = some (t, k) ∧ TaggedInt.decode (s.drop k) = some (l, m) ∧
        n = k + m :=
  Framing.prod_next_eq_some _

theorem header_next_eq_none {s : List UInt8} :
    header.next s = none ↔ TaggedInt.decode s = none ∨
      ∃ t k, TaggedInt.decode s = some (t, k) ∧ TaggedInt.decode (s.drop k) = none :=
  Framing.prod_next_eq_none _

theorem header_le_sixteen {s : List UInt8} {t l n : ℕ}
    (h : header.next s = some ((t, l), n)) : n ≤ 16 := by
  obtain ⟨k, m, ht, hl, rfl⟩ := header_next_eq_some.mp h
  have hk := width_le_of_decode ht
  have hm := width_le_of_decode hl
  omega

theorem header_two_le {s : List UInt8} {t l n : ℕ}
    (h : header.next s = some ((t, l), n)) : 2 ≤ n := by
  obtain ⟨k, m, ht, hl, rfl⟩ := header_next_eq_some.mp h
  have hk := TaggedInt.framing.next_pos ht
  have hm := TaggedInt.framing.next_pos hl
  omega

theorem header_length_lt {s : List UInt8} {t l n : ℕ}
    (h : header.next s = some ((t, l), n)) : l < capacity 3 := by
  obtain ⟨k, m, _, hl, _⟩ := header_next_eq_some.mp h
  exact lt_capacity_of_decode hl

theorem format_next_eq_some {s v : List UInt8} {t l n : ℕ} :
    format.next s = some (((t, l), v), n) ↔
      ∃ k, header.next s = some ((t, l), k) ∧ k + l ≤ s.length ∧ v = (s.drop k).take l ∧
        n = k + l :=
  Framing.withPayload_next_eq_some _

theorem exists_capsuleType_of_decode {s : List UInt8} {t n : ℕ}
    (h : TaggedInt.decode s = some (t, n)) : ∃ ty : CapsuleType, ty.value.toNat = t := by
  have hlt := lt_capacity_of_decode h
  have hnat : (UInt64.ofNat t).toNat = t :=
    UInt64.toNat_ofNat_of_lt' (hlt.trans (by decide))
  exact ⟨⟨UInt64.ofNat t, toNat_lt_capacity.mpr (hnat.symm ▸ hlt)⟩, hnat⟩

/-- The two varints of a complete header, as both decoders read them: neither the length
nor the end of the capsule is too large for a `usize`. -/
theorem varints_of_header {buf : List UInt8} {t : CapsuleType} {l k : ℕ}
    (h : header.next buf = some ((t.value.toNat, l), k)) :
    ∃ a b length, QuicVarint.decode buf = .ok (t.value, a) ∧
      QuicVarint.decodeAt buf a = .ok (length, b) ∧ Usize.ofU64 length = some l ∧ k = a + b ∧
      Usize.checkedAdd (a + b) l = some (a + b + l) := by
  obtain ⟨a, b, ht, hl, rfl⟩ := header_next_eq_some.mp h
  have ha := width_le_of_decode ht
  have hb := width_le_of_decode hl
  have hcap : l < 4611686018427387904 := lt_capacity_of_decode hl
  have hnat : (UInt64.ofNat l).toNat = l := UInt64.toNat_ofNat_of_lt' (by rw [UInt64.size]; omega)
  refine ⟨a, b, UInt64.ofNat l, QuicVarint.decode_eq_ok.mpr ht,
    QuicVarint.decodeAt_eq_ok.mpr (hnat.symm ▸ hl), ?_, rfl,
    Usize.checkedAdd_eq_some (by rw [Usize.size]; omega)⟩
  rw [Usize.ofU64_eq_some, hnat]

/-- Without a complete header one of the two varints is cut off. -/
theorem varints_of_header_eq_none {buf : List UInt8} (h : header.next buf = none) :
    (∃ e, QuicVarint.decode buf = .err e ∧ IsIncomplete e) ∨
      ∃ (t : CapsuleType) (a : ℕ) (e : Error), QuicVarint.decode buf = .ok (t.value, a) ∧
        QuicVarint.decodeAt buf a = .err e ∧ IsIncomplete e := by
  rcases header_next_eq_none.mp h with ht | ⟨t, k, ht, hl⟩
  · exact .inl (decode_eq_err ht)
  · obtain ⟨ty, rfl⟩ := exists_capsuleType_of_decode ht
    obtain ⟨e, he⟩ := decodeAt_eq_err hl (TaggedInt.framing.next_pos ht)
    exact .inr ⟨ty, k, e, QuicVarint.decode_eq_ok.mpr ht, he⟩

/-- A complete header decides what the decoder does: it returns the value, or reports
that bytes of it are missing. -/
theorem decode_of_header {buf : List UInt8} {t : CapsuleType} {l k : ℕ}
    (h : header.next buf = some ((t.value.toNat, l), k)) :
    decode buf =
      if buf.length < k + l then .err (.h3Datagram .truncated "capsule value truncated")
      else .ok (⟨t, (buf.drop k).take l⟩, k + l) := by
  obtain ⟨a, b, length, htype, hlength, husize, rfl, hstop⟩ := varints_of_header h
  simp only [decode, htype, mapErr_ok, ok_bind, CapsuleType.new_eq_ok_iff.mpr rfl, hlength,
    husize, ofOption_some, hstop]
  split_ifs with hshort
  · rfl
  · rw [slice_eq_ok (by omega) (by omega), List.drop_take, Nat.add_sub_cancel_left]
    rfl

/-- Without a complete header the decoder reports a varint error. -/
theorem decode_of_header_eq_none {buf : List UInt8} (h : header.next buf = none) :
    ∃ source, decode buf = .err (mapVarintErr source) := by
  rcases varints_of_header_eq_none h with ⟨e, he, _⟩ | ⟨t, a, e, ht, he, _⟩
  · exact ⟨e, by simp only [decode, he, mapErr_err, err_bind]⟩
  · exact ⟨e, by simp only [decode, ht, he, mapErr_ok, mapErr_err, ok_bind, err_bind,
      CapsuleType.new_eq_ok_iff.mpr rfl]⟩

/-- Every complete header has a valid type. -/
theorem header_cases (buf : List UInt8) :
    header.next buf = none ∨
      ∃ (t : CapsuleType) (l k : ℕ), header.next buf = some ((t.value.toNat, l), k) := by
  cases h : header.next buf with
  | none => exact .inl rfl
  | some p =>
    obtain ⟨⟨t, l⟩, k⟩ := p
    obtain ⟨_, _, ht, _⟩ := header_next_eq_some.mp h
    obtain ⟨ty, rfl⟩ := exists_capsuleType_of_decode ht
    exact .inr ⟨ty, l, k, rfl⟩

/-- The decoder reads exactly the wire format. -/
theorem decode_eq_ok {buf : List UInt8} {c : Capsule} {n : ℕ} :
    decode buf = .ok (c, n) ↔
      format.next buf =
        some (((c.capsuleType.value.toNat, c.value.length), c.value), n) := by
  rw [format_next_eq_some]
  rcases header_cases buf with h | ⟨t, l, k, h⟩
  · obtain ⟨e, he⟩ := decode_of_header_eq_none h
    simp [he, h]
  · rw [decode_of_header h, h]
    split_ifs with hshort
    · simp only [Option.some.injEq, Prod.mk.injEq, false_iff]
      rintro ⟨_, ⟨⟨_, rfl⟩, rfl⟩, hle, _⟩
      omega
    · have hlen : ((buf.drop k).take l).length = l := by simp; omega
      simp only [ok.injEq, Option.some.injEq, Prod.mk.injEq]
      constructor
      · rintro ⟨rfl, rfl⟩
        exact ⟨k, ⟨⟨rfl, hlen.symm⟩, rfl⟩, by dsimp only; omega, by rw [hlen], by rw [hlen]⟩
      · rintro ⟨_, ⟨⟨hty, hl⟩, rfl⟩, _, hv, rfl⟩
        obtain ⟨⟨t', _⟩, v⟩ := c
        obtain ⟨t, _⟩ := t
        dsimp only at hty hl hv
        obtain rfl := UInt64.toNat_inj.mp hty
        subst hl
        exact ⟨by rw [← hv], rfl⟩

/-- `Capsule::decode` as a reader of frames. -/
def framing : Framing UInt8 Capsule where
  next s := (decode s).toOption
  next_pos h := format.next_pos (decode_eq_ok.mp (toOption_eq_some.mp h))
  next_le h := format.next_le (decode_eq_ok.mp (toOption_eq_some.mp h))
  next_append t h := toOption_eq_some.mpr
    (decode_eq_ok.mpr (format.next_append t (decode_eq_ok.mp (toOption_eq_some.mp h))))

/-- The canonical encoding of a capsule. -/
def wire (c : Capsule) : List UInt8 :=
  canonical c.capsuleType.value.toNat ++ canonical c.value.length ++ c.value

theorem encode_eq {c : Capsule} (h : c.Valid) : c.encode = .ok c.wire := by
  have hlen : c.length ≤ maxVarint := toNat_lt_capacity.mpr ((toNat_length h).symm ▸ h)
  simp only [encode, encodeInto_zeros c.capsuleType.value_le, encodeInto_zeros hlen, ok_bind,
    toNat_length h]
  rw [slice_zero_append _ _ (length_canonical _).symm, ok_bind,
    slice_zero_append _ _ (length_canonical _).symm, ok_bind]
  rfl

theorem header_wire_append {c : Capsule} (h : c.Valid) (t : List UInt8) :
    header.next (c.wire ++ t) = some ((c.capsuleType.value.toNat, c.value.length),
      width (tag c.capsuleType.value.toNat) + width (tag c.value.length)) := by
  have htype := toNat_lt_capacity.mp c.capsuleType.value_le
  refine header_next_eq_some.mpr ⟨_, _, ?_, ?_, rfl⟩
  · rw [wire, List.append_assoc, List.append_assoc]
    exact decode_canonical_append htype _
  · rw [wire, List.append_assoc, List.append_assoc, List.drop_left' (length_canonical _)]
    exact decode_canonical_append h _

theorem length_wire (c : Capsule) : c.wire.length =
    width (tag c.capsuleType.value.toNat) + width (tag c.value.length) + c.value.length := by
  simp [wire, Nat.add_assoc]

/-- A canonical encoding is decoded, whatever follows it. -/
theorem decode_wire_append {c : Capsule} (h : c.Valid) (t : List UInt8) :
    decode (c.wire ++ t) = .ok (c, c.wire.length) := by
  have hle : c.wire.length ≤ (c.wire ++ t).length := by simp
  rw [decode_of_header (header_wire_append h t), if_neg (by rw [length_wire] at hle; omega),
    ← length_wire]
  rw [wire, List.append_assoc, List.drop_left' (by simp), List.take_left]

end Format

end Capsule

end Masque

import Masque.Capsule
import Masque.HttpDatagram

/-!
# DATAGRAM capsules

The capsules of `datagram_capsule.rs`: an HTTP Datagram carried on its request stream,
which therefore does not appear on the wire.
-/

namespace Masque

open Outcome

/-- A DATAGRAM capsule. -/
structure DatagramCapsule where
  datagram : HttpDatagram
  deriving DecidableEq

namespace DatagramCapsule

/-- `encode_into`: the result and the new contents of the vector. -/
def encodeInto (c : DatagramCapsule) (buf : List UInt8) : Result Unit × List UInt8 :=
  let payload := c.datagram.payload
  let header : Result (List UInt8) := do
    let (typeLen, typeBuf) :=
      QuicVarint.encodeInto CapsuleType.datagram.value (List.replicate 8 0)
    let typeLen ← typeLen
    let (lengthLen, lengthBuf) :=
      QuicVarint.encodeInto (UInt64.ofNat payload.length) (List.replicate 8 0)
    let lengthLen ← lengthLen
    let typeBytes ← slice typeBuf 0 typeLen
    let lengthBytes ← slice lengthBuf 0 lengthLen
    return typeBytes ++ lengthBytes
  match header with
  | .ok bytes => (.ok (), buf ++ bytes ++ payload)
  | .err e => (.err e, buf)
  | .panic => (.panic, buf)

def encode (c : DatagramCapsule) : Result (List UInt8) := do
  let (result, buf) := c.encodeInto []
  result
  return buf

def decode (buf : List UInt8) (streamId : UInt64) : Result (DatagramCapsule × ℕ) := do
  let (capsule, consumed) ← Capsule.decode buf
  if capsule.capsuleType.isDatagram then do
    let datagram ← HttpDatagram.new streamId capsule.value
    return (⟨datagram⟩, consumed)
  else
    let digits := String.ofList (Nat.toDigits 16 capsule.capsuleType.value.toNat)
    .err (.h3Datagram .unexpectedCapsuleType s!"expected DATAGRAM capsule, got type 0x{digits}")

/-- The capsule on the wire. -/
def toCapsule (c : DatagramCapsule) : Capsule := ⟨.datagram, c.datagram.payload⟩

/-- A payload whose length is a varint is appended as its capsule. -/
theorem encodeInto_eq {c : DatagramCapsule} (h : c.toCapsule.Valid) (buf : List UInt8) :
    c.encodeInto buf = (.ok (), buf ++ c.toCapsule.wire) := by
  have hnat : (UInt64.ofNat c.datagram.payload.length).toNat = c.datagram.payload.length :=
    Capsule.toNat_length h
  have hlen : UInt64.ofNat c.datagram.payload.length ≤ QuicVarint.maxVarint :=
    QuicVarint.toNat_lt_capacity.mpr (hnat.symm ▸ h)
  simp only [encodeInto, QuicVarint.encodeInto_zeros CapsuleType.datagram.value_le,
    QuicVarint.encodeInto_zeros hlen, ok_bind, hnat]
  rw [slice_zero_append _ _ (TaggedInt.length_canonical _).symm, ok_bind,
    slice_zero_append _ _ (TaggedInt.length_canonical _).symm, ok_bind]
  simp only [pure_eq, List.append_assoc]
  rfl

/-- A DATAGRAM capsule is read exactly where the generic decoder reads a capsule of its type,
on a valid stream. -/
theorem decode_eq_ok {buf : List UInt8} {s : UInt64} {c : DatagramCapsule} {n : ℕ} :
    decode buf s = .ok (c, n) ↔
      Capsule.decode buf = .ok (c.toCapsule, n) ∧ c.datagram.streamId = s := by
  constructor
  · intro h
    obtain ⟨⟨capsule, n'⟩, hcapsule, h⟩ := bind_eq_ok.mp h
    dsimp only at h
    split_ifs at h with htype
    obtain ⟨datagram, hnew, h⟩ := bind_eq_ok.mp h
    obtain ⟨rfl, rfl⟩ := Prod.mk.inj (ok.inj h)
    obtain ⟨hstream, hpayload⟩ := HttpDatagram.new_eq_ok.mp hnew
    obtain ⟨⟨t, _⟩, v⟩ := capsule
    obtain rfl : t = 0 := beq_iff_eq.mp htype
    subst hpayload
    exact ⟨hcapsule, hstream⟩
  · rintro ⟨hcapsule, rfl⟩
    have htype : c.toCapsule.capsuleType.isDatagram = true := rfl
    have hnew : HttpDatagram.new c.datagram.streamId c.toCapsule.value = .ok c.datagram :=
      HttpDatagram.new_eq_ok.mpr ⟨rfl, rfl⟩
    rw [decode, hcapsule, ok_bind]
    simp only [htype, if_true, hnew, ok_bind, pure_eq]

end DatagramCapsule

end Masque

import Masque.ConnectUdp.PercentCoding

/-!
# Query values

The coding of query values loses nothing and puts out unreserved characters and triples
only. Its inverse accepts exactly the values whose percent signs all begin a triple and
whose bytes, with each triple replaced, are a text.
-/

namespace Masque.ConnectUdpRequest

open Outcome Utf8 Percent

/-- The loop of `decode_query_value`, without the early return in front of it. -/
def decodeQueryValueLoop (value : String) : Result String :=
  decodePercentLoop (fun decoded _ _ => .ok [decoded]) "query"
    "has an incomplete percent-encoding sequence"
    "has an invalid percent-encoding sequence"
    "is not valid UTF-8" value

/-- The parts of an encoded value: an unreserved character, or a percent sign with two
upper-case hexadecimal digits. -/
inductive EncodedUnit : List Char → Prop
  | plain {c : Char} (hc : Unreserved c) : EncodedUnit [c]
  | triple {h l : Char} (hh : h ∈ "0123456789ABCDEF".toList)
      (hl : l ∈ "0123456789ABCDEF".toList) : EncodedUnit ['%', h, l]

theorem mem_of_hexDigit : ∀ n : UInt8, n < 16 →
    Char.ofNat (hexDigit n).toNat ∈ "0123456789ABCDEF".toList := by
  decide +kernel

theorem digitValue_lt (b n : UInt8) (h : digitValue b = some n) : n < 16 := by
  have hall : ∀ b : UInt8, (digitValue b).getD 0 < 16 := by decide +kernel
  have := hall b
  rwa [h] at this

/-- A byte is encoded as one unit. -/
theorem encodedUnit_encodeByte (b : UInt8) :
    EncodedUnit ((encodeByte isUnreserved hexDigit b).map fun b => Char.ofNat b.toNat) := by
  unfold encodeByte
  split_ifs with hb
  · exact .plain ((isUnreserved_iff b).mp hb)
  · exact .triple (mem_of_hexDigit _ (shiftRight_lt b)) (mem_of_hexDigit _ (and_lt b))

/-- An encoded value is a sequence of units. -/
theorem exists_units (input : String) :
    ∃ units : List (List Char), (encodeQueryValue input).toList = units.flatten ∧
      ∀ unit ∈ units, EncodedUnit unit := by
  refine ⟨(bytes input).map fun b =>
    (encodeByte isUnreserved hexDigit b).map fun b => Char.ofNat b.toNat, ?_, ?_⟩
  · rw [encodeQueryValue, String.toList_ofList, List.map_flatMap, List.flatMap_def]
  · intro unit hunit
    obtain ⟨b, -, rfl⟩ := List.mem_map.mp hunit
    exact encodedUnit_encodeByte b

/-- A value is decoded exactly when the scan meets no malformed triple and the unescaped
bytes are a text. -/
theorem decodeQueryValue_iff_unescape {value t : String} :
    decodeQueryValue value = .ok t ↔ ¬Meets digitValue (Malformed digitValue) (bytes value) ∧
      decode (unescape digitValue (bytes value)) = some t := by
  rw [decodeQueryValue_eq_ok, decode_eq_some]
  constructor
  · intro h
    exact ⟨exists_scans_iff.mp ⟨_, h⟩, (h.unescape digitValue_lt).symm⟩
  · rintro ⟨hmeets, ht⟩
    obtain ⟨out, hout⟩ := exists_scans_iff.mpr hmeets
    rw [Decodes, ht, hout.unescape digitValue_lt]
    exact hout

/-- Query values survive their coding, which puts out nothing but units; decoding accepts
exactly the well-formed values, with or without its early return; and it returns on every
input, its loop within as many rounds as there are bytes. -/
theorem queryValue_lossless :
    (∀ s, (∃ units : List (List Char), (encodeQueryValue s).toList = units.flatten ∧
        ∀ unit ∈ units, EncodedUnit unit) ∧
      decodeQueryValue (encodeQueryValue s) = .ok s) ∧
    (∀ v t, decodeQueryValue v = .ok t ↔ ¬Meets digitValue (Malformed digitValue) (bytes v) ∧
      decode (unescape digitValue (bytes v)) = some t) ∧
    (∀ v, decodeQueryValue v = decodeQueryValueLoop v) ∧
    (∀ v, decodeQueryValue v ≠ .panic) ∧
    ∀ v (incomplete invalid : Error),
      scanFor hexValue (fun decoded _ _ => .ok [decoded]) incomplete invalid (bytes v).length
          (bytes v) 0 [] =
        some (scanFrom hexValue (fun decoded _ _ => .ok [decoded]) incomplete invalid
          (bytes v) 0 []) := by
  refine ⟨fun s => ⟨exists_units s, decodeQueryValue_encodeQueryValue s⟩,
    fun v t => decodeQueryValue_iff_unescape, fun v => decodePercent_eq_loop emits_decoded,
    decodeQueryValue_total, fun v incomplete invalid => ?_⟩
  exact scanFor_eq (by omega) []

end Masque.ConnectUdpRequest

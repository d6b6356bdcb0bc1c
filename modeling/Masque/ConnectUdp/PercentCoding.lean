import Masque.ConnectUdp.Hosts
import Masque.Library.PercentNormal

/-!
# Percent-coding of query values and paths

The two decoders compute their relations on bytes, the early return for values without a
percent sign included, and decoding undoes encoding.
-/

namespace Masque.ConnectUdpRequest

open Outcome Utf8 Percent

/-! ## Digits and unreserved characters -/

/-- The value of a hexadecimal digit in upper or lower case. -/
def digitValue (b : UInt8) : Option UInt8 :=
  ("0123456789ABCDEF".toList.idxOf? (Char.ofNat b.toNat) <|>
    "0123456789abcdef".toList.idxOf? (Char.ofNat b.toNat)).map UInt8.ofNat

theorem hexValue_eq : hexValue = digitValue := by
  have hall : ∀ b, hexValue b = digitValue b := by decide +kernel
  exact funext hall

/-- The byte is an unreserved character. -/
def unreservedByte (b : UInt8) : Bool := decide (Unreserved (Char.ofNat b.toNat))

theorem isUnreserved_iff : ∀ b : UInt8,
    isUnreserved b = true ↔ Unreserved (Char.ofNat b.toNat) := by
  decide +kernel

theorem isUnreserved_eq : isUnreserved = unreservedByte := by
  funext b
  rw [Bool.eq_iff_iff, isUnreserved_iff, unreservedByte, decide_eq_true_iff]

/-- What a decoded query value stands for. -/
def Decodes : List UInt8 → List UInt8 → Prop :=
  Scans digitValue fun v _ _ => [v]

/-- What a path segment is normalized to. -/
def Normalizes : List UInt8 → List UInt8 → Prop :=
  Scans digitValue (normal unreservedByte)

/-! ## Decoding -/

/-- The loop of `decodePercent`, without the early return in front of it. -/
def decodePercentLoop (emit : UInt8 → List UInt8 → ℕ → Result (List UInt8))
    (field incomplete malformed notUtf8 : String) (value : String) : Result String := do
  let out ← scanFrom hexValue emit (.invalidConnectUdpRequest field incomplete)
    (.invalidConnectUdpRequest field malformed) (bytes value) 0 []
  ofOption (.invalidConnectUdpRequest field notUtf8) (decode out)

section DecodePercent

variable {emit : UInt8 → List UInt8 → ℕ → Result (List UInt8)}
  {image : UInt8 → UInt8 → UInt8 → List UInt8}
  {field incomplete malformed notUtf8 value : String}

theorem decodePercentLoop_eq (hemit : Emits emit image) :
    decodePercentLoop emit field incomplete malformed notUtf8 value = (do
      let out ← scan hexValue image (.invalidConnectUdpRequest field incomplete)
        (.invalidConnectUdpRequest field malformed) (bytes value)
      ofOption (.invalidConnectUdpRequest field notUtf8) (decode out)) := by
  have hscan : scanFrom hexValue emit (Error.invalidConnectUdpRequest field incomplete)
      (Error.invalidConnectUdpRequest field malformed) (bytes value) 0 [] =
      scan hexValue image (Error.invalidConnectUdpRequest field incomplete)
        (Error.invalidConnectUdpRequest field malformed) (bytes value) := by
    refine (scanFrom_append hemit [] (bytes value) []).trans ?_
    cases scan hexValue image (Error.invalidConnectUdpRequest field incomplete)
      (Error.invalidConnectUdpRequest field malformed) (bytes value) <;> rfl
  rw [decodePercentLoop, hscan]

theorem decodePercentLoop_eq_ok (hemit : Emits emit image) {t : String} :
    decodePercentLoop emit field incomplete malformed notUtf8 value = .ok t ↔
      Scans hexValue image (bytes value) (bytes t) := by
  rw [decodePercentLoop_eq hemit]
  constructor
  · intro h
    obtain ⟨out, hout, h⟩ := bind_eq_ok.mp h
    rw [decode_eq_some.mp (ofOption_eq_ok.mp h)]
    exact scan_eq_ok.mp hout
  · intro h
    rw [scan_eq_ok.mpr h, ok_bind, decode_bytes, ofOption_some]

/-- The early return agrees with the loop. -/
theorem decodePercent_eq_loop (hemit : Emits emit image) :
    decodePercent emit field incomplete malformed notUtf8 value =
      decodePercentLoop emit field incomplete malformed notUtf8 value := by
  unfold decodePercent
  split_ifs with h
  · have hnone : ascii '%' ∉ bytes value := by
      intro hmem
      rw [Bool.not_eq_true', List.any_eq_false] at h
      exact h _ hmem (beq_self_eq_true _)
    exact ((decodePercentLoop_eq_ok hemit).mpr (scans_of_notMem hnone)).symm
  · rfl

/-- A value is decoded exactly as the relation says, with or without the early return. -/
theorem decodePercent_eq_ok (hemit : Emits emit image) {t : String} :
    decodePercent emit field incomplete malformed notUtf8 value = .ok t ↔
      Scans hexValue image (bytes value) (bytes t) := by
  rw [decodePercent_eq_loop hemit]
  exact decodePercentLoop_eq_ok hemit

/-- No index is out of bounds. -/
theorem decodePercent_total (hemit : Emits emit image) :
    decodePercent emit field incomplete malformed notUtf8 value ≠ .panic := by
  rw [decodePercent_eq_loop hemit, decodePercentLoop_eq hemit]
  exact bind_ne_panic (scan_total _) fun out _ => ofOption_ne_panic _ (decode out)

/-- The error for bytes that are no UTF-8 is made only when the scan got through. -/
theorem decodePercent_eq_err (hemit : Emits emit image) {e : Error}
    (h : decodePercent emit field incomplete malformed notUtf8 value = .err e) :
    e = .invalidConnectUdpRequest field incomplete ∨
      e = .invalidConnectUdpRequest field malformed ∨
      ∃ out, Scans hexValue image (bytes value) out ∧ decode out = none := by
  have hreturns : (∃ out, scan hexValue image (Error.invalidConnectUdpRequest field incomplete)
      (Error.invalidConnectUdpRequest field malformed) (bytes value) = .ok out) ∨ _ :=
    scan_returns (bytes value)
  rw [decodePercent_eq_loop hemit, decodePercentLoop_eq hemit] at h
  rcases hreturns with ⟨out, hout⟩ | herr | herr
  · rw [hout, ok_bind] at h
    cases hdecode : decode out with
    | none => exact .inr (.inr ⟨out, scan_eq_ok.mp hout, hdecode⟩)
    | some t =>
      rw [hdecode] at h
      cases h
  · rw [herr, err_bind] at h
    exact .inl (err.inj h).symm
  · rw [herr, err_bind] at h
    exact .inr (.inl (err.inj h).symm)

end DecodePercent

theorem emits_decoded :
    Emits (fun decoded _ _ => (.ok [decoded] : Result (List UInt8))) fun v _ _ => [v] :=
  fun _ _ _ _ _ => rfl

theorem emits_normalized :
    Emits (fun decoded bytes i =>
      if isUnreserved decoded then (.ok [decoded] : Result _) else slice bytes i (i + 3))
      (normal unreservedByte) := by
  intro v pre h l rest
  rw [← isUnreserved_eq, normal]
  dsimp only
  split_ifs with hv
  · rfl
  · rw [slice_eq_ok (by omega) (by simp)]
    simp [List.take_append]

theorem decodeQueryValue_eq_ok {value t : String} :
    decodeQueryValue value = .ok t ↔ Decodes (bytes value) (bytes t) := by
  rw [Decodes, ← hexValue_eq]
  exact decodePercent_eq_ok emits_decoded

theorem normalizePathSegment_eq_ok {segment t : String} :
    normalizePathSegment segment = .ok t ↔ Normalizes (bytes segment) (bytes t) := by
  rw [Normalizes, ← hexValue_eq]
  exact decodePercent_eq_ok emits_normalized

theorem decodeQueryValue_total (value : String) : decodeQueryValue value ≠ .panic :=
  decodePercent_total emits_decoded

theorem normalizePathSegment_total (segment : String) :
    normalizePathSegment segment ≠ .panic :=
  decodePercent_total emits_normalized

/-! ## Encoding -/

theorem hexValue_hexDigit : ∀ n : UInt8, n < 16 → hexValue (hexDigit n) = some n := by
  decide

theorem isUnreserved_hexDigit : ∀ n : UInt8, n < 16 → isUnreserved (hexDigit n) = true := by
  decide

/-- The encoder puts out unreserved characters and percent signs. -/
theorem of_mem_encodeByte {b c : UInt8} (h : c ∈ encodeByte isUnreserved hexDigit b) :
    isUnreserved c = true ∨ c = ascii '%' := by
  unfold encodeByte at h
  split_ifs at h with hb
  · exact .inl (List.mem_singleton.mp h ▸ hb)
  · rcases List.mem_cons.mp h with rfl | h
    · exact .inr rfl
    · rcases List.mem_cons.mp h with rfl | h
      · exact .inl (isUnreserved_hexDigit _ (shiftRight_lt b))
      · exact .inl (List.mem_singleton.mp h ▸ isUnreserved_hexDigit _ (and_lt b))

/-- A character that an encoded value may hold. -/
def IsEncoded (b : UInt8) : Prop := isUnreserved b = true ∨ b = ascii '%'

instance : DecidablePred IsEncoded := fun b =>
  inferInstanceAs (Decidable (isUnreserved b = true ∨ b = ascii '%'))

theorem lt_of_isEncoded : ∀ b : UInt8, IsEncoded b → b.toNat < 128 := by
  decide

theorem isEncoded_of_mem {bs : List UInt8} {c : UInt8}
    (h : c ∈ bs.flatMap (encodeByte isUnreserved hexDigit)) : IsEncoded c := by
  obtain ⟨b, -, hc⟩ := List.mem_flatMap.mp h
  exact of_mem_encodeByte hc

theorem bytes_encodeQueryValue (input : String) :
    bytes (encodeQueryValue input) =
      (bytes input).flatMap (encodeByte isUnreserved hexDigit) := by
  rw [encodeQueryValue, bytes, String.toList_ofList]
  exact encode_map_ofNat fun b hb => lt_of_isEncoded b (isEncoded_of_mem hb)

/-- An encoded value holds none of the characters that structure a URI. -/
theorem notMem_encodeQueryValue {c : Char} (hc : c.toNat < 128) (h : ¬IsEncoded (ascii c))
    (input : String) : c ∉ (encodeQueryValue input).toList := by
  intro hmem
  have := (ascii_mem_encode hc).mpr hmem
  change ascii c ∈ bytes (encodeQueryValue input) at this
  rw [bytes_encodeQueryValue] at this
  exact h (isEncoded_of_mem this)

/-- Percent-coding a query value loses nothing. -/
theorem decodeQueryValue_encodeQueryValue (input : String) :
    decodeQueryValue (encodeQueryValue input) = .ok input := by
  rw [decodeQueryValue_eq_ok, bytes_encodeQueryValue, Decodes, ← hexValue_eq]
  exact scans_encode isUnreserved hexDigit (by decide) hexValue_hexDigit (bytes input)

end Masque.ConnectUdpRequest

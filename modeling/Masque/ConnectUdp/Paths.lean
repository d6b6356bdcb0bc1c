import Masque.ConnectUdp.QueryValues

/-!
# Paths

Normalization of a path fails exactly at a malformed triple, is idempotent, and leaves no
triple of an unreserved character. So the one accepted path has just the spellings in which
each letter stands for itself or is encoded once.
-/

namespace Masque.ConnectUdpRequest

open Outcome Utf8 Percent

/-- The loop of `normalize_path_segment`, without the early return in front of it. -/
def normalizePathSegmentLoop (segment : String) : Result String :=
  decodePercentLoop
    (fun decoded bytes i =>
      if isUnreserved decoded then .ok [decoded] else slice bytes i (i + 3)) "path"
    "path has an incomplete percent-encoding sequence"
    "path has an invalid percent-encoding sequence"
    "path is not valid UTF-8" segment

theorem digitValue_ascii (b n : UInt8) (h : digitValue b = some n) : b.toNat < 128 := by
  have hall : ∀ b : UInt8, (digitValue b).isSome = true → b.toNat < 128 := by decide +kernel
  exact hall b (h ▸ rfl)

theorem unreservedByte_ascii : ∀ b : UInt8, unreservedByte b = true → b.toNat < 128 := by
  decide +kernel

/-- A triple is normalized to ASCII. -/
theorem normal_ascii {h l hi lo : UInt8} (hhi : digitValue h = some hi)
    (hlo : digitValue l = some lo) :
    ∀ b ∈ normal unreservedByte (join hi lo) h l, b.toNat < 128 := by
  intro b hb
  unfold normal at hb
  split_ifs at hb with hv
  · rw [List.mem_singleton.mp hb]
    exact unreservedByte_ascii _ hv
  · rcases List.mem_cons.mp hb with rfl | hb
    · decide
    · rcases List.mem_cons.mp hb with rfl | hb
      · exact digitValue_ascii _ _ hhi
      · rw [List.mem_singleton.mp hb]
        exact digitValue_ascii _ _ hlo

/-- A text is normalized to a text. -/
theorem Normalizes.exists_text {segment : String} {out : List UInt8}
    (h : Normalizes (bytes segment) out) : ∃ t, out = bytes t := by
  have hscans : Scans digitValue (normal unreservedByte) (encode segment.toList) out := h
  obtain ⟨ds, rfl⟩ := hscans.exists_encode digitValue_ascii fun _ _ _ _ => normal_ascii
  exact ⟨String.ofList ds, by rw [bytes, String.toList_ofList]⟩

/-- Normalization succeeds exactly when the scan meets no malformed triple. -/
theorem exists_normalizePathSegment {segment : String} :
    (∃ t, normalizePathSegment segment = .ok t) ↔
      ¬Meets digitValue (Malformed digitValue) (bytes segment) := by
  constructor
  · rintro ⟨t, h⟩
    exact exists_scans_iff.mp ⟨_, normalizePathSegment_eq_ok.mp h⟩
  · intro h
    obtain ⟨out, hout⟩ := exists_scans_iff.mpr h
    obtain ⟨t, rfl⟩ := Normalizes.exists_text hout
    exact ⟨t, normalizePathSegment_eq_ok.mpr hout⟩

theorem normalizePathSegment_eq_err {segment : String} :
    (∃ e, normalizePathSegment segment = .err e) ↔
      Meets digitValue (Malformed digitValue) (bytes segment) := by
  rw [← not_iff_not, ← exists_normalizePathSegment]
  have htotal := normalizePathSegment_total segment
  cases h : normalizePathSegment segment with
  | ok t => simp
  | err e => simp
  | panic => exact absurd h htotal

/-- What the loop puts out for a text is valid UTF-8. -/
theorem normalizePathSegment_utf8 (segment : String) :
    normalizePathSegment segment ≠ invalid "path" "path is not valid UTF-8" := by
  intro h
  -- The errors of the scan have other texts.
  rcases decodePercent_eq_err emits_normalized h with h | h | ⟨out, hout, hnone⟩
  · exact absurd (Error.invalidConnectUdpRequest.inj h).2 (by decide)
  · exact absurd (Error.invalidConnectUdpRequest.inj h).2 (by decide)
  · rw [hexValue_eq] at hout
    obtain ⟨t, rfl⟩ := Normalizes.exists_text hout
    rw [decode_bytes] at hnone
    cases hnone

theorem normalizePathSegment_idempotent {s t : String} (h : normalizePathSegment s = .ok t) :
    normalizePathSegment t = .ok t := by
  have hscans : Scans digitValue (normal unreservedByte) (bytes s) (bytes t) :=
    normalizePathSegment_eq_ok.mp h
  exact normalizePathSegment_eq_ok.mpr (hscans.normal_self (by decide))

/-- The spellings of the accepted path. -/
theorem normalizePathSegment_eq_masque {segment : String} :
    normalizePathSegment segment = .ok "masque" ↔
      ∃ pieces : List (List UInt8), bytes segment = pieces.flatten ∧
        List.Forall₂ (fun c piece => Spells digitValue (ascii c) piece) "masque".toList pieces := by
  have hbytes : bytes "masque" = "masque".toList.map ascii := by decide +kernel
  have hunreserved : ∀ b ∈ bytes "masque", unreservedByte b = true := by decide +kernel
  rw [normalizePathSegment_eq_ok]
  refine (scans_normal_iff digitValue_lt (by decide) hunreserved).trans ?_
  simp only [hbytes, List.forall₂_map_left_iff]

/-- Normalization fails exactly at a malformed triple and never for another reason; its
output is normal, so normalizing again changes nothing and accepts nothing more; and the
accepted path is spelled letter by letter. -/
theorem normalizePathSegment_sound :
    (∀ s, (∃ e, normalizePathSegment s = .err e) ↔
      Meets digitValue (Malformed digitValue) (bytes s)) ∧
    (∀ s, normalizePathSegment s ≠ invalid "path" "path is not valid UTF-8" ∧
      normalizePathSegment s ≠ .panic) ∧
    (∀ s t, normalizePathSegment s = .ok t → normalizePathSegment t = .ok t ∧
      ¬Meets digitValue (Encodes digitValue unreservedByte) (bytes t)) ∧
    (∀ s, normalizePathSegment s = normalizePathSegmentLoop s) ∧
    (∀ s, normalizePathSegment s = .ok "masque" ↔
      ∃ pieces : List (List UInt8), bytes s = pieces.flatten ∧
        List.Forall₂ (fun c piece => Spells digitValue (ascii c) piece) "masque".toList pieces) ∧
    ∀ s t, normalizePathSegment s = .ok t → normalizePathSegment t = .ok "masque" →
      t = "masque" := by
  refine ⟨fun s => normalizePathSegment_eq_err,
    fun s => ⟨normalizePathSegment_utf8 s, normalizePathSegment_total s⟩, fun s t h => ?_,
    fun s => decodePercent_eq_loop emits_normalized,
    fun s => normalizePathSegment_eq_masque, fun s t h hmasque => ?_⟩
  · have hscans : Scans digitValue (normal unreservedByte) (bytes s) (bytes t) :=
      normalizePathSegment_eq_ok.mp h
    exact ⟨normalizePathSegment_idempotent h, hscans.not_meets_encodes (by decide)⟩
  · rw [normalizePathSegment_idempotent h] at hmasque
    exact ok.inj hmasque

end Masque.ConnectUdpRequest

import Masque.Library.Percent

/-!
# Normal percent-coding

Normalization replaces the triples of bytes to keep by these bytes and leaves every other
triple. It is idempotent, no triple of a byte to keep is left where the scan would meet it,
and a text stays a text.
-/

namespace Percent

open Utf8

variable {hex : UInt8 → Option UInt8} {image : UInt8 → UInt8 → UInt8 → List UInt8}

/-! ## Texts -/

/-- Plain bytes in front of the input are copied. -/
theorem Scans.exists_of_append {block rest out : List UInt8} (hblock : ascii '%' ∉ block)
    (h : Scans hex image (block ++ rest) out) :
    ∃ out', out = block ++ out' ∧ Scans hex image rest out' := by
  induction block generalizing out with
  | nil => exact ⟨out, rfl, h⟩
  | cons c block ih =>
    rw [List.mem_cons, not_or] at hblock
    rw [List.cons_append] at h
    generalize htail : block ++ rest = tail at h
    cases h with
    | plain _ h =>
      rw [← htail] at h
      obtain ⟨out', rfl, hout'⟩ := ih hblock.2 h
      exact ⟨out', rfl, hout'⟩
    | triple _ _ _ => exact absurd rfl hblock.1

/-- Where triples are replaced by ASCII, a text stays a text: the digits are characters of
their own, so the bytes of the other characters stay together. -/
theorem Scans.exists_encode (hhex : ∀ b n, hex b = some n → b.toNat < 128)
    (himage : ∀ h l hi lo, hex h = some hi → hex l = some lo →
      ∀ b ∈ image (join hi lo) h l, b.toNat < 128)
    {cs : List Char} {out : List UInt8} (h : Scans hex image (encode cs) out) :
    ∃ ds, out = encode ds := by
  induction hn : cs.length using Nat.strong_induction_on generalizing cs out with
  | _ n ih =>
    cases cs with
    | nil =>
      cases h
      exact ⟨[], rfl⟩
    | cons c cs =>
      by_cases hc : c = '%'
      -- A percent sign begins a triple, whose digits are the next two characters.
      · rw [hc, encode_cons_of_lt (by decide)] at h
        generalize hrest : encode cs = rest at h
        cases h with
        | plain hplain _ => exact absurd rfl hplain
        | @triple d e hi lo more out hhi hlo h' =>
          have hdigits : ∀ b ∈ [d, e], b.toNat < 128 := by
            simp only [List.mem_cons, List.not_mem_nil, or_false, forall_eq_or_imp, forall_eq]
            exact ⟨hhex d hi hhi, hhex e lo hlo⟩
          obtain ⟨ds, es, rfl, hds, rfl⟩ :=
            exists_ascii_prefix (hrest : encode cs = [d, e] ++ more) hdigits
          have hlt : es.length < n := by
            rw [← hn, List.length_cons, List.length_append]
            omega
          obtain ⟨fs, rfl⟩ := ih es.length hlt h' rfl
          refine ⟨(image (join hi lo) d e).map (fun b => Char.ofNat b.toNat) ++ fs, ?_⟩
          rw [encode_append, encode_map_ofNat (himage d e hi lo hhi hlo)]
      -- Any other character is copied byte by byte.
      · have hblock : ascii '%' ∉ String.utf8EncodeChar c := fun hmem =>
          hc (eq_of_ascii_mem (by decide) hmem)
        rw [encode_cons] at h
        obtain ⟨out', rfl, hout'⟩ := h.exists_of_append hblock
        obtain ⟨ds, rfl⟩ := ih cs.length (by simp [← hn]) hout' rfl
        exact ⟨c :: ds, (encode_cons c ds).symm⟩

/-! ## Normal forms -/

variable {keep : UInt8 → Bool}

/-- What a triple is normalized to. -/
def normal (keep : UInt8 → Bool) (v h l : UInt8) : List UInt8 :=
  if keep v then [v] else [ascii '%', h, l]

/-- A triple of a byte to keep. -/
def Encodes (hex : UInt8 → Option UInt8) (keep : UInt8 → Bool) (cs : List UInt8) : Prop :=
  ∃ h l hi lo rest, cs = ascii '%' :: h :: l :: rest ∧ hex h = some hi ∧ hex l = some lo ∧
    keep (join hi lo) = true

/-- A byte to keep is plain. -/
theorem ne_percent_of_keep (hkeep : keep (ascii '%') = false) {b : UInt8} (hb : keep b = true) :
    b ≠ ascii '%' := by
  rintro rfl
  rw [hkeep] at hb
  cases hb

/-- The output is normal. -/
theorem Scans.normal_self (hkeep : keep (ascii '%') = false) {input out : List UInt8}
    (h : Scans hex (normal keep) input out) : Scans hex (normal keep) out out := by
  induction h with
  | nil => exact .nil
  | plain hc _ ih => exact .plain hc ih
  | @triple h l hi lo cs out hhi hlo _ ih =>
    have htriple := Scans.triple hhi hlo ih
    by_cases hv : keep (join hi lo) = true
    · rw [normal, if_pos hv]
      exact .plain (ne_percent_of_keep hkeep hv) ih
    · rw [normal, if_neg hv] at htriple ⊢
      exact htriple

/-- The scan of the output meets no triple of a byte to keep. -/
theorem Scans.not_meets_encodes (hkeep : keep (ascii '%') = false) {input out : List UInt8}
    (h : Scans hex (normal keep) input out) : ¬Meets hex (Encodes hex keep) out := by
  have hplain {c : UInt8} {cs : List UInt8} (hc : c ≠ ascii '%')
      (hcs : ¬Meets hex (Encodes hex keep) cs) : ¬Meets hex (Encodes hex keep) (c :: cs) := by
    rw [meets_plain hc, not_or]
    refine ⟨?_, hcs⟩
    rintro ⟨h, l, hi, lo, rest, heq, -⟩
    exact hc (List.cons.inj heq).1
  induction h with
  | nil =>
    rw [meets_nil]
    rintro ⟨h, l, hi, lo, rest, heq, -⟩
    cases heq
  | plain hc _ ih => exact hplain hc ih
  | @triple h l hi lo cs out hhi hlo _ ih =>
    by_cases hv : keep (join hi lo) = true
    · rw [normal, if_pos hv]
      exact hplain (ne_percent_of_keep hkeep hv) ih
    -- The triple that stays is met first, with the digits it was kept for.
    · rw [normal, if_neg hv]
      refine fun hmeets => ((meets_triple hhi hlo).mp hmeets).elim ?_ ih
      rintro ⟨h', l', hi', lo', rest, heq, hhi', hlo', hv'⟩
      simp only [List.cons.injEq, true_and] at heq
      obtain ⟨rfl, rfl, -⟩ := heq
      rw [hhi] at hhi'
      rw [hlo] at hlo'
      rw [Option.some.inj hhi', Option.some.inj hlo'] at hv
      exact hv hv'

/-- The spellings of a byte: itself, or a triple with its value. -/
def Spells (hex : UInt8 → Option UInt8) (b : UInt8) (piece : List UInt8) : Prop :=
  piece = [b] ∨ ∃ h l hi lo, piece = [ascii '%', h, l] ∧ hex h = some hi ∧ hex l = some lo ∧
    16 * hi + lo = b

section Spellings

variable {input text : List UInt8} {pieces : List (List UInt8)}

/-- What is normalized to bytes to keep spells each of them. -/
theorem Scans.exists_pieces (hhex : ∀ b n, hex b = some n → n < 16)
    (hkeep : keep (ascii '%') = false) (h : Scans hex (normal keep) input text)
    (htext : ∀ b ∈ text, keep b = true) :
    ∃ pieces : List (List UInt8), input = pieces.flatten ∧
      List.Forall₂ (Spells hex) text pieces := by
  induction h with
  | nil => exact ⟨[], rfl, .nil⟩
  | @plain c cs out hc _ ih =>
    rw [List.forall_mem_cons] at htext
    obtain ⟨pieces, rfl, hpieces⟩ := ih htext.2
    exact ⟨[c] :: pieces, rfl, .cons (.inl rfl) hpieces⟩
  | @triple h l hi lo cs out hhi hlo _ ih =>
    by_cases hv : keep (join hi lo) = true
    · rw [normal, if_pos hv, List.singleton_append] at htext ⊢
      rw [List.forall_mem_cons] at htext
      obtain ⟨pieces, rfl, hpieces⟩ := ih htext.2
      refine ⟨[ascii '%', h, l] :: pieces, rfl, .cons (.inr ?_) hpieces⟩
      exact ⟨h, l, hi, lo, rfl, hhi, hlo, (join_eq (hhex h hi hhi) (hhex l lo hlo)).symm⟩
    -- A triple that stayed would leave a percent sign in the text.
    · rw [normal, if_neg hv] at htext
      have hpercent := htext (ascii '%') (by simp)
      rw [hkeep] at hpercent
      cases hpercent

theorem scans_of_pieces (hhex : ∀ b n, hex b = some n → n < 16)
    (hkeep : keep (ascii '%') = false) (h : List.Forall₂ (Spells hex) text pieces)
    (htext : ∀ b ∈ text, keep b = true) :
    Scans hex (normal keep) pieces.flatten text := by
  induction h with
  | nil => exact .nil
  | @cons b piece text pieces hpiece _ ih =>
    rw [List.forall_mem_cons] at htext
    rw [List.flatten_cons]
    rcases hpiece with rfl | ⟨h, l, hi, lo, rfl, hhi, hlo, rfl⟩
    · exact .plain (ne_percent_of_keep hkeep htext.1) (ih htext.2)
    · have htriple := Scans.triple hhi hlo (ih htext.2)
      rw [join_eq (hhex h hi hhi) (hhex l lo hlo), normal, if_pos htext.1] at htriple
      exact htriple

/-- Bytes to keep are the normal form of their spellings, one behind the other. -/
theorem scans_normal_iff (hhex : ∀ b n, hex b = some n → n < 16)
    (hkeep : keep (ascii '%') = false) (htext : ∀ b ∈ text, keep b = true) :
    Scans hex (normal keep) input text ↔
      ∃ pieces : List (List UInt8), input = pieces.flatten ∧
        List.Forall₂ (Spells hex) text pieces := by
  constructor
  · exact fun h => h.exists_pieces hhex hkeep htext
  · rintro ⟨pieces, rfl, hpieces⟩
    exact scans_of_pieces hhex hkeep hpieces htext

end Spellings

end Percent

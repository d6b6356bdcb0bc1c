import Masque.Library.Scan
import Masque.Library.Utf8

/-!
# Percent-coding

A loop over bytes that replaces every triple `%hh` by an image of its value, and percent
encoding. `scanFrom` is the loop with its index, `scan` is the same walk by recursion on
the input, and `Scans` is the relation both compute: a decoder is the instance whose image
is the value itself.
-/

universe u

namespace Percent

open Outcome Utf8

variable {ε : Type u} (hex : UInt8 → Option UInt8) (image : UInt8 → UInt8 → UInt8 → List UInt8)
  (emit : UInt8 → List UInt8 → ℕ → Outcome ε (List UInt8)) (incomplete invalid : ε)

/-- The value of two hexadecimal digits. -/
def join (hi lo : UInt8) : UInt8 := (hi <<< 4) ||| lo

/-- The loop at index `i`, with the output so far. -/
def scanFrom (bytes : List UInt8) (i : ℕ) (out : List UInt8) : Outcome ε (List UInt8) :=
  if h : i < bytes.length then
    if bytes[i] = ascii '%' then
      if bytes.length ≤ i + 2 then .err incomplete
      else do
        let first ← index bytes (i + 1)
        let hi ← ofOption invalid (hex first)
        let second ← index bytes (i + 2)
        let lo ← ofOption invalid (hex second)
        let decoded ← emit (join hi lo) bytes i
        scanFrom bytes (i + 3) (out ++ decoded)
    else scanFrom bytes (i + 1) (out ++ [bytes[i]])
  else .ok out
termination_by bytes.length - i

/-- The walk of the loop, by recursion on what is left of the input. -/
def scan : List UInt8 → Outcome ε (List UInt8)
  | [] => .ok []
  | c :: cs =>
    if c = ascii '%' then
      match cs with
      | h :: l :: cs => do
        let hi ← ofOption invalid (hex h)
        let lo ← ofOption invalid (hex l)
        let out ← scan cs
        return image (join hi lo) h l ++ out
      | _ => .err incomplete
    else do
      let out ← scan cs
      return c :: out

/-- The input is plain bytes and complete triples, and the output replaces the triples. -/
inductive Scans : List UInt8 → List UInt8 → Prop
  | nil : Scans [] []
  | plain {c : UInt8} {cs out : List UInt8} (hc : c ≠ ascii '%') (h : Scans cs out) :
      Scans (c :: cs) (c :: out)
  | triple {h l hi lo : UInt8} {cs out : List UInt8} (hhi : hex h = some hi)
      (hlo : hex l = some lo) (h' : Scans cs out) :
      Scans (ascii '%' :: h :: l :: cs) (image (join hi lo) h l ++ out)

variable {hex image emit incomplete invalid}

/-- The loop puts out the image of every triple it meets. -/
def Emits (emit : UInt8 → List UInt8 → ℕ → Outcome ε (List UInt8))
    (image : UInt8 → UInt8 → UInt8 → List UInt8) : Prop :=
  ∀ v pre h l rest, emit v (pre ++ ascii '%' :: h :: l :: rest) pre.length = .ok (image v h l)

theorem scan_triple (h l : UInt8) (cs : List UInt8) :
    scan hex image incomplete invalid (ascii '%' :: h :: l :: cs) = (do
      let hi ← ofOption invalid (hex h)
      let lo ← ofOption invalid (hex l)
      let out ← scan hex image incomplete invalid cs
      return image (join hi lo) h l ++ out) := by
  rw [scan, if_pos rfl]

theorem scan_plain {c : UInt8} (hc : c ≠ ascii '%') (cs : List UInt8) :
    scan hex image incomplete invalid (c :: cs) = (do
      let out ← scan hex image incomplete invalid cs
      return c :: out) := by
  rcases cs with _ | ⟨h, _ | ⟨l, cs⟩⟩ <;> simp [scan, hc]

/-- The walk takes a plain byte or a triple at a time, and stops at a percent sign with
fewer than two bytes behind it. -/
theorem scan_induction {motive : List UInt8 → Prop} (nil : motive [])
    (plain : ∀ c cs, c ≠ ascii '%' → motive cs → motive (c :: cs))
    (short : ∀ cs, cs.length < 2 → motive (ascii '%' :: cs))
    (triple : ∀ h l cs, motive cs → motive (ascii '%' :: h :: l :: cs)) (input : List UInt8) :
    motive input := by
  induction hn : input.length using Nat.strong_induction_on generalizing input with
  | _ n ih =>
    cases input with
    | nil => exact nil
    | cons c cs =>
      by_cases hc : c = ascii '%'
      · subst hc
        rcases cs with _ | ⟨h, _ | ⟨l, cs⟩⟩
        · exact short [] (by simp)
        · exact short [h] (by simp)
        · exact triple h l cs (ih cs.length (by simp [← hn]; omega) cs rfl)
      · exact plain c cs hc (ih cs.length (by simp [← hn]) cs rfl)

theorem scan_short {cs : List UInt8} (h : cs.length < 2) :
    scan hex image incomplete invalid (ascii '%' :: cs) = .err incomplete := by
  rcases cs with _ | ⟨d, _ | ⟨e, cs⟩⟩
  · simp [scan]
  · simp [scan]
  · simp at h

/-- The loop behind `pre` is the recursion on the rest. -/
theorem scanFrom_append (hemit : Emits emit image) (pre rest out : List UInt8) :
    scanFrom hex emit incomplete invalid (pre ++ rest) pre.length out =
      (out ++ ·) <$> scan hex image incomplete invalid rest := by
  induction rest using scan_induction generalizing pre out with
  | nil => simp [scanFrom, scan]
  | plain c cs hc ih =>
    have hi : pre.length < (pre ++ c :: cs).length := by simp
    have hget : (pre ++ c :: cs)[pre.length] = c := by simp
    have hrest : scanFrom hex emit incomplete invalid (pre ++ c :: cs) (pre.length + 1)
        (out ++ [c]) = (out ++ [c] ++ ·) <$> scan hex image incomplete invalid cs := by
      simpa using ih (pre ++ [c]) (out ++ [c])
    rw [scanFrom, dif_pos hi, hget, if_neg hc, scan_plain hc, hrest]
    cases scan hex image incomplete invalid cs <;> simp
  | short cs hcs =>
    have hi : pre.length < (pre ++ ascii '%' :: cs).length := by simp
    have hget : (pre ++ ascii '%' :: cs)[pre.length] = ascii '%' := by simp
    have hlen : (pre ++ ascii '%' :: cs).length ≤ pre.length + 2 := by
      rw [List.length_append, List.length_cons]
      omega
    rw [scanFrom, dif_pos hi, hget, if_pos rfl, if_pos hlen, scan_short hcs]
    rfl
  | triple h l cs ih =>
    have hi : pre.length < (pre ++ ascii '%' :: h :: l :: cs).length := by simp
    have hget : (pre ++ ascii '%' :: h :: l :: cs)[pre.length] = ascii '%' := by simp
    have hlen : ¬(pre ++ ascii '%' :: h :: l :: cs).length ≤ pre.length + 2 := by simp
    have hfirst : (index (pre ++ ascii '%' :: h :: l :: cs) (pre.length + 1) :
        Outcome ε _) = .ok h := by
      simp [index_eq_ok]
    have hsecond : (index (pre ++ ascii '%' :: h :: l :: cs) (pre.length + 2) :
        Outcome ε _) = .ok l := by
      simp [index_eq_ok]
    have hrest (out : List UInt8) :
        scanFrom hex emit incomplete invalid (pre ++ ascii '%' :: h :: l :: cs)
          (pre.length + 3) out = (out ++ ·) <$> scan hex image incomplete invalid cs := by
      simpa using ih (pre ++ [ascii '%', h, l]) out
    rw [scanFrom, dif_pos hi, hget, if_pos rfl, if_neg hlen, hfirst, hsecond, scan_triple]
    simp only [ok_bind]
    cases hex h with
    | none => rfl
    | some hi =>
      cases hex l with
      | none => rfl
      | some lo =>
        have hout := hemit (join hi lo) pre h l cs
        simp only [ofOption_some, ok_bind, hout, hrest]
        cases scan hex image incomplete invalid cs <;> simp

/-- The recursion computes the relation. -/
theorem scan_eq_ok {input res : List UInt8} :
    scan hex image incomplete invalid input = .ok res ↔ Scans hex image input res := by
  constructor
  · intro h
    induction input using scan_induction generalizing res with
    | nil =>
      obtain rfl := ok.inj h
      exact .nil
    | plain c cs hc ih =>
      rw [scan_plain hc] at h
      obtain ⟨out, hout, h⟩ := bind_eq_ok.mp h
      obtain rfl := ok.inj h
      exact .plain hc (ih hout)
    | short cs hcs =>
      rw [scan_short hcs] at h
      cases h
    | triple d e cs ih =>
      rw [scan_triple] at h
      obtain ⟨hi, hhi, h⟩ := bind_eq_ok.mp h
      obtain ⟨lo, hlo, h⟩ := bind_eq_ok.mp h
      obtain ⟨out, hout, h⟩ := bind_eq_ok.mp h
      obtain rfl := ok.inj h
      exact .triple (ofOption_eq_ok.mp hhi) (ofOption_eq_ok.mp hlo) (ih hout)
  · intro h
    induction h with
    | nil => rfl
    | plain hc _ ih => rw [scan_plain hc, ih, ok_bind, pure_eq]
    | triple hhi hlo _ ih =>
      rw [scan_triple, hhi, hlo, ih]
      rfl

/-- The walk does not panic, and its errors are the two of a percent sign. -/
theorem scan_returns (input : List UInt8) :
    (∃ out, scan hex image incomplete invalid input = .ok out) ∨
      scan hex image incomplete invalid input = .err incomplete ∨
      scan hex image incomplete invalid input = .err invalid := by
  induction input using scan_induction with
  | nil => exact .inl ⟨[], rfl⟩
  | plain c cs hc ih =>
    rw [scan_plain hc]
    rcases ih with ⟨out, h⟩ | h | h
    · exact .inl ⟨c :: out, by rw [h]; rfl⟩
    · exact .inr (.inl (by rw [h]; rfl))
    · exact .inr (.inr (by rw [h]; rfl))
  | short cs hcs => exact .inr (.inl (scan_short hcs))
  | triple d e cs ih =>
    rw [scan_triple]
    cases hex d with
    | none => exact .inr (.inr rfl)
    | some hi =>
      cases hex e with
      | none => exact .inr (.inr rfl)
      | some lo =>
        rcases ih with ⟨out, h⟩ | h | h
        · exact .inl ⟨_, by rw [h]; rfl⟩
        · exact .inr (.inl (by rw [h]; rfl))
        · exact .inr (.inr (by rw [h]; rfl))

theorem scan_total (input : List UInt8) : scan hex image incomplete invalid input ≠ .panic := by
  have hreturns : (∃ out, scan hex image incomplete invalid input = .ok out) ∨ _ :=
    scan_returns input
  intro hpanic
  rw [hpanic] at hreturns
  rcases hreturns with ⟨out, h⟩ | h | h <;> cases h

/-- Input without a percent sign is left as it is. -/
theorem scans_of_notMem {input : List UInt8} (h : ascii '%' ∉ input) :
    Scans hex image input input := by
  induction input with
  | nil => exact .nil
  | cons c cs ih =>
    rw [List.mem_cons, not_or] at h
    exact .plain (Ne.symm h.1) (ih h.2)

section Positions

variable (hex) {Q : List UInt8 → Prop}

/-- The scan of the input reaches a position with `Q` of the rest: it goes on behind a plain
byte and behind a complete triple. -/
inductive Meets (Q : List UInt8 → Prop) : List UInt8 → Prop
  | here {cs : List UInt8} (h : Q cs) : Meets Q cs
  | plain {c : UInt8} {cs : List UInt8} (hc : c ≠ ascii '%') (h : Meets Q cs) : Meets Q (c :: cs)
  | triple {h l hi lo : UInt8} {cs : List UInt8} (hhi : hex h = some hi) (hlo : hex l = some lo)
      (h' : Meets Q cs) : Meets Q (ascii '%' :: h :: l :: cs)

/-- A percent sign without two hexadecimal digits behind it. -/
def Malformed (cs : List UInt8) : Prop :=
  ∃ rest, cs = ascii '%' :: rest ∧
    ¬∃ h l hi lo more, rest = h :: l :: more ∧ hex h = some hi ∧ hex l = some lo

variable {hex}

theorem meets_nil : Meets hex Q [] ↔ Q [] := by
  constructor
  · rintro ⟨h⟩
    exact h
  · exact .here

theorem meets_plain {c : UInt8} (hc : c ≠ ascii '%') {cs : List UInt8} :
    Meets hex Q (c :: cs) ↔ Q (c :: cs) ∨ Meets hex Q cs := by
  constructor
  · intro h
    cases h with
    | here h => exact .inl h
    | plain _ h => exact .inr h
    | triple _ _ _ => exact absurd rfl hc
  · rintro (h | h)
    · exact .here h
    · exact .plain hc h

theorem meets_triple {h l hi lo : UInt8} (hhi : hex h = some hi) (hlo : hex l = some lo)
    {cs : List UInt8} :
    Meets hex Q (ascii '%' :: h :: l :: cs) ↔
      Q (ascii '%' :: h :: l :: cs) ∨ Meets hex Q cs := by
  constructor
  · intro h
    cases h with
    | here h => exact .inl h
    | plain hc _ => exact absurd rfl hc
    | triple _ _ h => exact .inr h
  · rintro (h | h)
    · exact .here h
    · exact .triple hhi hlo h

theorem Scans.not_meets_malformed {input out : List UInt8} (h : Scans hex image input out) :
    ¬Meets hex (Malformed hex) input := by
  induction h with
  | nil =>
    rw [meets_nil]
    rintro ⟨rest, h, -⟩
    cases h
  | plain hc _ ih =>
    rw [meets_plain hc, not_or]
    refine ⟨?_, ih⟩
    rintro ⟨rest, h, -⟩
    exact hc (List.cons.inj h).1
  | @triple h l hi lo cs out hhi hlo _ ih =>
    rw [meets_triple hhi hlo, not_or]
    refine ⟨?_, ih⟩
    rintro ⟨rest, hrest, hmalformed⟩
    exact hmalformed ⟨h, l, hi, lo, cs, (List.cons.inj hrest).2.symm, hhi, hlo⟩

theorem exists_scans {input : List UInt8} (h : ¬Meets hex (Malformed hex) input) :
    ∃ out, Scans hex image input out := by
  induction input using scan_induction with
  | nil => exact ⟨[], .nil⟩
  | plain c cs hc ih =>
    rw [meets_plain hc, not_or] at h
    obtain ⟨out, hout⟩ := ih h.2
    exact ⟨c :: out, .plain hc hout⟩
  | short cs hcs =>
    refine absurd (.here ⟨cs, rfl, ?_⟩) h
    rintro ⟨d, e, hi, lo, more, rfl, -⟩
    simp at hcs
  | triple d e cs ih =>
    by_cases hdigits : ∃ hi lo, hex d = some hi ∧ hex e = some lo
    · obtain ⟨hi, lo, hhi, hlo⟩ := hdigits
      rw [meets_triple hhi hlo, not_or] at h
      obtain ⟨out, hout⟩ := ih h.2
      exact ⟨_, .triple hhi hlo hout⟩
    · refine absurd (.here ⟨_, rfl, ?_⟩) h
      rintro ⟨d', e', hi, lo, more, hrest, hhi, hlo⟩
      obtain ⟨rfl, htail⟩ := List.cons.inj hrest
      obtain ⟨rfl, -⟩ := List.cons.inj htail
      exact hdigits ⟨hi, lo, hhi, hlo⟩

/-- The scan gets through exactly when it meets no malformed triple. -/
theorem exists_scans_iff {input : List UInt8} :
    (∃ out, Scans hex image input out) ↔ ¬Meets hex (Malformed hex) input := by
  constructor
  · rintro ⟨out, h⟩
    exact h.not_meets_malformed
  · exact exists_scans

end Positions

section Unescape

variable (hex)

/-- The input with the value of its digits in place of every complete triple. -/
def unescape : List UInt8 → List UInt8
  | c :: h :: l :: cs =>
    if c = ascii '%' then
      match hex h, hex l with
      | some hi, some lo => (16 * hi + lo) :: unescape cs
      | _, _ => c :: unescape (h :: l :: cs)
    else c :: unescape (h :: l :: cs)
  | cs => cs

variable {hex}

theorem unescape_plain {c : UInt8} (hc : c ≠ ascii '%') (cs : List UInt8) :
    unescape hex (c :: cs) = c :: unescape hex cs := by
  rcases cs with _ | ⟨h, _ | ⟨l, more⟩⟩
  · rfl
  · rfl
  · rw [unescape, if_neg hc]

theorem unescape_triple {h l hi lo : UInt8} (hhi : hex h = some hi) (hlo : hex l = some lo)
    (cs : List UInt8) :
    unescape hex (ascii '%' :: h :: l :: cs) = (16 * hi + lo) :: unescape hex cs := by
  rw [unescape, if_pos rfl, hhi, hlo]

/-- Two digits are joined to their value. -/
theorem join_eq {hi lo : UInt8} (hhi : hi < 16) (hlo : lo < 16) : join hi lo = 16 * hi + lo := by
  have hall : ∀ m n : Fin 16,
      join (UInt8.ofNat m) (UInt8.ofNat n) = 16 * UInt8.ofNat m + UInt8.ofNat n := by
    decide +kernel
  have := hall ⟨hi.toNat, hhi⟩ ⟨lo.toNat, hlo⟩
  rwa [UInt8.ofNat_toNat, UInt8.ofNat_toNat] at this

/-- Where the scan gets through, a decoder puts out the unescaped input. -/
theorem Scans.unescape (hhex : ∀ b n, hex b = some n → n < 16) {input out : List UInt8}
    (h : Scans hex (fun v _ _ => [v]) input out) : unescape hex input = out := by
  induction h with
  | nil => rfl
  | plain hc _ ih => rw [unescape_plain hc, ih]
  | triple hhi hlo _ ih =>
    rw [unescape_triple hhi hlo, ih, join_eq (hhex _ _ hhi) (hhex _ _ hlo)]
    rfl

end Unescape

section Rounds

variable (hex emit incomplete invalid)

/-- One round of the loop: the next index and the output so far. -/
def round (bytes : List UInt8) (i : ℕ) (hi : i < bytes.length) (out : List UInt8) :
    Outcome ε (ℕ × List UInt8) :=
  if bytes[i] = ascii '%' then
    if bytes.length ≤ i + 2 then .err incomplete
    else do
      let first ← index bytes (i + 1)
      let hi ← ofOption invalid (hex first)
      let second ← index bytes (i + 2)
      let lo ← ofOption invalid (hex second)
      let decoded ← emit (join hi lo) bytes i
      return (i + 3, out ++ decoded)
  else return (i + 1, out ++ [bytes[i]])

/-- The loop when it is stopped after `n` rounds, with no result if it has not ended. -/
def scanFor (n : ℕ) (bytes : List UInt8) (i : ℕ) (out : List UInt8) :
    Option (Outcome ε (List UInt8)) :=
  if h : i < bytes.length then
    match n with
    | 0 => none
    | n + 1 =>
      match round hex emit incomplete invalid bytes i h out with
      | .ok (j, next) => scanFor n bytes j next
      | .err e => some (.err e)
      | .panic => some .panic
  else some (.ok out)

variable {hex emit incomplete invalid}

theorem scanFrom_eq_round {bytes : List UInt8} {i : ℕ} (h : i < bytes.length)
    (out : List UInt8) :
    scanFrom hex emit incomplete invalid bytes i out =
      round hex emit incomplete invalid bytes i h out >>= fun next =>
        scanFrom hex emit incomplete invalid bytes next.1 next.2 := by
  rw [scanFrom, dif_pos h, round]
  split_ifs <;> simp only [bind_assoc, pure_eq, ok_bind, err_bind]

/-- A round that goes on has advanced the index. -/
theorem lt_of_round {bytes out next : List UInt8} {i j : ℕ} {h : i < bytes.length}
    (hround : round hex emit incomplete invalid bytes i h out = .ok (j, next)) : i < j := by
  unfold round at hround
  split_ifs at hround
  · obtain ⟨_, -, h₁⟩ := bind_eq_ok.mp hround
    obtain ⟨_, -, h₂⟩ := bind_eq_ok.mp h₁
    obtain ⟨_, -, h₃⟩ := bind_eq_ok.mp h₂
    obtain ⟨_, -, h₄⟩ := bind_eq_ok.mp h₃
    obtain ⟨_, -, h₅⟩ := bind_eq_ok.mp h₄
    obtain ⟨rfl, -⟩ := Prod.mk.inj (ok.inj h₅)
    omega
  · obtain ⟨rfl, -⟩ := Prod.mk.inj (ok.inj hround)
    omega

/-- The loop ends: there are no more rounds than bytes left. -/
theorem scanFor_eq {n i : ℕ} {bytes : List UInt8} (h : bytes.length - i ≤ n)
    (out : List UInt8) :
    scanFor hex emit incomplete invalid n bytes i out =
      some (scanFrom hex emit incomplete invalid bytes i out) := by
  induction n generalizing i out with
  | zero =>
    have hend : ¬i < bytes.length := by omega
    rw [scanFor, dif_neg hend, scanFrom, dif_neg hend]
  | succ n ih =>
    unfold scanFor
    by_cases hi : i < bytes.length
    · rw [dif_pos hi, scanFrom_eq_round hi]
      cases hround : round hex emit incomplete invalid bytes i hi out with
      | ok next =>
        obtain ⟨j, next⟩ := next
        have hlt := lt_of_round hround
        exact ih (by omega) next
      | err e => rfl
      | panic => rfl
    · rw [dif_neg hi, scanFrom, dif_neg hi]

end Rounds

section Encode

/-- A byte is the join of its halves. -/
theorem join_shiftRight_and : ∀ b : UInt8, join (b >>> 4) (b &&& 0xF) = b := by
  decide

theorem shiftRight_lt : ∀ b : UInt8, b >>> 4 < 16 := by
  decide

theorem and_lt : ∀ b : UInt8, b &&& 0xF < 16 := by
  decide

variable (keep : UInt8 → Bool) (digit : UInt8 → UInt8)

/-- Percent encoding: the bytes to keep, and a triple for each other byte. -/
def encodeByte (b : UInt8) : List UInt8 :=
  if keep b then [b] else [ascii '%', digit (b >>> 4), digit (b &&& 0xF)]

/-- Decoding undoes encoding. -/
theorem scans_encode (hkeep : keep (ascii '%') = false)
    (hdigit : ∀ n, n < 16 → hex (digit n) = some n) (input : List UInt8) :
    Scans hex (fun v _ _ => [v]) (input.flatMap (encodeByte keep digit)) input := by
  induction input with
  | nil => exact .nil
  | cons b bs ih =>
    rw [List.flatMap_cons, encodeByte]
    cases hb : keep b with
    | true =>
      refine .plain ?_ ih
      rintro rfl
      rw [hkeep] at hb
      cases hb
    | false =>
      have htriple := Scans.triple (hdigit _ (shiftRight_lt b)) (hdigit _ (and_lt b)) ih
      rw [join_shiftRight_and] at htriple
      exact htriple

end Encode

end Percent

import Mathlib

/-!
# Base64

Three octets are regrouped as four sextets; a last group of one or two octets leaves unused
bits in its last sextet, which are zero, and is padded. `sextets` is the regrouping, `octets`
its inverse on the lists of sextets that are one (`IsSextets`), and `encode` writes the
sextets as digits of any alphabet.
-/

namespace Base64

/-- Octets regrouped by six bits, the last group filled with zero bits. -/
def sextets : List UInt8 → List ℕ
  | a :: b :: c :: rest =>
    a.toNat / 4 :: (a.toNat % 4 * 16 + b.toNat / 16) :: (b.toNat % 16 * 4 + c.toNat / 64) ::
      c.toNat % 64 :: sextets rest
  | [a, b] => [a.toNat / 4, a.toNat % 4 * 16 + b.toNat / 16, b.toNat % 16 * 4]
  | [a] => [a.toNat / 4, a.toNat % 4 * 16]
  | [] => []

/-- Sextets regrouped by eight bits, the bits left over dropped. -/
def octets : List ℕ → List UInt8
  | s :: t :: u :: v :: rest =>
    UInt8.ofNat (s * 4 + t / 16) :: UInt8.ofNat (t % 16 * 16 + u / 4) ::
      UInt8.ofNat (u % 4 * 64 + v) :: octets rest
  | [s, t, u] => [UInt8.ofNat (s * 4 + t / 16), UInt8.ofNat (t % 16 * 16 + u / 4)]
  | [s, t] => [UInt8.ofNat (s * 4 + t / 16)]
  | _ => []

/-- The lists of sextets that octets are regrouped to. -/
structure IsSextets (vs : List ℕ) : Prop where
  lt : ∀ v ∈ vs, v < 64
  length_ne : vs.length % 4 ≠ 1
  unused_four : vs.length % 4 = 2 → ∀ v ∈ vs.getLast?, v % 16 = 0
  unused_two : vs.length % 4 = 3 → ∀ v ∈ vs.getLast?, v % 4 = 0

/-- The number of padding characters behind the sextets of `n` octets. -/
def padding (n : ℕ) : ℕ := (3 - n % 3) % 3

/-- The padding fills the last group of four. -/
theorem padding_length (x : List UInt8) :
    padding x.length = (4 - (sextets x).length % 4) % 4 := by
  induction x using sextets.induct with
  | case1 a b c rest ih =>
    simp only [padding, sextets, List.length_cons] at ih ⊢
    omega
  | case2 a b => rfl
  | case3 a => rfl
  | case4 => rfl

theorem getLast?_cons_of_length {v : ℕ} {vs : List ℕ} (h : 0 < vs.length) :
    (v :: vs).getLast? = vs.getLast? :=
  List.getLast?_cons_of_ne_nil (List.ne_nil_of_length_pos h)

/-- Four sextets in front of a list leave its end as it is. -/
theorem isSextets_cons {s t u v : ℕ} {vs : List ℕ} (hs : s < 64) (ht : t < 64) (hu : u < 64)
    (hv : v < 64) : IsSextets (s :: t :: u :: v :: vs) ↔ IsSextets vs := by
  have hmod : (s :: t :: u :: v :: vs).length % 4 = vs.length % 4 := by
    simp only [List.length_cons]
    omega
  have hlast : vs.length % 4 ≠ 0 → (s :: t :: u :: v :: vs).getLast? = vs.getLast? := by
    intro hne
    have hpos : 0 < vs.length := by omega
    simp only [getLast?_cons_of_length, List.length_cons, hpos, Nat.succ_pos]
  constructor
  · rintro ⟨hlt, hne, hfour, htwo⟩
    rw [hmod] at hne hfour htwo
    refine ⟨fun w hw => hlt w (by simp [hw]), hne, fun h => ?_, fun h => ?_⟩
    · rw [← hlast (by omega)]
      exact hfour h
    · rw [← hlast (by omega)]
      exact htwo h
  · rintro ⟨hlt, hne, hfour, htwo⟩
    refine ⟨?_, hmod ▸ hne, fun h => ?_, fun h => ?_⟩
    · intro w hw
      simp only [List.mem_cons] at hw
      rcases hw with rfl | rfl | rfl | rfl | hw
      · exact hs
      · exact ht
      · exact hu
      · exact hv
      · exact hlt w hw
    · rw [hlast (by omega)]
      exact hfour (hmod ▸ h)
    · rw [hlast (by omega)]
      exact htwo (hmod ▸ h)

theorem isSextets_sextets (x : List UInt8) : IsSextets (sextets x) := by
  induction x using sextets.induct with
  | case1 a b c rest ih =>
    have ha := a.toNat_lt
    have hb := b.toNat_lt
    have hc := c.toNat_lt
    rw [sextets, isSextets_cons (by omega) (by omega) (by omega) (by omega)]
    exact ih
  | case2 a b =>
    have ha := a.toNat_lt
    have hb := b.toNat_lt
    refine ⟨?_, by simp [sextets], by simp [sextets], by simp [sextets]⟩
    simp only [sextets, List.mem_cons, List.not_mem_nil, or_false]
    rintro v (rfl | rfl | rfl) <;> omega
  | case3 a =>
    have ha := a.toNat_lt
    refine ⟨?_, by simp [sextets], by simp [sextets], by simp [sextets]⟩
    simp only [sextets, List.mem_cons, List.not_mem_nil, or_false]
    rintro v (rfl | rfl) <;> omega
  | case4 => exact ⟨by simp [sextets], by simp [sextets], by simp [sextets], by simp [sextets]⟩

/-- Regrouping back and forth loses nothing where the unused bits are zero. -/
theorem sextets_octets {vs : List ℕ} (h : IsSextets vs) : sextets (octets vs) = vs := by
  have hnat {n : ℕ} (hn : n < 256) : (UInt8.ofNat n).toNat = n := by
    rw [UInt8.toNat_ofNat']
    exact Nat.mod_eq_of_lt hn
  -- A group of four loses nothing; the shorter last groups lose only their unused bits.
  induction vs using octets.induct with
  | case1 s t u v rest ih =>
    have hlt := h.lt
    simp only [List.mem_cons, forall_eq_or_imp] at hlt
    obtain ⟨hs, ht, hu, hv, -⟩ := hlt
    rw [octets, sextets, ih ((isSextets_cons hs ht hu hv).mp h), hnat (by omega),
      hnat (by omega), hnat (by omega)]
    simp only [List.cons.injEq, and_true]
    omega
  | case2 s t u =>
    have hlt := h.lt
    have hunused := h.unused_two rfl u rfl
    simp only [List.mem_cons, forall_eq_or_imp] at hlt
    obtain ⟨hs, ht, hu, -⟩ := hlt
    rw [octets, sextets, hnat (by omega), hnat (by omega)]
    simp only [List.cons.injEq, and_true]
    omega
  | case3 s t =>
    have hlt := h.lt
    have hunused := h.unused_four rfl t rfl
    simp only [List.mem_cons, forall_eq_or_imp] at hlt
    obtain ⟨hs, ht, -⟩ := hlt
    rw [octets, sextets, hnat (by omega)]
    simp only [List.cons.injEq, and_true]
    omega
  | case4 vs h4 h3 h2 =>
    match vs, h2, h3, h4 with
    | [], _, _, _ => rfl
    | [v], _, _, _ => exact absurd rfl h.length_ne
    | [s, t], h2, _, _ => exact absurd rfl (h2 s t)
    | [s, t, u], _, h3, _ => exact absurd rfl (h3 s t u)
    | s :: t :: u :: v :: rest, _, _, h4 => exact absurd rfl (h4 s t u v rest)

/-- Octets are regrouped to exactly these lists. -/
theorem exists_sextets_iff {vs : List ℕ} : (∃ x, sextets x = vs) ↔ IsSextets vs := by
  constructor
  · rintro ⟨x, rfl⟩
    exact isSextets_sextets x
  · intro h
    exact ⟨octets vs, sextets_octets h⟩

section Digits

variable (digit : ℕ → UInt8) (pad : UInt8)

/-- The padded encoding of octets with the digits of an alphabet. -/
def encode (x : List UInt8) : List UInt8 :=
  (sextets x).map digit ++ List.replicate (padding x.length) pad

/-- The encoding without its padding. -/
theorem filter_encode (hdigit : ∀ n < 64, digit n ≠ pad) (x : List UInt8) :
    (encode digit pad x).filter (· ≠ pad) = (sextets x).map digit := by
  have hkeep : ((sextets x).map digit).filter (· ≠ pad) = (sextets x).map digit := by
    rw [List.filter_eq_self]
    intro c hc
    obtain ⟨v, hv, rfl⟩ := List.mem_map.mp hc
    exact decide_eq_true (hdigit v ((isSextets_sextets x).lt v hv))
  rw [encode, List.filter_append, hkeep, List.filter_eq_nil_iff.mpr, List.append_nil]
  intro c hc
  rw [List.eq_of_mem_replicate hc]
  simp

end Digits

end Base64

import Masque.Capsule.Codec

/-!
# The in-place capsule encoder

`Capsule.encodeInto` computes the length of the encoding before it writes anything. A buffer
with room for it holds the bytes of `Capsule.encode` afterwards; any other is left as it is.
-/

namespace Masque.Capsule

open Outcome QuicVarint TaggedInt

variable {c : Capsule} {buf : List UInt8}

/-- The length computed in advance is that of the encoding, and fits in a `usize`. -/
theorem checkedAdd_length_wire (h : c.Valid) :
    (Usize.checkedAdd (varintLen c.capsuleType.value) (varintLen c.length)).bind
      (Usize.checkedAdd · c.value.length) = some c.wire.length := by
  have htype := width_le_eight (tag_lt_four c.capsuleType.value.toNat)
  have hlength := width_le_eight (tag_lt_four c.value.length)
  have hvalue : c.value.length < 4611686018427387904 := h
  rw [varintLen_eq, varintLen_eq, toNat_length h,
    Usize.checkedAdd_eq_some (by rw [Usize.size]; omega), Option.bind_some,
    Usize.checkedAdd_eq_some (by rw [Usize.size]; omega), length_wire]

/-- The three writes behind the length check succeed, and leave the encoding in front of
the bytes that it does not take. -/
theorem writes_of_le (h : c.Valid) (hfit : c.wire.length ≤ buf.length) :
    ∃ n m buf₁ buf₂, encodeIntoAt c.capsuleType.value buf 0 = (.ok n, buf₁) ∧
      encodeIntoAt c.length buf₁ n = (.ok m, buf₂) ∧
      (copyFromSlice buf₂ (n + m) (n + m + c.value.length) c.value : Result _) =
        .ok (c.wire ++ buf.drop c.wire.length) := by
  have hlen : c.length ≤ maxVarint := toNat_lt_capacity.mpr ((toNat_length h).symm ▸ h)
  have htype := width_le_eight (tag_lt_four c.capsuleType.value.toNat)
  have hlength := width_le_eight (tag_lt_four c.value.length)
  rw [length_wire] at hfit ⊢
  -- The length is written behind the type, and the value behind both.
  have hwrite := encodeIntoAt_append (canonical c.capsuleType.value.toNat)
    (buf.drop (width (tag c.capsuleType.value.toNat))) hlen
    (by rw [toNat_length h, List.length_drop]; omega)
    (by rw [toNat_length h, length_canonical, Usize.size]; omega)
  have hcopy := copyFromSlice_append (ε := Error)
    (canonical c.capsuleType.value.toNat ++ canonical c.value.length)
    ((buf.drop (width (tag c.capsuleType.value.toNat))).drop (width (tag c.value.length))) c.value
    (by rw [List.length_drop, List.length_drop]; omega)
  rw [length_canonical, toNat_length h] at hwrite
  rw [List.length_append, length_canonical, length_canonical, List.drop_drop (i := c.value.length),
    List.drop_drop (i := _ + _), ← Nat.add_assoc] at hcopy
  exact ⟨_, _, _, _, encodeInto_eq c.capsuleType.value_le (by omega), hwrite, hcopy⟩

/-- The in-place encoder writes what the allocating one returns, or nothing: it fails only
for a buffer that is too short, before the first write. -/
theorem encodeInto_atomic (c : Capsule) (hc : c.Built) (buf : List UInt8) :
    ∃ e, c.encode = .ok e ∧
      (e.length ≤ buf.length → c.encodeInto buf = (.ok e.length, e ++ buf.drop e.length)) ∧
      (buf.length < e.length → c.encodeInto buf =
        (.err (.invalidVarInt .bufferTooShort "output buffer too short"), buf)) ∧
      (Usize.checkedAdd (varintLen c.capsuleType.value) (varintLen c.length)).bind
        (Usize.checkedAdd · c.value.length) = some e.length ∧
      (e.length ≤ buf.length → ∃ n m buf₁ buf₂ buf₃,
        encodeIntoAt c.capsuleType.value buf 0 = (.ok n, buf₁) ∧
        encodeIntoAt c.length buf₁ n = (.ok m, buf₂) ∧
        (copyFromSlice buf₂ (n + m) (n + m + c.value.length) c.value : Result _) = .ok buf₃) := by
  have hvalid := built_iff_valid.mp hc
  have htotal := checkedAdd_length_wire hvalid
  refine ⟨c.wire, encode_eq hvalid, fun hfit => ?_, fun hshort => ?_, htotal, fun hfit => ?_⟩
  · obtain ⟨n, m, buf₁, buf₂, htype, hlength, hvalue⟩ := writes_of_le hvalid hfit
    simp only [encodeInto, htotal, htype, Nat.zero_add, hlength, hvalue]
    exact if_neg (by omega)
  · simp only [encodeInto, htotal]
    exact if_pos hshort
  · obtain ⟨n, m, buf₁, buf₂, htype, hlength, hvalue⟩ := writes_of_le hvalid hfit
    exact ⟨n, m, buf₁, buf₂, _, htype, hlength, hvalue⟩

/-- A buffer with room to spare, and one that is a byte too short. -/
theorem encodeInto_atomic_datagram :
    (Capsule.mk .datagram [7]).encodeInto [9, 9, 9, 9] = (.ok 3, [0, 1, 7, 9]) ∧
    (Capsule.mk .datagram [7]).encodeInto [9, 9] =
      (.err (.invalidVarInt .bufferTooShort "output buffer too short"), [9, 9]) := by
  have hbuilt : (Capsule.mk .datagram [7]).Built := .new (t := .datagram) (v := [7]) rfl
  have hencode : (Capsule.mk .datagram [7]).encode = .ok [0, 1, 7] := by decide +kernel
  constructor
  · obtain ⟨e, he, hfit, -⟩ := encodeInto_atomic ⟨.datagram, [7]⟩ hbuilt [9, 9, 9, 9]
    obtain rfl := ok.inj (hencode.symm.trans he)
    exact hfit (by decide)
  · obtain ⟨e, he, -, hshort, -⟩ := encodeInto_atomic ⟨.datagram, [7]⟩ hbuilt [9, 9]
    obtain rfl := ok.inj (hencode.symm.trans he)
    exact hshort (by decide)

end Masque.Capsule

import Masque.Library.BigEndian
import Masque.Library.Framing

/-!
# Integers that announce their width

A tagged integer spends the two leading bits of its first byte on the base-two logarithm
of its width: tag `k` means `2 ^ k` bytes and leaves `8 * 2 ^ k - 2` bits for the value.
A value may be written with any tag that has room for it; the canonical tag is the least.
-/

namespace TaggedInt

open BigEndian

/-- The width in bytes that a tag announces. -/
def width (k : ℕ) : ℕ := 2 ^ k

/-- The number of values that fit under a tag. -/
def capacity (k : ℕ) : ℕ := 2 ^ (8 * 2 ^ k - 2)

/-- The value `v` written with tag `k`. -/
def encode (k v : ℕ) : List UInt8 :=
  toBytes (width k) (k * capacity k + v)

/-- The value at the front of a byte string and the width it takes there. -/
def decode (bs : List UInt8) : Option (ℕ × ℕ) :=
  match bs with
  | [] => none
  | b :: _ =>
    let k := b.toNat / 64
    if width k ≤ bs.length then
      some (ofBytes (bs.take (width k)) % capacity k, width k)
    else
      none

/-- The least tag with room for a value below `capacity 3`. -/
def tag (v : ℕ) : ℕ :=
  if v < capacity 0 then 0
  else if v < capacity 1 then 1
  else if v < capacity 2 then 2
  else 3

theorem width_pos (k : ℕ) : 0 < width k := Nat.two_pow_pos k

theorem capacity_pos (k : ℕ) : 0 < capacity k := Nat.two_pow_pos _

theorem width_injective {j k : ℕ} (h : width j = width k) : j = k :=
  Nat.pow_right_injective le_rfl h

theorem width_le_eight {k : ℕ} (hk : k < 4) : width k ≤ 8 := by
  interval_cases k <;> decide

@[simp] theorem capacity_zero : capacity 0 = 64 := rfl

@[simp] theorem capacity_one : capacity 1 = 16384 := rfl

@[simp] theorem capacity_two : capacity 2 = 1073741824 := rfl

@[simp] theorem capacity_three : capacity 3 = 4611686018427387904 := rfl

theorem capacity_mono {j k : ℕ} (h : j ≤ k) : capacity j ≤ capacity k := by
  have := Nat.pow_le_pow_right (n := 2) (by decide) h
  exact Nat.pow_le_pow_right (by decide) (by omega)

@[simp] theorem length_encode (k v : ℕ) : (encode k v).length = width k :=
  length_toBytes _ _

/-- A width's bytes split into the two tag bits and the value bits. -/
theorem pow_width (k : ℕ) : 256 ^ width k = 4 * capacity k := by
  have h8 : 2 ≤ 8 * 2 ^ k := by have := Nat.two_pow_pos k; omega
  calc 256 ^ width k = 2 ^ (8 * 2 ^ k) := by
        rw [width, show (256 : ℕ) = 2 ^ 8 by rfl, ← pow_mul]
    _ = 2 ^ (2 + (8 * 2 ^ k - 2)) := by congr 1; omega
    _ = 4 * capacity k := by rw [pow_add]; rfl

/-- A width's bytes below the leading one hold the value bits but six. -/
theorem capacity_eq (k : ℕ) : capacity k = 64 * 256 ^ (width k - 1) := by
  have hw : width k = (width k - 1) + 1 := by have := width_pos k; omega
  have h := pow_width k
  rw [hw, pow_succ'] at h
  omega

/-- The leading byte of `2 ^ k` bytes shows the tag of the number they denote. -/
theorem head_div_eq_ofBytes_div {k : ℕ} {b : UInt8} {bs : List UInt8}
    (hlen : (b :: bs).length = width k) : b.toNat / 64 = ofBytes (b :: bs) / capacity k := by
  have hbs : bs.length = width k - 1 := by simp at hlen; omega
  rw [toNat_head_eq_ofBytes_div b bs, Nat.div_div_eq_div_mul, capacity_eq, hbs, Nat.mul_comm]

theorem tagged_lt {k v : ℕ} (hk : k < 4) (hv : v < capacity k) :
    k * capacity k + v < 256 ^ width k := by
  rw [pow_width]
  calc k * capacity k + v < k * capacity k + capacity k := by omega
    _ = (k + 1) * capacity k := by ring
    _ ≤ 4 * capacity k := Nat.mul_le_mul_right _ (by omega)

theorem ofBytes_encode {k v : ℕ} (hk : k < 4) (hv : v < capacity k) :
    ofBytes (encode k v) = k * capacity k + v :=
  ofBytes_toBytes (tagged_lt hk hv)

theorem encode_ne_nil (k v : ℕ) : encode k v ≠ [] := by
  intro h
  have := congrArg List.length h
  have := width_pos k
  simp at *
  omega

theorem decode_eq_some {bs : List UInt8} {v n : ℕ} :
    decode bs = some (v, n) ↔
      ∃ b rest, bs = b :: rest ∧ n = width (b.toNat / 64) ∧ n ≤ bs.length ∧
        v = ofBytes (bs.take n) % capacity (b.toNat / 64) := by
  cases bs with
  | nil => simp [decode]
  | cons b rest =>
    by_cases hle : width (b.toNat / 64) ≤ (b :: rest).length
    · simp only [decode, hle, if_true, Option.some.injEq, Prod.mk.injEq, List.cons.injEq]
      constructor
      · rintro ⟨rfl, rfl⟩
        exact ⟨b, rest, ⟨rfl, rfl⟩, rfl, hle, rfl⟩
      · rintro ⟨b, rest, ⟨rfl, rfl⟩, rfl, _, rfl⟩
        exact ⟨rfl, rfl⟩
    · simp only [decode, hle, if_false, reduceCtorEq, List.cons.injEq, false_iff]
      rintro ⟨b, rest, ⟨rfl, rfl⟩, rfl, h, _⟩
      exact hle h

/-- Nothing can be read from a non-empty string exactly when its announced width is
missing bytes. -/
theorem decode_cons_eq_none {b : UInt8} {rest : List UInt8} :
    decode (b :: rest) = none ↔ (b :: rest).length < width (b.toNat / 64) := by
  simp [decode]

/-- What is written with any tag is read back, whatever follows. -/
theorem decode_encode_append {k v : ℕ} (hk : k < 4) (hv : v < capacity k)
    (t : List UInt8) : decode (encode k v ++ t) = some (v, width k) := by
  obtain ⟨b, bs, hbs⟩ := List.exists_cons_of_ne_nil (encode_ne_nil k v)
  have hlen : (b :: bs).length = width k := by rw [← hbs, length_encode]
  have htag : b.toNat / 64 = k := by
    rw [head_div_eq_ofBytes_div hlen, ← hbs, ofBytes_encode hk hv, Nat.mul_comm,
      Nat.mul_add_div (capacity_pos k), Nat.div_eq_of_lt hv, Nat.add_zero]
  rw [hbs, decode_eq_some]
  refine ⟨b, bs ++ t, rfl, by rw [htag], ?_, ?_⟩
  · rw [List.length_append, hlen]
    omega
  · rw [← hlen, List.take_left, ← hbs, ofBytes_encode hk hv, htag, Nat.mul_add_mod_of_lt hv]

/-- What is read was written with the tag that announces the width. -/
theorem encode_of_decode {bs : List UInt8} {v n : ℕ} (h : decode bs = some (v, n)) :
    ∃ k, k < 4 ∧ n = width k ∧ v < capacity k ∧ bs.take n = encode k v := by
  obtain ⟨b, rest, rfl, hn, hle, hv⟩ := decode_eq_some.mp h
  have hb : b.toNat < 256 := b.toNat_lt_size
  have hpos := width_pos (b.toNat / 64)
  obtain ⟨m, rfl⟩ : ∃ m, n = m + 1 := ⟨n - 1, by omega⟩
  refine ⟨b.toNat / 64, by omega, hn, ?_, ?_⟩
  · rw [hv]
    exact Nat.mod_lt _ (capacity_pos _)
  · have hlen : (b :: rest.take m).length = m + 1 := by
      simp at hle ⊢
      omega
    have htag := head_div_eq_ofBytes_div (hlen.trans hn)
    rw [List.take_succ_cons] at hv ⊢
    have hvalue : b.toNat / 64 * capacity (b.toNat / 64) + v = ofBytes (b :: rest.take m) := by
      rw [hv]
      conv_lhs => enter [1, 1]; rw [htag]
      exact Nat.div_add_mod' _ _
    rw [encode, ← hn, hvalue, ← hlen, toBytes_ofBytes]

/-- Tagged integers are framed: no encoding is a proper leading part of another. -/
def framing : Framing UInt8 ℕ where
  next := decode
  next_pos := by
    intro s v n h
    obtain ⟨_, _, _, rfl, _⟩ := decode_eq_some.mp h
    exact width_pos _
  next_le := by
    intro s v n h
    obtain ⟨_, _, _, _, hle, _⟩ := decode_eq_some.mp h
    exact hle
  next_append := by
    intro s v n t h
    obtain ⟨b, rest, rfl, hn, hle, hv⟩ := decode_eq_some.mp h
    refine decode_eq_some.mpr ⟨b, rest ++ t, rfl, hn, ?_, ?_⟩
    · simp at hle ⊢
      omega
    · rw [List.take_append_of_le_length hle, hv]

/-- What is read depends on the bytes of the announced width alone. -/
theorem decode_of_take_eq {bs bs' : List UInt8} {v n : ℕ} (h : decode bs = some (v, n))
    (htake : bs'.take n = bs.take n) : decode bs' = some (v, n) := by
  obtain ⟨b, rest, rfl, hn, hle, hv⟩ := decode_eq_some.mp h
  obtain ⟨m, rfl⟩ : ∃ m, n = m + 1 := ⟨n - 1, by have := width_pos (b.toNat / 64); omega⟩
  have hlen := congrArg List.length htake
  rw [List.length_take, List.length_take, Nat.min_eq_left hle] at hlen
  cases bs' with
  | nil => simp at hlen
  | cons b' rest' =>
    obtain ⟨rfl, -⟩ := List.cons.inj htake
    exact decode_eq_some.mpr ⟨b', rest', rfl, hn, by omega, htake ▸ hv⟩

theorem framing_local : framing.Local := by
  intro s v n h
  exact decode_of_take_eq h (by rw [List.take_take, Nat.min_self])

theorem tag_lt_four (v : ℕ) : tag v < 4 := by
  unfold tag
  split_ifs <;> decide

theorem lt_capacity_tag {v : ℕ} (h : v < capacity 3) : v < capacity (tag v) := by
  unfold tag
  split_ifs <;> assumption

/-- The canonical tag is the least with room for the value. -/
theorem tag_le_of_lt_capacity {v k : ℕ} (h : v < capacity k) : tag v ≤ k := by
  unfold tag
  split_ifs with h0 h1 h2
  · exact Nat.zero_le k
  all_goals
    by_contra hlt
    have := capacity_mono (Nat.le_of_lt_succ (not_le.mp hlt))
    omega

/-- The least width in bytes with room for a value. -/
def IsLeastWidth (v n : ℕ) : Prop :=
  IsLeast {m | m ∈ [1, 2, 4, 8] ∧ v < 2 ^ (8 * m - 2)} n

theorem isLeastWidth_iff {v n : ℕ} (h : v < capacity 3) :
    IsLeastWidth v n ↔ n = width (tag v) := by
  have hleast : IsLeastWidth v (width (tag v)) := by
    refine ⟨⟨?_, lt_capacity_tag h⟩, ?_⟩
    · have := tag_lt_four v
      interval_cases tag v <;> decide
    · rintro m ⟨hm, hv⟩
      have hpow : ∃ k, m = width k := by
        simp only [List.mem_cons, List.not_mem_nil, or_false] at hm
        rcases hm with rfl | rfl | rfl | rfl
        · exact ⟨0, rfl⟩
        · exact ⟨1, rfl⟩
        · exact ⟨2, rfl⟩
        · exact ⟨3, rfl⟩
      obtain ⟨k, rfl⟩ := hpow
      exact Nat.pow_le_pow_right (by decide) (tag_le_of_lt_capacity hv)
  exact ⟨fun hn => hn.unique hleast, fun hn => hn ▸ hleast⟩

/-- A value written with its least tag. -/
def canonical (v : ℕ) : List UInt8 := encode (tag v) v

@[simp] theorem length_canonical (v : ℕ) : (canonical v).length = width (tag v) :=
  length_encode _ _

theorem decode_canonical_append {v : ℕ} (hv : v < capacity 3) (t : List UInt8) :
    decode (canonical v ++ t) = some (v, width (tag v)) :=
  decode_encode_append (tag_lt_four v) (lt_capacity_tag hv) t

/-- The bytes read are the canonical ones exactly when their number is the least width. -/
theorem take_eq_canonical_iff {bs : List UInt8} {v n : ℕ} (h : decode bs = some (v, n)) :
    bs.take n = canonical v ↔ n = width (tag v) := by
  obtain ⟨k, _, rfl, _, htake⟩ := encode_of_decode h
  rw [htake, canonical]
  constructor
  · intro heq
    simpa using congrArg List.length heq
  · intro hw
    rw [width_injective hw]

/-- No width at which a value is read is below the least one. -/
theorem width_tag_le {bs : List UInt8} {v n : ℕ} (h : decode bs = some (v, n)) :
    width (tag v) ≤ n := by
  obtain ⟨k, _, rfl, hv, _⟩ := encode_of_decode h
  exact Nat.pow_le_pow_right (by decide) (tag_le_of_lt_capacity hv)

theorem lt_capacity_of_decode {bs : List UInt8} {v n : ℕ} (h : decode bs = some (v, n)) :
    v < capacity 3 := by
  obtain ⟨k, hk, _, hv, _⟩ := encode_of_decode h
  exact hv.trans_le (capacity_mono (by omega))

theorem width_le_of_decode {bs : List UInt8} {v n : ℕ} (h : decode bs = some (v, n)) :
    n ≤ 8 := by
  obtain ⟨k, hk, rfl, _, _⟩ := encode_of_decode h
  exact width_le_eight hk

/-- A byte string from which nothing can be read is shorter than the widest encoding. -/
theorem length_lt_of_decode_eq_none {bs : List UInt8} (h : decode bs = none) :
    bs.length < 8 := by
  cases bs with
  | nil => simp
  | cons b rest =>
    have hb : b.toNat < 256 := b.toNat_lt_size
    have hw := width_le_eight (k := b.toNat / 64) (by omega)
    have := decode_cons_eq_none.mp h
    omega

end TaggedInt

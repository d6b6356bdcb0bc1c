import Masque.Error
import Masque.Library.TaggedInt

/-!
# QUIC variable-length integers

The encoder and decoder of `quic_varint.rs`, on 64-bit words, and their specification:
both work on tagged integers of width 1, 2, 4 and 8, and the encoder picks the least tag.
-/

namespace Masque.QuicVarint

open TaggedInt Outcome BigEndian

/-- `MAX_VARINT`, that is `2^62 - 1`. -/
def maxVarint : UInt64 := 4611686018427387903

/-- `u64::to_be_bytes`. -/
def toBeBytes (x : UInt64) : List UInt8 :=
  [(x >>> 56).toUInt8, (x >>> 48).toUInt8, (x >>> 40).toUInt8, (x >>> 32).toUInt8,
    (x >>> 24).toUInt8, (x >>> 16).toUInt8, (x >>> 8).toUInt8, x.toUInt8]

/-- `u64::from_be_bytes`. -/
def fromBeBytes (bytes : List UInt8) : UInt64 :=
  bytes.foldl (fun acc b => acc <<< 8 ||| b.toUInt64) 0

def ensureValid (value : UInt64) : Result Unit :=
  if maxVarint < value then
    .err (.invalidVarInt .valueTooLarge s!"value {value} exceeds 2^62 - 1")
  else
    .ok ()

def encodeToArray (value : UInt64) : ℕ × List UInt8 :=
  if value ≤ 0x3f then
    (1, [value.toUInt8, 0, 0, 0, 0, 0, 0, 0])
  else if value ≤ 0x3fff then
    (2, toBeBytes ((value ||| 0x4000) <<< 48))
  else if value ≤ 0x3fffffff then
    (4, toBeBytes ((value ||| 0x80000000) <<< 32))
  else
    (8, toBeBytes (value ||| 0xc000000000000000))

/-- `encode`; the leading `assert!` panics. -/
def encode (value : UInt64) : Result (List UInt8) :=
  if value ≤ maxVarint then
    let (len, encoded) := encodeToArray value
    slice encoded 0 len
  else
    .panic

def tryEncode (value : UInt64) : Result (List UInt8) := do
  ensureValid value
  let (len, encoded) := encodeToArray value
  slice encoded 0 len

/-- `encode_into_at`: the result and the buffer after the call. -/
def encodeIntoAt (value : UInt64) (buf : List UInt8) (offset : ℕ) : Result ℕ × List UInt8 :=
  match ensureValid value with
  | .err e => (.err e, buf)
  | .panic => (.panic, buf)
  | .ok () =>
    let (len, encoded) := encodeToArray value
    match Usize.checkedAdd offset len with
    | none => (.err (.invalidVarInt .offsetOutOfBounds "offset overflow"), buf)
    | some stop =>
      if buf.length < stop then
        (.err (.invalidVarInt .bufferTooShort "output buffer too short"), buf)
      else
        match slice encoded 0 len >>= copyFromSlice buf offset stop with
        | .ok buf' => (.ok len, buf')
        | .err e => (.err e, buf)
        | .panic => (.panic, buf)

def encodeInto (value : UInt64) (buf : List UInt8) : Result ℕ × List UInt8 :=
  encodeIntoAt value buf 0

/-- The width and value mask announced by the first byte. -/
def announced (first : UInt8) : Result (ℕ × UInt64) :=
  match first >>> 6 with
  | 0b00 => .ok (1, 0x3f)
  | 0b01 => .ok (2, 0x3fff)
  | 0b10 => .ok (4, 0x3fffffff)
  | 0b11 => .ok (8, 0x3fffffffffffffff)
  | _ => .panic

def decodeInner (buf : List UInt8) : Result (UInt64 × ℕ) :=
  if buf.isEmpty then
    .err (.invalidVarInt .emptyBuffer "empty buffer")
  else do
    let first ← index buf 0
    let (len, mask) ← announced first
    if buf.length < len then
      .err (.invalidVarInt .bufferTooShort "buffer too short")
    else do
      let bytes ← copyFromSlice (List.replicate 8 0) (8 - len) 8 (← slice buf 0 len)
      return (fromBeBytes bytes &&& mask, len)

def decodeAt (buf : List UInt8) (offset : ℕ) : Result (UInt64 × ℕ) :=
  if buf.isEmpty ∧ offset = 0 then
    .err (.invalidVarInt .emptyBuffer "empty buffer")
  else if buf.length ≤ offset then
    .err (.invalidVarInt .offsetOutOfBounds "offset out of bounds")
  else do
    decodeInner (← sliceFrom buf offset)

def decode (buf : List UInt8) : Result (UInt64 × ℕ) :=
  if buf.isEmpty then
    .err (.invalidVarInt .emptyBuffer "empty buffer")
  else
    decodeAt buf 0

section Words

theorem toNat_toUInt8_shiftRight (x : UInt64) (k : ℕ) (hk : k < 64) :
    (x >>> UInt64.ofNat k).toUInt8 = UInt8.ofNat (x.toNat / 2 ^ k) := by
  apply UInt8.toNat_inj.mp
  rw [UInt64.toNat_toUInt8, UInt64.toNat_shiftRight, UInt64.toNat_ofNat', UInt8.toNat_ofNat',
    Nat.shiftRight_eq_div_pow]
  congr 3
  omega

theorem toBeBytes_eq (x : UInt64) : toBeBytes x = toBytes 8 x.toNat := by
  have h (k : ℕ) (hk : k < 64) := toNat_toUInt8_shiftRight x k hk
  have h0 : x.toUInt8 = UInt8.ofNat x.toNat := by
    apply UInt8.toNat_inj.mp
    rw [UInt64.toNat_toUInt8, UInt8.toNat_ofNat']
  simp only [toBytes, Nat.div_div_eq_div_mul, Nat.reduceMul, List.nil_append,
    List.cons_append, toBeBytes, List.cons.injEq]
  exact ⟨h 56 (by decide), h 48 (by decide), h 40 (by decide), h 32 (by decide),
    h 24 (by decide), h 16 (by decide), h 8 (by decide), h0, trivial⟩

theorem toNat_fromBeBytes {bs : List UInt8} (h : bs.length ≤ 8) :
    (fromBeBytes bs).toNat = ofBytes bs := by
  induction bs using List.reverseRecOn with
  | nil => rfl
  | append_singleton bs b ih =>
    have hlen : bs.length ≤ 7 := by simp at h; omega
    have hacc : (fromBeBytes bs).toNat < 256 ^ 7 := by
      rw [ih (by omega)]
      exact (ofBytes_lt bs).trans_le (Nat.pow_le_pow_right (by decide) hlen)
    have hb : b.toUInt64.toNat < 2 ^ 8 := by simpa using b.toNat_lt_size
    have hshift : (fromBeBytes bs <<< 8).toNat = 2 ^ 8 * (fromBeBytes bs).toNat := by
      rw [UInt64.toNat_shiftLeft]
      simp [Nat.shiftLeft_eq] 
      omega
    have hstep : fromBeBytes (bs ++ [b]) = fromBeBytes bs <<< 8 ||| b.toUInt64 := by
      simp [fromBeBytes]
    rw [hstep, UInt64.toNat_or, hshift, ← Nat.two_pow_add_eq_or_of_lt hb, ih (by omega),
      ofBytes_concat]
    simp
    omega

theorem toNat_and_mask {x mask : UInt64} {n : ℕ} (h : mask.toNat = 2 ^ n - 1) :
    (x &&& mask).toNat = x.toNat % 2 ^ n := by
  rw [UInt64.toNat_and, h, Nat.and_two_pow_sub_one_eq_mod]

theorem announced_eq (b : UInt8) :
    ∃ mask, announced b = .ok (width (b.toNat / 64), mask) ∧
      mask.toNat = capacity (b.toNat / 64) - 1 := by
  have hb : b.toNat < 256 := b.toNat_lt_size
  have hshift : (b >>> 6) = UInt8.ofNat (b.toNat / 64) := by
    apply UInt8.toNat_inj.mp
    have hdiv : b.toNat >>> 6 = b.toNat / 64 := Nat.shiftRight_eq_div_pow _ 6
    rw [UInt8.toNat_shiftRight, UInt8.toNat_ofNat']
    change b.toNat >>> 6 = _
    omega
  unfold announced
  rw [hshift]
  have hk : b.toNat / 64 < 4 := by omega
  interval_cases b.toNat / 64
  · exact ⟨_, rfl, rfl⟩
  · exact ⟨_, rfl, rfl⟩
  · exact ⟨_, rfl, rfl⟩
  · exact ⟨_, rfl, rfl⟩

theorem toNat_or_tag {x m : UInt64} {n c : ℕ} (hx : x.toNat < 2 ^ n) (hm : m.toNat = c * 2 ^ n) :
    (x ||| m).toNat = c * 2 ^ n + x.toNat := by
  rw [UInt64.toNat_or, Nat.or_comm, hm, Nat.mul_comm, Nat.two_pow_add_eq_or_of_lt hx]

theorem take_toBeBytes_shiftLeft {x s : UInt64} {n : ℕ} (hpos : 0 < n) (hn : n ≤ 8)
    (hs : s.toNat = 8 * (8 - n)) (hx : x.toNat < 256 ^ n) :
    (toBeBytes (x <<< s)).take n = toBytes n x.toNat := by
  obtain ⟨m, hm⟩ : ∃ m, 8 = n + m := ⟨8 - n, by omega⟩
  have hs : s.toNat = 8 * m := by omega
  have hpow : (2 : ℕ) ^ (8 * m) = 256 ^ m := by rw [pow_mul]; rfl
  have hfit : x.toNat * 256 ^ m < 2 ^ 64 := by
    calc x.toNat * 256 ^ m < 256 ^ n * 256 ^ m := Nat.mul_lt_mul_of_pos_right hx (by positivity)
      _ = 2 ^ 64 := by rw [← pow_add, ← hm]; rfl
  have hshift : (x <<< s).toNat = x.toNat * 256 ^ m := by
    rw [UInt64.toNat_shiftLeft, hs, Nat.mod_eq_of_lt (by omega : 8 * m < 64), Nat.shiftLeft_eq,
      hpow, Nat.mod_eq_of_lt hfit]
  rw [toBeBytes_eq, hshift, hm, toBytes_add, Nat.mul_div_cancel _ (by positivity),
    List.take_left' (length_toBytes n _)]

theorem length_toBeBytes (x : UInt64) : (toBeBytes x).length = 8 := rfl

/-- The bounds of the encoder's branches are the capacities of the tags. -/
theorem le_iff_lt_capacity (v : UInt64) :
    (v ≤ 0x3f ↔ v.toNat < capacity 0) ∧ (v ≤ 0x3fff ↔ v.toNat < capacity 1) ∧
      (v ≤ 0x3fffffff ↔ v.toNat < capacity 2) := by
  simp only [UInt64.le_iff_toNat_le]
  exact ⟨Nat.lt_succ_iff.symm, Nat.lt_succ_iff.symm, Nat.lt_succ_iff.symm⟩

theorem encodeToArray_spec {v : UInt64} (hv : v ≤ maxVarint) :
    (encodeToArray v).1 = width (tag v.toNat) ∧ (encodeToArray v).2.length = 8 ∧
      (encodeToArray v).2.take (encodeToArray v).1 = canonical v.toNat := by
  have hmax : v.toNat ≤ 4611686018427387903 := UInt64.le_iff_toNat_le.mp hv
  obtain ⟨h0, h1, h2⟩ := le_iff_lt_capacity v
  simp only [encodeToArray, h0, h1, h2, canonical, tag]
  split_ifs with c0 c1 c2
  · refine ⟨rfl, rfl, ?_⟩
    have hbyte : v.toUInt8 = UInt8.ofNat v.toNat := by
      apply UInt8.toNat_inj.mp
      rw [UInt64.toNat_toUInt8, UInt8.toNat_ofNat']
    rw [hbyte, TaggedInt.encode, Nat.zero_mul, Nat.zero_add]
    rfl
  · have hor := toNat_or_tag (m := 0x4000) (n := 14) (c := 1) c1 rfl
    refine ⟨rfl, rfl, ?_⟩
    dsimp only
    rw [take_toBeBytes_shiftLeft (by decide) (by decide) rfl (by rw [hor]; simp at c1 ⊢; omega),
      hor]
    rfl
  · have hor := toNat_or_tag (m := 0x80000000) (n := 30) (c := 2) c2 rfl
    refine ⟨rfl, rfl, ?_⟩
    dsimp only
    rw [take_toBeBytes_shiftLeft (by decide) (by decide) rfl (by rw [hor]; simp at c2 ⊢; omega),
      hor]
    rfl
  · have hor := toNat_or_tag (x := v) (m := 0xc000000000000000) (n := 62) (c := 3) (by omega) rfl
    refine ⟨rfl, rfl, ?_⟩
    rw [List.take_of_length_le (by rw [length_toBeBytes]), toBeBytes_eq, hor]
    rfl

end Words

/-- A valid value fits under the widest tag. -/
theorem toNat_lt_capacity {v : UInt64} : v ≤ maxVarint ↔ v.toNat < capacity 3 := by
  rw [UInt64.le_iff_toNat_le]
  exact Nat.lt_succ_iff.symm

theorem ensureValid_eq_ok {v : UInt64} (hv : v ≤ maxVarint) : ensureValid v = .ok () :=
  if_neg (UInt64.not_lt.mpr hv)

theorem encode_eq {v : UInt64} (hv : v ≤ maxVarint) : encode v = .ok (canonical v.toNat) := by
  obtain ⟨hlen, harr, htake⟩ := encodeToArray_spec hv
  have hle := width_le_eight (tag_lt_four v.toNat)
  simp only [encode, hv, if_true]
  rw [slice_eq_ok (Nat.zero_le _) (by omega), List.drop_zero, htake]

theorem tryEncode_eq {v : UInt64} (hv : v ≤ maxVarint) :
    tryEncode v = .ok (canonical v.toNat) := by
  rw [tryEncode, ensureValid_eq_ok hv, ok_bind, ← encode_eq hv, encode, if_pos hv]

theorem encodeIntoAt_eq {v : UInt64} {buf : List UInt8} {offset : ℕ} (hv : v ≤ maxVarint)
    (hfit : offset + width (tag v.toNat) ≤ buf.length)
    (hsize : offset + width (tag v.toNat) < Usize.size) :
    encodeIntoAt v buf offset = (.ok (width (tag v.toNat)),
      buf.take offset ++ canonical v.toNat ++ buf.drop (offset + width (tag v.toNat))) := by
  obtain ⟨hlen, harr, htake⟩ := encodeToArray_spec hv
  have hle := width_le_eight (tag_lt_four v.toNat)
  have hadd := Usize.checkedAdd_eq_some hsize
  have hslice : (slice (encodeToArray v).2 0 (encodeToArray v).1 : Result _) =
      .ok (canonical v.toNat) := by
    rw [slice_eq_ok (Nat.zero_le _) (by omega), List.drop_zero, htake]
  simp only [encodeIntoAt, ensureValid_eq_ok hv, hslice, ok_bind]
  rw [hlen, hadd]
  dsimp only
  rw [if_neg (by omega), copyFromSlice_eq_ok (by omega) hfit (by simp)]

/-- Behind what has been written, a varint overwrites as many bytes as it takes. -/
theorem encodeIntoAt_append {v : UInt64} (front rest : List UInt8) (hv : v ≤ maxVarint)
    (hfit : width (tag v.toNat) ≤ rest.length)
    (hsize : front.length + width (tag v.toNat) < Usize.size) :
    encodeIntoAt v (front ++ rest) front.length = (.ok (width (tag v.toNat)),
      front ++ canonical v.toNat ++ rest.drop (width (tag v.toNat))) := by
  rw [encodeIntoAt_eq hv (by rw [List.length_append]; omega) hsize, List.take_left,
    List.drop_length_add_append]

theorem encodeInto_eq {v : UInt64} {buf : List UInt8} (hv : v ≤ maxVarint)
    (hfit : width (tag v.toNat) ≤ buf.length) :
    encodeInto v buf = (.ok (width (tag v.toNat)),
      canonical v.toNat ++ buf.drop (width (tag v.toNat))) := by
  have hle := width_le_eight (tag_lt_four v.toNat)
  exact encodeIntoAt_append [] buf hv hfit
    (by rw [Usize.size, List.length_nil]; omega)

/-- The two header buffers of the capsule encoders: eight zero bytes take any varint. -/
theorem encodeInto_zeros {v : UInt64} (hv : v ≤ maxVarint) :
    encodeInto v (List.replicate 8 0) = (.ok (width (tag v.toNat)),
      canonical v.toNat ++ List.replicate (8 - width (tag v.toNat)) 0) := by
  have hle := width_le_eight (tag_lt_four v.toNat)
  rw [encodeInto_eq hv (by simpa using hle), List.drop_replicate]

/-- The decoder reads a tagged integer, or reports that its bytes are missing. -/
theorem decodeInner_eq (buf : List UInt8) :
    decodeInner buf =
      match TaggedInt.decode buf with
      | some (v, n) => .ok (UInt64.ofNat v, n)
      | none =>
        if buf = [] then .err (.invalidVarInt .emptyBuffer "empty buffer")
        else .err (.invalidVarInt .bufferTooShort "buffer too short") := by
  cases buf with
  | nil => rfl
  | cons b rest =>
    obtain ⟨mask, hann, hmask⟩ := announced_eq b
    have hk : b.toNat / 64 < 4 := Nat.div_lt_of_lt_mul b.toNat_lt_size
    have hw := width_le_eight hk
    have hindex : (index (b :: rest) 0 : Result UInt8) = .ok b := rfl
    simp only [decodeInner, List.isEmpty_cons, Bool.false_eq_true, if_false, hindex, ok_bind,
      hann, TaggedInt.decode, reduceCtorEq]
    by_cases hle : width (b.toNat / 64) ≤ (b :: rest).length
    · have hlen : ((b :: rest).take (width (b.toNat / 64))).length = width (b.toNat / 64) := by
        rw [List.length_take]; omega
      rw [if_neg (by omega), if_pos hle, slice_eq_ok (Nat.zero_le _) hle, List.drop_zero, ok_bind,
        copyFromSlice_eq_ok (by omega) (by simp) (by omega), ok_bind]
      simp only [pure_eq, ok.injEq, Prod.mk.injEq, and_true]
      -- The bytes stand at the end of eight, the zeros in front of them count nothing.
      apply UInt64.toNat_inj.mp
      have hpad : (List.replicate 8 (0 : UInt8)).take (8 - width (b.toNat / 64)) =
          List.replicate (8 - width (b.toNat / 64)) 0 := by
        rw [List.take_replicate, Nat.min_eq_left (by omega)]
      have hlt : ofBytes ((b :: rest).take (width (b.toNat / 64))) % capacity (b.toNat / 64) <
          2 ^ 64 :=
        (Nat.mod_lt _ (capacity_pos _)).trans_le
          ((capacity_mono (Nat.le_of_lt_succ hk)).trans (by decide))
      rw [toNat_and_mask hmask, toNat_fromBeBytes (by simp; omega), hpad,
        List.drop_eq_nil_of_le (by simp), List.append_nil, ofBytes_replicate_zero_append,
        UInt64.toNat_ofNat', Nat.mod_eq_of_lt hlt]
      rfl
    · rw [if_pos (by omega), if_neg hle]

theorem decode_eq_decodeInner (buf : List UInt8) : decode buf = decodeInner buf := by
  cases buf with
  | nil => rfl
  | cons b rest =>
    simp only [decode, decodeAt, List.isEmpty_cons, Bool.false_eq_true, if_false, false_and,
      List.length_cons, Nat.le_zero, Nat.add_one_ne_zero]
    rw [sliceFrom_eq_ok (Nat.zero_le _), ok_bind, List.drop_zero]

theorem decodeAt_of_lt {buf : List UInt8} {offset : ℕ} (h : offset < buf.length) :
    decodeAt buf offset = decodeInner (buf.drop offset) := by
  have hne : buf ≠ [] := List.ne_nil_of_length_pos (by omega)
  rw [decodeAt, if_neg (by simp [hne]), if_neg (by omega), sliceFrom_eq_ok h.le, ok_bind]

theorem decodeAt_of_le {buf : List UInt8} {offset : ℕ} (h : buf.length ≤ offset)
    (hpos : 0 < offset) :
    decodeAt buf offset = .err (.invalidVarInt .offsetOutOfBounds "offset out of bounds") := by
  rw [decodeAt, if_neg (by omega), if_pos h]

theorem decodeInner_eq_ok {buf : List UInt8} {v : UInt64} {n : ℕ} :
    decodeInner buf = .ok (v, n) ↔ TaggedInt.decode buf = some (v.toNat, n) := by
  rw [decodeInner_eq]
  cases h : TaggedInt.decode buf with
  | none => split_ifs <;> simp
  | some p =>
    obtain ⟨x, m⟩ := p
    have hx : x < 2 ^ 64 := (lt_capacity_of_decode h).trans (by decide)
    simp only [ok.injEq, Prod.mk.injEq, Option.some.injEq]
    constructor
    · rintro ⟨rfl, rfl⟩
      exact ⟨(UInt64.toNat_ofNat_of_lt' hx).symm, rfl⟩
    · rintro ⟨rfl, rfl⟩
      exact ⟨UInt64.ofNat_toNat, rfl⟩

theorem decode_eq_ok {buf : List UInt8} {v : UInt64} {n : ℕ} :
    decode buf = .ok (v, n) ↔ TaggedInt.decode buf = some (v.toNat, n) := by
  rw [decode_eq_decodeInner, decodeInner_eq_ok]

theorem decodeAt_eq_ok {buf : List UInt8} {offset : ℕ} {v : UInt64} {n : ℕ} :
    decodeAt buf offset = .ok (v, n) ↔
      TaggedInt.decode (buf.drop offset) = some (v.toNat, n) := by
  rcases Nat.lt_or_ge offset buf.length with h | h
  · rw [decodeAt_of_lt h, decodeInner_eq_ok]
  · have hnil : TaggedInt.decode (buf.drop offset) = none := by
      rw [List.drop_eq_nil_of_le h]
      rfl
    rw [decodeAt, hnil]
    split_ifs <;> simp

/-- The errors about missing bytes. -/
def IsIncomplete (e : Error) : Prop :=
  ∃ kind message, e = .invalidVarInt kind message ∧ kind ≠ .valueTooLarge

theorem decodeInner_eq_err {buf : List UInt8} (h : TaggedInt.decode buf = none) :
    ∃ e, decodeInner buf = .err e ∧ IsIncomplete e := by
  rw [decodeInner_eq, h]
  dsimp only
  split_ifs
  · exact ⟨_, rfl, .emptyBuffer, _, rfl, nofun⟩
  · exact ⟨_, rfl, .bufferTooShort, _, rfl, nofun⟩

theorem decode_eq_err {buf : List UInt8} (h : TaggedInt.decode buf = none) :
    ∃ e, decode buf = .err e ∧ IsIncomplete e := by
  rw [decode_eq_decodeInner]
  exact decodeInner_eq_err h

theorem decodeAt_eq_err {buf : List UInt8} {offset : ℕ}
    (h : TaggedInt.decode (buf.drop offset) = none) (hpos : 0 < offset) :
    ∃ e, decodeAt buf offset = .err e ∧ IsIncomplete e := by
  rcases Nat.lt_or_ge offset buf.length with hlt | hge
  · rw [decodeAt_of_lt hlt]
    exact decodeInner_eq_err h
  · exact ⟨_, decodeAt_of_le hge hpos, .offsetOutOfBounds, _, rfl, nofun⟩

/-- The decoder returns a varint that is there, or an error; it never panics. -/
theorem decode_total (buf : List UInt8) :
    (∃ v n, decode buf = .ok (v, n) ∧ n ≤ buf.length) ∨ ∃ e, decode buf = .err e := by
  cases h : TaggedInt.decode buf with
  | none =>
    obtain ⟨e, he, _⟩ := decode_eq_err h
    exact .inr ⟨e, he⟩
  | some r =>
    left
    rw [decode_eq_decodeInner, decodeInner_eq, h]
    exact ⟨_, r.2, rfl, TaggedInt.framing.next_le h⟩

end Masque.QuicVarint

import Mathlib

/-!
# Text as bytes

`Utf8.encode` writes characters as their UTF-8 bytes and `Utf8.decode` reads them back
(`decode_eq_some`). An ASCII byte stands for its character and occurs in the encoding of no
other, so looking for ASCII in the bytes is looking for it in the text.
-/

namespace Utf8

/-- The UTF-8 bytes of a text. -/
def encode (cs : List Char) : List UInt8 :=
  cs.flatMap String.utf8EncodeChar

/-- `as_bytes`. -/
def bytes (s : String) : List UInt8 :=
  encode s.toList

/-- `String::from_utf8`. -/
def decode (bs : List UInt8) : Option String :=
  String.fromUTF8? bs.toByteArray

@[simp] theorem encode_nil : encode [] = [] := rfl

@[simp] theorem encode_append (cs ds : List Char) : encode (cs ++ ds) = encode cs ++ encode ds :=
  List.flatMap_append

@[simp] theorem bytes_append (s t : String) : bytes (s ++ t) = bytes s ++ bytes t := by
  rw [bytes, String.toList_append, encode_append]
  rfl

theorem toByteArray_encode (cs : List Char) :
    (encode cs).toByteArray = (String.ofList cs).toByteArray :=
  String.toByteArray_ofList.symm

theorem toByteArray_bytes (s : String) : (bytes s).toByteArray = s.toByteArray := by
  rw [bytes, toByteArray_encode, String.ofList_toList]

theorem toByteArray_injective {as bs : List UInt8} (h : as.toByteArray = bs.toByteArray) :
    as = bs := by
  rw [← List.toList_data_toByteArray (l := as), h, List.toList_data_toByteArray]

/-- Bytes are decoded exactly as the text they encode. -/
theorem decode_eq_some {bs : List UInt8} {s : String} : decode bs = some s ↔ bytes s = bs := by
  unfold decode String.fromUTF8?
  constructor
  · intro h
    split_ifs at h with hvalid
    obtain rfl := Option.some.inj h
    exact toByteArray_injective (toByteArray_bytes _)
  · rintro rfl
    have hvalid : (bytes s).toByteArray.IsValidUTF8 :=
      toByteArray_bytes s ▸ s.isValidUTF8
    rw [dif_pos hvalid, Option.some.injEq, ← String.toByteArray_inj]
    exact toByteArray_bytes s

@[simp] theorem decode_bytes (s : String) : decode (bytes s) = some s :=
  decode_eq_some.mpr rfl

/-- A property of all bytes is decided by trying each. -/
instance decidableForallByte (p : UInt8 → Prop) [DecidablePred p] : Decidable (∀ b, p b) :=
  decidable_of_iff (∀ v : BitVec 8, p (UInt8.ofBitVec v))
    ⟨fun h b => h b.toBitVec, fun h _ => h _⟩

section Ascii

/-- The byte of an ASCII character. -/
def ascii (c : Char) : UInt8 := UInt8.ofNat c.toNat

theorem utf8EncodeChar_of_lt {c : Char} (h : c.toNat < 128) :
    String.utf8EncodeChar c = [ascii c] := by
  rw [String.utf8EncodeChar]
  exact if_pos (Nat.lt_succ_iff.mp h)

/-- Every byte of a character outside ASCII has its high bit set. -/
theorem le_of_mem_utf8EncodeChar {c : Char} {b : UInt8} (hc : 128 ≤ c.toNat)
    (hb : b ∈ String.utf8EncodeChar c) : 128 ≤ b.toNat := by
  have hle : ¬c.val.toNat ≤ 0x7f := by
    change ¬c.toNat ≤ 127
    omega
  have hbyte {x : ℕ} (hx : 128 ≤ x) (hlt : x < 256) : 128 ≤ (UInt8.ofNat x).toNat := by
    rw [UInt8.toNat_ofNat', Nat.mod_eq_of_lt hlt]
    exact hx
  rw [String.utf8EncodeChar] at hb
  split_ifs at hb
  all_goals
    simp only [List.mem_cons, List.not_mem_nil, or_false] at hb
    rcases hb with rfl | rfl | rfl | rfl <;> exact hbyte (by omega) (by omega)

theorem toNat_ascii {c : Char} (h : c.toNat < 128) : (ascii c).toNat = c.toNat := by
  rw [ascii, UInt8.toNat_ofNat', Nat.mod_eq_of_lt (by omega)]

theorem ascii_injective {c d : Char} (hc : c.toNat < 128) (hd : d.toNat < 128)
    (h : ascii c = ascii d) : c = d := by
  apply Char.ext
  apply UInt32.toNat_inj.mp
  change c.toNat = d.toNat
  rw [← toNat_ascii hc, ← toNat_ascii hd, h]

/-- An ASCII byte occurs only in the encoding of its own character. -/
theorem eq_of_ascii_mem {c d : Char} (hc : c.toNat < 128)
    (h : ascii c ∈ String.utf8EncodeChar d) : d = c := by
  rcases Nat.lt_or_ge d.toNat 128 with hd | hd
  · rw [utf8EncodeChar_of_lt hd, List.mem_singleton] at h
    exact ascii_injective hd hc h.symm
  · have := le_of_mem_utf8EncodeChar hd h
    rw [toNat_ascii hc] at this
    omega

theorem ascii_mem_encode {c : Char} (hc : c.toNat < 128) {cs : List Char} :
    ascii c ∈ encode cs ↔ c ∈ cs := by
  rw [encode, List.mem_flatMap]
  constructor
  · rintro ⟨d, hd, hmem⟩
    exact eq_of_ascii_mem hc hmem ▸ hd
  · intro h
    exact ⟨c, h, by rw [utf8EncodeChar_of_lt hc]; exact List.mem_singleton_self _⟩

theorem encode_cons (c : Char) (cs : List Char) :
    encode (c :: cs) = String.utf8EncodeChar c ++ encode cs :=
  List.flatMap_cons

theorem encode_cons_of_lt {c : Char} (hc : c.toNat < 128) (cs : List Char) :
    encode (c :: cs) = ascii c :: encode cs := by
  rw [encode_cons, utf8EncodeChar_of_lt hc]
  rfl

/-- Text of ASCII characters takes one byte for each. -/
theorem length_encode_of_lt {cs : List Char} (h : ∀ c ∈ cs, c.toNat < 128) :
    (encode cs).length = cs.length := by
  induction cs with
  | nil => rfl
  | cons c cs ih =>
    rw [encode_cons_of_lt (h c List.mem_cons_self), List.length_cons, List.length_cons,
      ih fun d hd => h d (List.mem_cons_of_mem c hd)]

theorem encode_replicate {c : Char} (hc : c.toNat < 128) (n : ℕ) :
    encode (List.replicate n c) = List.replicate n (ascii c) := by
  induction n with
  | zero => rfl
  | succ n ih => rw [List.replicate_succ, encode_cons_of_lt hc, ih, List.replicate_succ]

/-- A text begins with an ASCII character exactly when its bytes begin with its byte. -/
theorem head?_encode {c : Char} (hc : c.toNat < 128) {cs : List Char} :
    (encode cs).head? = some (ascii c) ↔ cs.head? = some c := by
  cases cs with
  | nil => simp
  | cons d cs =>
    obtain ⟨b, bs, hbs⟩ := List.exists_cons_of_ne_nil (String.utf8EncodeChar_ne_nil (c := d))
    rw [encode_cons, hbs, List.cons_append, List.head?_cons, List.head?_cons,
      Option.some.injEq, Option.some.injEq]
    constructor
    · rintro rfl
      exact eq_of_ascii_mem hc (hbs ▸ List.mem_cons_self)
    · rintro rfl
      rw [utf8EncodeChar_of_lt hc] at hbs
      exact (List.cons.inj hbs).1.symm

theorem getLast?_encode {c : Char} (hc : c.toNat < 128) {cs : List Char} :
    (encode cs).getLast? = some (ascii c) ↔ cs.getLast? = some c := by
  rcases List.eq_nil_or_concat cs with rfl | ⟨ds, d, rfl⟩
  · simp
  · rw [List.concat_eq_append, encode_append, List.getLast?_append,
      List.getLast?_append, List.getLast?_singleton, Option.some_or, Option.some.injEq,
      encode_cons, encode_nil, List.append_nil,
      Option.or_of_isSome (by simp [String.utf8EncodeChar_ne_nil])]
    constructor
    · intro h
      exact eq_of_ascii_mem hc (List.mem_of_getLast? h)
    · rintro rfl
      rw [utf8EncodeChar_of_lt hc, List.getLast?_singleton]

/-- An ASCII byte with a property comes from an ASCII character with it. -/
theorem exists_mem_encode {p : UInt8 → Prop} (hp : ∀ b, p b → b.toNat < 128)
    {cs : List Char} :
    (∃ b ∈ encode cs, p b) ↔ ∃ c ∈ cs, c.toNat < 128 ∧ p (ascii c) := by
  constructor
  · rintro ⟨b, hb, hpb⟩
    obtain ⟨c, hc, hbc⟩ := List.mem_flatMap.mp hb
    rcases Nat.lt_or_ge c.toNat 128 with hlt | hge
    · rw [utf8EncodeChar_of_lt hlt, List.mem_singleton] at hbc
      exact ⟨c, hc, hlt, hbc ▸ hpb⟩
    · have := le_of_mem_utf8EncodeChar hge hbc
      have := hp b hpb
      omega
  · rintro ⟨c, hc, hlt, hpc⟩
    exact ⟨ascii c, (ascii_mem_encode hlt).mpr hc, hpc⟩

/-- All bytes have an ASCII property exactly when all characters are ASCII and have it. -/
theorem forall_mem_encode {p : UInt8 → Prop} (hp : ∀ b, p b → b.toNat < 128)
    {cs : List Char} :
    (∀ b ∈ encode cs, p b) ↔ ∀ c ∈ cs, c.toNat < 128 ∧ p (ascii c) := by
  constructor
  · intro h c hc
    have hlt : c.toNat < 128 := by
      by_contra hge
      obtain ⟨b, bs, hbs⟩ := List.exists_cons_of_ne_nil (String.utf8EncodeChar_ne_nil (c := c))
      have hb : b ∈ String.utf8EncodeChar c := hbs ▸ List.mem_cons_self
      have := le_of_mem_utf8EncodeChar (not_lt.mp hge) hb
      have := hp b (h b (List.mem_flatMap.mpr ⟨c, hc, hb⟩))
      omega
    exact ⟨hlt, h _ ((ascii_mem_encode hlt).mpr hc)⟩
  · intro h b hb
    obtain ⟨c, hc, hbc⟩ := List.mem_flatMap.mp hb
    rw [utf8EncodeChar_of_lt (h c hc).1, List.mem_singleton] at hbc
    exact hbc ▸ (h c hc).2

/-- ASCII bytes at the front of a text are its first characters. -/
theorem exists_ascii_prefix {cs : List Char} {front back : List UInt8}
    (h : encode cs = front ++ back) (hfront : ∀ b ∈ front, b.toNat < 128) :
    ∃ ds es, cs = ds ++ es ∧ encode ds = front ∧ encode es = back := by
  induction front generalizing cs with
  | nil => exact ⟨[], cs, rfl, rfl, h⟩
  | cons b front ih =>
    cases cs with
    | nil => cases h
    | cons c cs =>
      have hlt : c.toNat < 128 := by
        by_contra hge
        obtain ⟨d, ds, hds⟩ := List.exists_cons_of_ne_nil (String.utf8EncodeChar_ne_nil (c := c))
        rw [encode_cons, hds] at h
        have := le_of_mem_utf8EncodeChar (not_lt.mp hge) (hds ▸ List.mem_cons_self)
        have := hfront b List.mem_cons_self
        rw [← (List.cons.inj h).1] at this
        omega
      rw [encode_cons_of_lt hlt, List.cons_append] at h
      obtain ⟨rfl, htail⟩ := List.cons.inj h
      obtain ⟨ds, es, rfl, hds, hes⟩ := ih htail fun b hb => hfront b (List.mem_cons_of_mem _ hb)
      exact ⟨c :: ds, es, rfl, by rw [encode_cons_of_lt hlt, hds], hes⟩

/-- ASCII bytes turned into characters are encoded as themselves. -/
theorem encode_map_ofNat {bs : List UInt8} (h : ∀ b ∈ bs, b.toNat < 128) :
    encode (bs.map fun b => Char.ofNat b.toNat) = bs := by
  induction bs with
  | nil => rfl
  | cons b bs ih =>
    rw [List.forall_mem_cons] at h
    have hvalid : b.toNat.isValidChar := Or.inl (by omega)
    have hchar : (Char.ofNat b.toNat).toNat = b.toNat := by
      rw [Char.toNat_ofNat, if_pos hvalid]
    rw [List.map_cons, encode_cons_of_lt (by omega), ih h.2, ascii, hchar, UInt8.ofNat_toNat]

/-- `is_ascii_digit`. -/
def isDigit (b : UInt8) : Bool := ascii '0' ≤ b && b ≤ ascii '9'

/-- `is_ascii_lowercase`. -/
def isLowercase (b : UInt8) : Bool := ascii 'a' ≤ b && b ≤ ascii 'z'

/-- `is_ascii_alphabetic`. -/
def isAlphabetic (b : UInt8) : Bool := (ascii 'A' ≤ b && b ≤ ascii 'Z') || isLowercase b

/-- `is_ascii_alphanumeric`. -/
def isAlphanumeric (b : UInt8) : Bool := isAlphabetic b || isDigit b

/-- A property of ASCII characters is decided by trying each. -/
theorem forall_ascii {p : Char → Prop} (h : ∀ n : Fin 128, p (Char.ofNat n)) {c : Char}
    (hc : c.toNat < 128) : p c := by
  have := h ⟨c.toNat, hc⟩
  rwa [Char.ofNat_toNat] at this

theorem isDigit_ascii {c : Char} (hc : c.toNat < 128) : isDigit (ascii c) = c.isDigit :=
  forall_ascii (p := fun c => isDigit (ascii c) = c.isDigit) (by decide) hc

theorem lt_of_isDigit {c : Char} (h : c.isDigit = true) : c.toNat < 128 := by
  simp only [Char.isDigit, Bool.and_eq_true, decide_eq_true_eq, UInt32.le_iff_toNat_le] at h
  exact lt_of_le_of_lt h.2 (by decide)

/-- The bytes of a text are digits exactly when its characters are. -/
theorem all_isDigit_bytes {s : String} :
    (bytes s).all isDigit = true ↔ ∀ c ∈ s.toList, c.isDigit = true := by
  rw [List.all_eq_true]
  refine (forall_mem_encode (p := fun b => isDigit b = true) (by decide)).trans ?_
  constructor
  · intro h c hc
    rw [← isDigit_ascii (h c hc).1]
    exact (h c hc).2
  · intro h c hc
    have hlt := lt_of_isDigit (h c hc)
    exact ⟨hlt, by rw [isDigit_ascii hlt, h c hc]⟩

end Ascii

end Utf8

import Masque.CapsuleProtocol
import Masque.Library.Base64

/-!
# Base64 content

`isValidBase64` counts and masks but never decodes. It accepts exactly the base64 texts of
byte strings, with their padding or without any, and returns on every input.
-/

namespace Masque.CapsuleProtocol

open Outcome Utf8 Base64

/-! ## The alphabet -/

/-- The standard alphabet, in the order of the values. -/
def base64Alphabet : List Char :=
  "ABCDEFGHIJKLMNOPQRSTUVWXYZabcdefghijklmnopqrstuvwxyz0123456789+/".toList

def base64Digit (n : ℕ) : UInt8 := ascii (base64Alphabet.getD n 'A')

/-- The standard encoding, with padding. -/
def base64Encode : List UInt8 → List UInt8 := encode base64Digit (ascii '=')

/-- The standard encoding without its padding. -/
def base64EncodeUnpadded (x : List UInt8) : List UInt8 :=
  (base64Encode x).filter (· ≠ ascii '=')

theorem base64Value_digit : ∀ n < 64, (base64Value (base64Digit n)).toNat = n := by
  decide +kernel

theorem isBase64Char_digit : ∀ n < 64, isBase64Char (base64Digit n) = true := by
  decide +kernel

theorem base64Digit_value : ∀ c : UInt8, isBase64Char c = true →
    base64Digit (base64Value c).toNat = c := by
  decide +kernel

theorem base64Value_lt : ∀ c : UInt8, (base64Value c).toNat < 64 := by
  decide +kernel

theorem ne_pad_of_isBase64Char : ∀ c : UInt8, isBase64Char c = true → c ≠ ascii '=' := by
  decide +kernel

theorem base64Digit_ne_pad (n : ℕ) (hn : n < 64) : base64Digit n ≠ ascii '=' :=
  ne_pad_of_isBase64Char _ (isBase64Char_digit n hn)

/-- The values that characters stand for. -/
def base64Values (content : List UInt8) : List ℕ :=
  content.map fun c => (base64Value c).toNat

theorem base64Values_digits {vs : List ℕ} (h : ∀ v ∈ vs, v < 64) :
    base64Values (vs.map base64Digit) = vs := by
  rw [base64Values, List.map_map]
  refine (List.map_congr_left ?_).trans (List.map_id vs)
  intro v hv
  exact base64Value_digit v (h v hv)

theorem digits_base64Values {content : List UInt8}
    (h : ∀ c ∈ content, isBase64Char c = true) :
    (base64Values content).map base64Digit = content := by
  rw [base64Values, List.map_map]
  refine (List.map_congr_left ?_).trans (List.map_id content)
  intro c hc
  exact base64Digit_value c (h c hc)

/-! ## The padding -/

/-- The padding is counted exactly: what precedes it ends in something else. -/
theorem countPadding_eq_some {cs : List UInt8} {n k : ℕ} (h : countPadding cs n = some k) :
    ∃ content, cs = List.replicate (k - n) (ascii '=') ++ content ∧
      content.head? ≠ some (ascii '=') ∧ n ≤ k ∧ (k ≤ n ∨ k ≤ 2) := by
  induction cs generalizing n with
  | nil =>
    obtain rfl := Option.some.inj h
    exact ⟨[], by simp, nofun, le_rfl, .inl le_rfl⟩
  | cons c cs ih =>
    rw [countPadding] at h
    split_ifs at h with hpad hmany
    · obtain ⟨content, hcs, hhead, hle, hk⟩ := ih h
      refine ⟨content, ?_, hhead, by omega, by omega⟩
      rw [hpad, hcs, show k - n = k - (n + 1) + 1 by omega, List.replicate_succ]
      rfl
    · obtain rfl := Option.some.inj h
      refine ⟨c :: cs, by simp, ?_, le_rfl, .inl le_rfl⟩
      intro hhead
      exact hpad (Option.some.inj hhead)

/-- Counting the padding divides the input into content and at most two pads. -/
theorem exists_content {input : List UInt8} {padding : ℕ}
    (h : countPadding input.reverse 0 = some padding) :
    ∃ content, input = content ++ List.replicate padding (ascii '=') ∧
      content.getLast? ≠ some (ascii '=') ∧ padding ≤ 2 := by
  obtain ⟨content, hcontent, hhead, -, hpadding⟩ := countPadding_eq_some h
  refine ⟨content.reverse, ?_, ?_, by omega⟩
  · rw [← List.reverse_reverse input, hcontent, List.reverse_append, List.reverse_replicate]
    rfl
  · rw [List.getLast?_reverse]
    exact hhead

/-- Padding in front of something else is counted when there is not too much of it. -/
theorem countPadding_replicate {n k : ℕ} {rest : List UInt8} (hk : n + k ≤ 2)
    (hrest : rest.head? ≠ some (ascii '=')) :
    countPadding (List.replicate k (ascii '=') ++ rest) n = some (n + k) := by
  induction k generalizing n with
  | zero =>
    cases rest with
    | nil => rfl
    | cons c cs =>
      have hc : c ≠ ascii '=' := fun h => hrest (congrArg some h)
      rw [List.replicate_zero, List.nil_append, countPadding, if_neg hc]
      rfl
  | succ k ih =>
    rw [List.replicate_succ, List.cons_append, countPadding, if_pos rfl, if_neg (by omega),
      ih (by omega), Nat.add_assoc, Nat.add_comm 1 k]

/-! ## The checks -/

/-- The content and the padding of a base64 text. -/
structure IsBase64 (content : List UInt8) (padding : ℕ) : Prop where
  chars : ∀ c ∈ content, isBase64Char c = true
  padding : padding = 0 ∨ padding = (4 - content.length % 4) % 4
  values : IsSextets (base64Values content)

theorem and_three_eq_zero : ∀ c : UInt8, c &&& 0b11 = 0 ↔ c.toNat % 4 = 0 := by
  decide +kernel

theorem and_fifteen_eq_zero : ∀ c : UInt8, c &&& 0b1111 = 0 ↔ c.toNat % 16 = 0 := by
  decide +kernel

theorem length_base64Values (content : List UInt8) :
    (base64Values content).length = content.length :=
  List.length_map _

theorem getLast?_base64Values {content : List UInt8} {last : UInt8}
    (h : content.getLast? = some last) :
    (base64Values content).getLast? = some (base64Value last).toNat := by
  rw [base64Values, List.getLast?_map, h]
  rfl

/-- The values of whole characters are sextets when the unused bits of the last are zero. -/
theorem isSextets_iff {content : List UInt8} {last : UInt8}
    (h : content.getLast? = some last) :
    IsSextets (base64Values content) ↔ content.length % 4 ≠ 1 ∧
      (content.length % 4 = 2 → base64Value last &&& 0b1111 = 0) ∧
      (content.length % 4 = 3 → base64Value last &&& 0b11 = 0) := by
  have hlast := getLast?_base64Values h
  have hlen := length_base64Values content
  rw [and_three_eq_zero, and_fifteen_eq_zero]
  constructor
  · rintro ⟨-, hne, hfour, htwo⟩
    rw [hlen] at hne hfour htwo
    exact ⟨hne, fun h => hfour h _ hlast, fun h => htwo h _ hlast⟩
  · rintro ⟨hne, hfour, htwo⟩
    refine ⟨?_, hlen ▸ hne, ?_, ?_⟩
    · intro v hv
      obtain ⟨c, -, rfl⟩ := List.mem_map.mp hv
      exact base64Value_lt c
    all_goals
      rw [hlen, hlast]
      rintro h v ⟨⟩
    · exact hfour h
    · exact htwo h

/-- The bits of the last value that stand for the padding. -/
def unusedMask (padding : ℕ) : UInt8 :=
  match padding with
  | 1 => 0b11
  | 2 => 0b1111
  | _ => 0

section Checks

variable {content : List UInt8} {last : UInt8} {padding : ℕ}

/-- On content and padding, what is left of the function are its checks, made for the
padding that was given or else restored. -/
theorem isValidBase64_reduce (hlast : content.getLast? = some last) (hpad : last ≠ ascii '=')
    (hle : padding ≤ 2) :
    ∃ restored, (padding = 0 ∧ restored = (4 - content.length % 4) % 4 ∨
        0 < padding ∧ restored = padding) ∧
      isValidBase64 (content ++ List.replicate padding (ascii '=')) =
        if content.all isBase64Char = true ∧ restored ≠ 3 ∧
            (content.length + restored) % 4 = 0 then
          .ok (decide (base64Value last &&& unusedMask restored = 0))
        else .ok false := by
  have hpos : 0 < content.length := List.length_pos_of_mem (List.mem_of_getLast? hlast)
  have hempty : ¬(content ++ List.replicate padding (ascii '=')).isEmpty = true := by
    rw [List.isEmpty_iff_length_eq_zero, List.length_append]
    omega
  have hcount : countPadding (content ++ List.replicate padding (ascii '=')).reverse 0 =
      some padding := by
    rw [List.reverse_append, List.reverse_replicate,
      countPadding_replicate (by omega), Nat.zero_add]
    rw [List.head?_reverse, hlast]
    exact fun h => hpad (Option.some.inj h)
  have hindex : (index (content ++ List.replicate padding (ascii '='))
      (content.length - 1) : Outcome Unit _) = .ok last := by
    rw [index_eq_ok, List.getElem?_append_left (by omega), ← hlast, List.getLast?_eq_getElem?]
  unfold isValidBase64
  rw [if_neg hempty, hcount]
  dsimp only
  rw [List.length_append, List.length_replicate, if_neg (by omega), Nat.add_sub_cancel,
    if_neg (by omega), slice_zero_append _ _ rfl, ok_bind, hindex]
  generalize hrestored : (if padding = 0 then (4 - content.length % 4) % 4 else padding) =
    restored
  -- Given padding is kept, none is restored, so the second choice between them is idle.
  have hgiven : padding = 0 ∧ restored = (4 - content.length % 4) % 4 ∨
      0 < padding ∧ restored = padding := by
    split_ifs at hrestored with hzero
    · exact .inl ⟨hzero, hrestored.symm⟩
    · exact .inr ⟨by omega, hrestored.symm⟩
  have heffective : (if padding = 0 then restored else padding) = restored := by
    rcases hgiven with ⟨hzero, -⟩ | ⟨hpadding, h⟩
    · exact if_pos hzero
    · rw [if_neg (Nat.ne_of_gt hpadding), h]
  refine ⟨restored, hgiven, ?_⟩
  rw [heffective]
  by_cases hchecks : content.all isBase64Char = true ∧ restored ≠ 3 ∧
      (content.length + restored) % 4 = 0
  · rw [if_pos hchecks]
    obtain ⟨hall, hthree, hgroups⟩ := hchecks
    have hpass : ¬(restored = 3 ∨ (content.length + restored) % 4 ≠ 0) := by
      rintro (h | h)
      · exact hthree h
      · exact h hgroups
    rw [hall, Bool.not_true, if_neg Bool.false_ne_true, if_neg hpass]
    obtain rfl | rfl | rfl : restored = 0 ∨ restored = 1 ∨ restored = 2 := by omega
    · simp [unusedMask]
    · by_cases hunused : base64Value last &&& 0b11 = 0 <;> simp [unusedMask, hunused]
    · by_cases hunused : base64Value last &&& 0b1111 = 0 <;> simp [unusedMask, hunused]
  · rw [if_neg hchecks]
    by_cases hall : content.all isBase64Char = true
    · have hgroups : restored = 3 ∨ (content.length + restored) % 4 ≠ 0 := by
        by_contra hpass
        rw [not_or, not_not] at hpass
        exact hchecks ⟨hall, hpass⟩
      rw [hall, Bool.not_true, if_neg Bool.false_ne_true, if_pos hgroups]
    · rw [if_pos (by simpa using hall)]

/-- The checks of the length ask for whole groups and for all of their padding or none. -/
theorem groups_iff {n restored : ℕ} (hle : padding ≤ 2)
    (h : padding = 0 ∧ restored = (4 - n % 4) % 4 ∨ 0 < padding ∧ restored = padding) :
    (restored ≠ 3 ∧ (n + restored) % 4 = 0) ↔
      n % 4 ≠ 1 ∧ (padding = 0 ∨ padding = (4 - n % 4) % 4) := by
  obtain ⟨rfl, rfl⟩ | ⟨hpos, rfl⟩ := h
  · rw [or_iff_left_of_imp (fun _ => rfl)]
    omega
  · rw [or_iff_right (Nat.ne_of_gt hpos)]
    omega

/-- The checks decide whether content and padding make a base64 text. -/
theorem isValidBase64_append (hlast : content.getLast? = some last) (hpad : last ≠ ascii '=')
    (hle : padding ≤ 2) :
    ∃ valid, isValidBase64 (content ++ List.replicate padding (ascii '=')) = .ok valid ∧
      (valid = true ↔ IsBase64 content padding) := by
  obtain ⟨restored, hrestored, heq⟩ := isValidBase64_reduce hlast hpad hle
  have hsextets := isSextets_iff hlast
  have hlength := groups_iff hle hrestored
  rw [heq]
  by_cases hchecks : content.all isBase64Char = true ∧ restored ≠ 3 ∧
      (content.length + restored) % 4 = 0
  · obtain ⟨hall, hgroups⟩ := id hchecks
    obtain ⟨hne, hpadding⟩ := hlength.mp hgroups
    have hbase : IsBase64 content padding ↔
        (content.length % 4 = 2 → base64Value last &&& 0b1111 = 0) ∧
          (content.length % 4 = 3 → base64Value last &&& 0b11 = 0) := by
      constructor
      · exact fun h => (hsextets.mp h.values).2
      · exact fun h => ⟨List.all_eq_true.mp hall, hpadding, hsextets.mpr ⟨hne, h⟩⟩
    have hlt : restored < 4 := by
      obtain ⟨-, rfl⟩ | ⟨-, rfl⟩ := hrestored
      · exact Nat.mod_lt _ (by decide)
      · omega
    refine ⟨_, if_pos hchecks, ?_⟩
    rw [decide_eq_true_iff, hbase]
    clear hrestored hlength hpadding hchecks
    -- The padding that was restored tells how many characters the last group has.
    obtain rfl | rfl | rfl : restored = 0 ∨ restored = 1 ∨ restored = 2 := by omega
    · have hfull : content.length % 4 = 0 := hgroups.2
      simp [unusedMask, hfull]
    · have hthree : content.length % 4 = 3 := by omega
      simp [unusedMask, hthree]
    · have htwo : content.length % 4 = 2 := by omega
      simp [unusedMask, htwo]
  · refine ⟨false, if_neg hchecks, iff_of_false Bool.false_ne_true ?_⟩
    rintro ⟨hchars, hpadding, hvalues⟩
    obtain ⟨hne, -⟩ := hsextets.mp hvalues
    exact hchecks ⟨List.all_eq_true.mpr hchars, hlength.mpr ⟨hne, hpadding⟩⟩

end Checks

theorem isValidBase64_of_isBase64 {content : List UInt8} {padding : ℕ}
    (h : IsBase64 content padding) :
    isValidBase64 (content ++ List.replicate padding (ascii '=')) = .ok true := by
  have hlen := h.values.length_ne
  have hpadding := h.padding
  rw [length_base64Values] at hlen
  cases hlast : content.getLast? with
  | none =>
    obtain rfl := List.getLast?_eq_none_iff.mp hlast
    obtain rfl : padding = 0 := hpadding.elim id id
    rfl
  | some last =>
    have hpad := ne_pad_of_isBase64Char _ (h.chars _ (List.mem_of_getLast? hlast))
    have hle : padding ≤ 2 := by omega
    obtain ⟨valid, hvalid, hiff⟩ := isValidBase64_append hlast hpad hle
    rw [hvalid, hiff.mpr h]

/-- The check returns on every input, and accepts nothing but content with its padding. -/
theorem isValidBase64_returns (input : List UInt8) :
    ∃ valid, isValidBase64 input = .ok valid ∧
      (valid = true → ∃ content padding,
        input = content ++ List.replicate padding (ascii '=') ∧ IsBase64 content padding) := by
  by_cases hempty : input.isEmpty = true
  · refine ⟨true, if_pos hempty, fun _ => ⟨[], 0, ?_, nofun, .inl rfl, isSextets_sextets []⟩⟩
    exact List.isEmpty_iff.mp hempty
  cases hcount : countPadding input.reverse 0 with
  | none =>
    refine ⟨false, ?_, nofun⟩
    rw [isValidBase64, if_neg hempty, hcount]
  | some padding =>
    obtain ⟨content, rfl, hpad, hle⟩ := exists_content hcount
    cases hlast : content.getLast? with
    | none =>
      obtain rfl := List.getLast?_eq_none_iff.mp hlast
      refine ⟨false, ?_, nofun⟩
      rw [isValidBase64, if_neg hempty, hcount]
      dsimp only
      rw [List.nil_append, List.length_replicate, if_neg (lt_irrefl padding),
        if_pos (Nat.sub_self padding)]
    | some last =>
      rw [hlast] at hpad
      obtain ⟨valid, hvalid, hiff⟩ :=
        isValidBase64_append hlast (fun h => hpad (congrArg some h)) hle
      exact ⟨valid, hvalid, fun h => ⟨content, padding, rfl, hiff.mp h⟩⟩

theorem isValidBase64_eq_ok {input : List UInt8} :
    isValidBase64 input = .ok true ↔ ∃ content padding,
      input = content ++ List.replicate padding (ascii '=') ∧ IsBase64 content padding := by
  constructor
  · intro h
    obtain ⟨valid, hvalid, himp⟩ := isValidBase64_returns input
    rw [hvalid] at h
    exact himp (ok.inj h)
  · rintro ⟨content, padding, rfl, h⟩
    exact isValidBase64_of_isBase64 h

/-- No index is out of bounds and the mask always exists. -/
theorem isValidBase64_total (input : List UInt8) : isValidBase64 input ≠ .panic := by
  obtain ⟨valid, hvalid, -⟩ := isValidBase64_returns input
  rw [hvalid]
  exact ok_ne_panic valid

/-- Valid content holds no colon, so the first colon ends it. -/
theorem colon_notMem_of_valid {input : List UInt8} (h : isValidBase64 input = .ok true) :
    ascii ':' ∉ input := by
  obtain ⟨content, padding, rfl, hbase⟩ := isValidBase64_eq_ok.mp h
  intro hcolon
  rcases List.mem_append.mp hcolon with hmem | hmem
  · exact absurd (hbase.chars _ hmem) (by decide)
  · exact absurd (List.eq_of_mem_replicate hmem) (by decide)

/-! ## The encoding -/

theorem base64EncodeUnpadded_eq (x : List UInt8) :
    base64EncodeUnpadded x = (sextets x).map base64Digit :=
  filter_encode base64Digit (ascii '=') base64Digit_ne_pad x

theorem base64Encode_eq (x : List UInt8) :
    base64Encode x = base64EncodeUnpadded x ++
      List.replicate (padding x.length) (ascii '=') := by
  rw [base64EncodeUnpadded_eq]
  rfl

example : base64Encode [77, 97] = "TWE=".toList.map ascii := by decide

/-- Content makes a base64 text exactly when it encodes something. -/
theorem isBase64_iff {content : List UInt8} {k : ℕ} :
    IsBase64 content k ↔
      ∃ x, content = base64EncodeUnpadded x ∧ (k = 0 ∨ k = padding x.length) := by
  constructor
  · rintro ⟨hchars, hpadding, hvalues⟩
    obtain ⟨x, hx⟩ := exists_sextets_iff.mpr hvalues
    refine ⟨x, ?_, ?_⟩
    · rw [base64EncodeUnpadded_eq, hx, digits_base64Values hchars]
    · rw [padding_length, hx, length_base64Values]
      exact hpadding
  · rintro ⟨x, rfl, hk⟩
    rw [base64EncodeUnpadded_eq]
    have hlt := (isSextets_sextets x).lt
    refine ⟨?_, ?_, ?_⟩
    · intro c hc
      obtain ⟨v, hv, rfl⟩ := List.mem_map.mp hc
      exact isBase64Char_digit v (hlt v hv)
    · rw [List.length_map, ← padding_length]
      exact hk
    · rw [base64Values_digits hlt]
      exact isSextets_sextets x

/-- The accepted texts are the encodings of byte strings, with or without their padding. -/
theorem isValidBase64_iff_encode {input : List UInt8} :
    isValidBase64 input = .ok true ↔
      ∃ x, input = base64Encode x ∨ input = base64EncodeUnpadded x := by
  rw [isValidBase64_eq_ok]
  constructor
  · rintro ⟨content, k, rfl, hbase⟩
    obtain ⟨x, rfl, hk⟩ := isBase64_iff.mp hbase
    refine ⟨x, ?_⟩
    rcases hk with rfl | rfl
    · exact .inr (List.append_nil _)
    · exact .inl (base64Encode_eq x).symm
  · rintro ⟨x, rfl | rfl⟩
    · exact ⟨_, _, base64Encode_eq x, isBase64_iff.mpr ⟨x, rfl, .inr rfl⟩⟩
    · exact ⟨_, 0, (List.append_nil _).symm, isBase64_iff.mpr ⟨x, rfl, .inl rfl⟩⟩

/-- The check returns on every input and accepts exactly the canonical base64 texts. So it
rejects padding that is partial, in excess or in the middle, a last group of one character,
and unused bits that are not zero. -/
theorem isValidBase64_canonical (input : List UInt8) :
    (∃ valid, isValidBase64 input = .ok valid) ∧
    (isValidBase64 input = .ok true ↔
      ∃ x, input = base64Encode x ∨ input = base64EncodeUnpadded x) ∧
    (isValidBase64 input = .ok true → input.length % 4 ≠ 1 ∧
      ∃ content k, input = content ++ List.replicate k (ascii '=') ∧ ascii '=' ∉ content ∧
        (k = 0 ∨ k = (4 - content.length % 4) % 4) ∧ content.length % 4 ≠ 1 ∧
        ∀ last ∈ content.getLast?,
          (content.length % 4 = 2 → base64Value last &&& 0b1111 = 0) ∧
            (content.length % 4 = 3 → base64Value last &&& 0b11 = 0)) := by
  refine ⟨?_, isValidBase64_iff_encode, ?_⟩
  · obtain ⟨valid, hvalid, -⟩ := isValidBase64_returns input
    exact ⟨valid, hvalid⟩
  · intro h
    obtain ⟨content, k, rfl, hbase⟩ := isValidBase64_eq_ok.mp h
    have hpadding := hbase.padding
    have hne := hbase.values.length_ne
    rw [length_base64Values] at hne
    refine ⟨?_, content, k, rfl, ?_, hpadding, hne, ?_⟩
    · rw [List.length_append, List.length_replicate]
      omega
    · exact fun hmem => ne_pad_of_isBase64Char _ (hbase.chars _ hmem) rfl
    · intro last hlast
      exact ((isSextets_iff hlast).mp hbase.values).2

end Masque.CapsuleProtocol

import Masque.Library.Scan
import Masque.Library.Utf8

/-!
# String slices

The methods of `str` on `String`. Offsets and lengths count UTF-8 bytes, and a slice that
does not lie on character boundaries panics. Each method has a characterisation by the
characters of the string.
-/

universe u

namespace Str

open Utf8

variable {ε : Type u}

/-- `len`. -/
def len (s : String) : ℕ := (bytes s).length

@[simp] theorem len_append (s t : String) : len (s ++ t) = len s + len t := by
  rw [len, bytes_append, List.length_append]
  rfl

/-- `is_char_boundary`. -/
def isCharBoundary (s : String) (n : ℕ) : Bool :=
  n ≤ len s && (decode ((bytes s).take n)).isSome

/-- `&s[a..b]`. -/
def slice (s : String) (a b : ℕ) : Outcome ε String :=
  if a ≤ b ∧ isCharBoundary s a ∧ isCharBoundary s b then
    match decode (((bytes s).take b).drop a) with
    | some t => .ok t
    | none => .panic
  else .panic

/-- `&s[a..]`. -/
def sliceFrom (s : String) (a : ℕ) : Outcome ε String := slice s a (len s)

theorem isCharBoundary_append (s t : String) : isCharBoundary (s ++ t) (len s) = true := by
  have htake : (bytes (s ++ t)).take (len s) = bytes s := by
    rw [bytes_append]
    exact List.take_left
  rw [isCharBoundary, htake, decode_bytes, len_append]
  simp

/-- A slice between the parts of a string is its middle part. -/
theorem slice_append (s t r : String) :
    (slice (s ++ t ++ r) (len s) (len s + len t) : Outcome ε String) = .ok t := by
  have hb := isCharBoundary_append (s ++ t) r
  have ha := isCharBoundary_append s (t ++ r)
  rw [← String.append_assoc] at ha
  rw [len_append] at hb
  have hmid : ((bytes (s ++ t ++ r)).take (len s + len t)).drop (len s) = bytes t := by
    have htake : (bytes s ++ bytes t ++ bytes r).take (len s + len t) = bytes s ++ bytes t :=
      List.take_left' (List.length_append ..)
    rw [bytes_append, bytes_append, htake]
    exact List.drop_left
  rw [slice, if_pos ⟨Nat.le_add_right _ _, ha, hb⟩, hmid, decode_bytes]

theorem sliceFrom_append (s t : String) :
    (sliceFrom (s ++ t) (len s) : Outcome ε String) = .ok t := by
  have := slice_append (ε := ε) s t ""
  rw [String.append_empty] at this
  rw [sliceFrom, len_append, this]

/-- `contains`. -/
def contains (s : String) (c : Char) : Bool := s.toList.contains c

/-- `starts_with`. -/
def startsWith (s : String) (c : Char) : Bool := s.toList.head? == some c

/-- `ends_with`. -/
def endsWith (s : String) (c : Char) : Bool := s.toList.getLast? == some c

section Split

variable {s a b : String} {c : Char}

/-- `split_once`: the parts around the first `c`. -/
def splitOnce (s : String) (c : Char) : Option (String × String) :=
  match s.toList.dropWhile (· != c) with
  | [] => none
  | _ :: back => some (String.ofList (s.toList.takeWhile (· != c)), String.ofList back)

/-- `rsplit_once`: the parts around the last `c`. -/
def rsplitOnce (s : String) (c : Char) : Option (String × String) :=
  match s.toList.reverse.dropWhile (· != c) with
  | [] => none
  | _ :: front =>
    some (String.ofList front.reverse,
      String.ofList (s.toList.reverse.takeWhile (· != c)).reverse)

/-- The first occurrence of a character divides a list. -/
theorem dropWhile_ne_eq_cons {cs back : List Char} {d : Char}
    (h : cs.dropWhile (· != c) = d :: back) :
    d = c ∧ cs = cs.takeWhile (· != c) ++ c :: back ∧ c ∉ cs.takeWhile (· != c) := by
  have hd : d = c := by
    have := Scan.stops_dropWhile (p := (· != c)) cs d (by rw [h]; rfl)
    simpa using this
  refine ⟨hd, ?_, fun hmem => ?_⟩
  · nth_rewrite 1 [← List.takeWhile_append_dropWhile (p := (· != c)) (l := cs)]
    rw [h, hd]
  · simpa using List.mem_takeWhile_imp hmem

theorem span_ne_append {front : List Char} (back : List Char) (h : c ∉ front) :
    (front ++ c :: back).takeWhile (· != c) = front ∧
      (front ++ c :: back).dropWhile (· != c) = c :: back := by
  have hfront : ∀ x ∈ front, (x != c) = true := by
    intro x hx
    simpa using fun hxc : x = c => h (hxc ▸ hx)
  have hstop : Scan.Stops (· != c) (c :: back) := by
    intro x hx
    simpa using (Option.some.inj hx).symm
  exact ⟨Scan.takeWhile_append_of_stops hfront hstop,
    Scan.dropWhile_append_of_stops hfront hstop⟩

theorem splitOnce_eq_some :
    splitOnce s c = some (a, b) ↔ s.toList = a.toList ++ c :: b.toList ∧ c ∉ a.toList := by
  unfold splitOnce
  constructor
  · intro h
    cases hdrop : s.toList.dropWhile (· != c) with
    | nil => simp [hdrop] at h
    | cons d back =>
      obtain ⟨-, hs, hc⟩ := dropWhile_ne_eq_cons hdrop
      rw [hdrop] at h
      obtain ⟨rfl, rfl⟩ := Prod.mk.inj (Option.some.inj h)
      rw [String.toList_ofList, String.toList_ofList]
      exact ⟨hs, hc⟩
  · rintro ⟨hs, hc⟩
    obtain ⟨htake, hdrop⟩ := span_ne_append b.toList hc
    rw [hs, htake, hdrop]
    simp only [String.ofList_toList]

theorem splitOnce_eq_none : splitOnce s c = none ↔ c ∉ s.toList := by
  unfold splitOnce
  constructor
  · intro h hmem
    cases hdrop : s.toList.dropWhile (· != c) with
    | nil => simpa using List.dropWhile_eq_nil_iff.mp hdrop c hmem
    | cons d back => simp [hdrop] at h
  · intro h
    have hall : ∀ x ∈ s.toList, (x != c) = true := by
      intro x hx
      simpa using fun hxc : x = c => h (hxc ▸ hx)
    rw [List.dropWhile_eq_nil_iff.mpr hall]

theorem rsplitOnce_eq_some :
    rsplitOnce s c = some (a, b) ↔ s.toList = a.toList ++ c :: b.toList ∧ c ∉ b.toList := by
  unfold rsplitOnce
  constructor
  · intro h
    cases hdrop : s.toList.reverse.dropWhile (· != c) with
    | nil => simp [hdrop] at h
    | cons d front =>
      obtain ⟨-, hs, hc⟩ := dropWhile_ne_eq_cons hdrop
      rw [hdrop] at h
      obtain ⟨rfl, rfl⟩ := Prod.mk.inj (Option.some.inj h)
      rw [String.toList_ofList, String.toList_ofList, List.mem_reverse]
      refine ⟨?_, hc⟩
      have hrev := congrArg List.reverse hs
      rw [List.reverse_reverse, List.reverse_append, List.reverse_cons, List.append_assoc] at hrev
      exact hrev
  · rintro ⟨hs, hc⟩
    obtain ⟨htake, hdrop⟩ := span_ne_append a.toList.reverse
      (fun h => hc (List.mem_reverse.mp h))
    have hrev : s.toList.reverse = b.toList.reverse ++ c :: a.toList.reverse := by
      rw [hs]
      simp
    rw [hrev, htake, hdrop]
    simp only [List.reverse_reverse, String.ofList_toList]

/-- `split`: the parts between the occurrences of `c`. -/
def split (s : String) (c : Char) : List String :=
  (s.toList.splitOn c).map String.ofList

/-- The parts joined again are the string. -/
theorem intercalate_split (s : String) (c : Char) :
    [c].intercalate ((split s c).map String.toList) = s.toList := by
  rw [split, List.map_map]
  have hid : String.toList ∘ String.ofList = id := funext fun _ => String.toList_ofList
  rw [hid, List.map_id, List.intercalate_splitOn]

/-- The parts with `c` between them. -/
def join (parts : List String) (c : Char) : String :=
  String.ofList ([c].intercalate (parts.map String.toList))

/-- Parts without the separator are what their join is split into. -/
theorem split_join {parts : List String} (hne : parts ≠ []) (h : ∀ p ∈ parts, c ∉ p.toList) :
    split (join parts c) c = parts := by
  have hparts : ∀ l ∈ parts.map String.toList, c ∉ l := by
    intro l hl
    obtain ⟨p, hp, rfl⟩ := List.mem_map.mp hl
    exact h p hp
  have hid : String.ofList ∘ String.toList = id := funext fun _ => String.ofList_toList
  rw [split, join, String.toList_ofList,
    List.splitOn_intercalate c hparts (by simpa using hne), List.map_map, hid, List.map_id]

theorem perm_intercalate (x : Char) (ls : List (List Char)) :
    ([x].intercalate ls).Perm (ls.flatten ++ List.replicate (ls.length - 1) x) := by
  induction ls with
  | nil => exact .nil
  | cons l ls ih =>
    cases ls with
    | nil => simp
    | cons l' ls =>
      rw [List.intercalate_cons_cons, List.flatten_cons, List.length_cons,
        Nat.add_sub_cancel, List.length_cons, List.replicate_succ, List.append_assoc,
        List.append_assoc]
      refine List.Perm.append_left l ?_
      refine List.Perm.trans ?_ List.perm_middle.symm
      exact ih.cons x

/-- Strings with the same parts in another order have the same characters. -/
theorem perm_of_perm_split {t : String} (h : (split s c).Perm (split t c)) :
    s.toList.Perm t.toList := by
  have hparts := h.map String.toList
  rw [← intercalate_split s c, ← intercalate_split t c]
  refine (perm_intercalate c _).trans (List.Perm.trans ?_ (perm_intercalate c _).symm)
  rw [hparts.length_eq]
  exact hparts.flatten.append_right _

theorem len_eq_of_perm {t : String} (h : s.toList.Perm t.toList) : len s = len t :=
  (h.flatMap_right _).length_eq

end Split

/-- `char::is_whitespace`. -/
def isWhitespace (c : Char) : Bool :=
  (0x09 ≤ c.toNat && c.toNat ≤ 0x0D) || (0x2000 ≤ c.toNat && c.toNat ≤ 0x200A) ||
    [0x20, 0x85, 0xA0, 0x1680, 0x2028, 0x2029, 0x202F, 0x205F, 0x3000].contains c.toNat

/-- `trim`. -/
def trim (s : String) : String := String.ofList (Scan.trim isWhitespace s.toList)

theorem trim_eq_iff {s t : String} :
    trim s = t ↔ Scan.Trims isWhitespace s.toList t.toList := by
  rw [← Scan.trim_eq_iff, trim, ← String.toList_inj, String.toList_ofList]

/-- Trimming twice is trimming once. -/
theorem trim_trim (s : String) : trim (trim s) = trim s := by
  obtain ⟨-, hhead, hlast⟩ := trim_eq_iff.mp (rfl : trim s = trim s)
  exact trim_eq_iff.mpr ⟨⟨[], [], by simp, nofun, nofun⟩, hhead, hlast⟩

/-- `eq_ignore_ascii_case` on bytes. -/
def eqIgnoreAsciiCase (as bs : List UInt8) : Bool :=
  as.map toAsciiLowercase == bs.map toAsciiLowercase
where
  toAsciiLowercase (b : UInt8) : UInt8 :=
    if ascii 'A' ≤ b ∧ b ≤ ascii 'Z' then b + 32 else b

section Ports

/-- The digits of a `u16`, read behind a number `acc`. -/
def readU16 : List Char → ℕ → Option UInt16
  | [], acc => some (UInt16.ofNat acc)
  | c :: cs, acc =>
    if c.isDigit then
      let acc := 10 * acc + (c.toNat - '0'.toNat)
      if acc < 2 ^ 16 then readU16 cs acc else none
    else none

/-- `parse::<u16>`: digits, possibly behind a plus sign. -/
def parseU16 (s : String) : Option UInt16 :=
  match s.toList with
  | [] => none
  | '+' :: c :: cs => readU16 (c :: cs) 0
  | cs => readU16 cs 0

theorem le_ofDigitChars (cs : List Char) (acc : ℕ) : acc ≤ Nat.ofDigitChars 10 cs acc := by
  rw [Nat.ofDigitChars_eq_ofDigitChars_zero]
  have : 1 * acc ≤ 10 ^ cs.length * acc :=
    Nat.mul_le_mul_right _ (Nat.one_le_pow _ _ (by decide))
  omega

theorem readU16_eq_some {cs : List Char} {acc : ℕ} {n : UInt16} (hacc : acc < 2 ^ 16) :
    readU16 cs acc = some n ↔
      (∀ c ∈ cs, c.isDigit = true) ∧ Nat.ofDigitChars 10 cs acc = n.toNat := by
  induction cs generalizing acc with
  | nil =>
    rw [readU16, Option.some.injEq, ← UInt16.toNat_inj, UInt16.toNat_ofNat_of_lt' hacc]
    simp
  | cons c cs ih =>
    have hle := le_ofDigitChars cs (10 * acc + (c.toNat - '0'.toNat))
    have hn := n.toNat_lt
    rw [readU16, Nat.ofDigitChars_cons, List.forall_mem_cons]
    by_cases hc : c.isDigit = true
    · rw [if_pos hc]
      dsimp only
      by_cases hlt : 10 * acc + (c.toNat - '0'.toNat) < 2 ^ 16
      · rw [if_pos hlt, ih hlt]
        simp [hc]
      · rw [if_neg hlt]
        constructor
        · exact nofun
        · rintro ⟨-, h⟩
          omega
    · simp [hc]

/-- A nonempty string of digits is parsed as the number it denotes. -/
theorem parseU16_eq_some {s : String} {n : UInt16} (hs : ∀ c ∈ s.toList, c.isDigit = true) :
    parseU16 s = some n ↔ s.toList ≠ [] ∧ Nat.ofDigitChars 10 s.toList 0 = n.toNat := by
  unfold parseU16
  split
  · next h => simp [h]
  · next c cs h =>
    exact absurd (hs '+' (h ▸ List.mem_cons_self)) (by decide)
  · next hne _ =>
    rw [readU16_eq_some (by decide)]
    exact ⟨fun h => ⟨hne, h.2⟩, fun h => ⟨hs, h.2⟩⟩

/-- A port is parsed from its decimal display. -/
theorem parseU16_repr (n : UInt16) : parseU16 n.toNat.repr = some n := by
  have hdigits : ∀ c ∈ n.toNat.repr.toList, c.isDigit = true := by
    intro c hc
    rw [Nat.toList_repr] at hc
    exact Nat.isDigit_of_mem_toDigits (by decide) (by decide) hc
  rw [parseU16_eq_some hdigits, Nat.toList_repr]
  exact ⟨Nat.toDigits_ne_nil, Nat.ofDigitChars_ten_toDigits⟩

end Ports

end Str

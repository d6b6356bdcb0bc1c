import Masque.Capsule.Codec

/-!
# The capsules of a stream

What a stream of capsules means under a limit on DATAGRAM values: `reference` decodes the
stream capsule by capsule with the one-shot decoder and keeps the DATAGRAM capsules;
`residue` is what is left where that stops.
-/

namespace Masque.Capsule

open Outcome

variable {limit : ℕ} {s : List UInt8}

/-- A complete DATAGRAM header at the front declares more than the limit. -/
def Oversize (limit : ℕ) (s : List UInt8) : Prop :=
  ∃ l k, header.next s = some ((0, l), k) ∧ limit < l

theorem oversize_iff_of_header {t l k : ℕ} (h : header.next s = some ((t, l), k)) :
    Oversize limit s ↔ t = 0 ∧ limit < l := by
  constructor
  · rintro ⟨l', k', h', hlt⟩
    obtain ⟨⟨rfl, rfl⟩, rfl⟩ : (t = 0 ∧ l = l') ∧ k = k' := by simpa [h] using h'
    exact ⟨rfl, hlt⟩
  · rintro ⟨rfl, hlt⟩
    exact ⟨l, k, h, hlt⟩

theorem not_oversize_of_eq_none (h : header.next s = none) : ¬Oversize limit s := by
  rintro ⟨l, k, h', _⟩
  simp [h] at h'

instance decidableOversize (limit : ℕ) (s : List UInt8) : Decidable (Oversize limit s) :=
  match h : header.next s with
  | none => isFalse (not_oversize_of_eq_none h)
  | some ((_, _), _) => decidable_of_iff _ (oversize_iff_of_header h).symm

/-- Once a header is there, what follows does not change whether it is oversize. -/
theorem oversize_append_iff {t l k : ℕ} (h : header.next s = some ((t, l), k))
    (u : List UInt8) : Oversize limit (s ++ u) ↔ Oversize limit s := by
  rw [oversize_iff_of_header h, oversize_iff_of_header (header.next_append u h)]

theorem Oversize.append (h : Oversize limit s) (u : List UInt8) :
    Oversize limit (s ++ u) := by
  obtain ⟨l, k, hs, hlt⟩ := h
  exact ⟨l, k, header.next_append u hs, hlt⟩

theorem header_of_decode {c : Capsule} {n : ℕ} (h : decode s = .ok (c, n)) :
    ∃ k, header.next s = some ((c.capsuleType.value.toNat, c.value.length), k) := by
  obtain ⟨k, hk, _⟩ := format_next_eq_some.mp (decode_eq_ok.mp h)
  exact ⟨k, hk⟩

/-- One step of the reference: a complete capsule, unless its header is oversize. -/
def accepted (limit : ℕ) : Framing UInt8 Capsule where
  next s := if Oversize limit s then none else (decode s).toOption
  next_pos := by
    intro s c n h
    split_ifs at h
    exact framing.next_pos h
  next_le := by
    intro s c n h
    split_ifs at h
    exact framing.next_le h
  next_append := by
    intro s c n t h
    split_ifs at h with hover
    obtain ⟨k, hk⟩ := header_of_decode (toOption_eq_some.mp h)
    rw [if_neg (by rwa [oversize_append_iff hk])]
    exact framing.next_append t h

/-- The DATAGRAM capsules at the front of a stream, up to the first incomplete or oversize
one. -/
def reference (limit : ℕ) (s : List UInt8) : List Capsule :=
  ((accepted limit).frames s).filter (·.capsuleType.isDatagram)

/-- What is left of a stream where the reference stops. -/
def residue (limit : ℕ) (s : List UInt8) : List UInt8 :=
  (accepted limit).residue s

@[simp] theorem reference_nil : reference limit [] = [] := by
  simp [reference]

@[simp] theorem residue_nil : residue limit [] = [] :=
  Framing.residue_nil _

/-- A reference that cannot take a step is empty and leaves everything. -/
theorem reference_of_none (h : (accepted limit).next s = none) :
    reference limit s = [] ∧ residue limit s = s :=
  ⟨by rw [reference, Framing.frames_of_none _ h, List.filter_nil], Framing.residue_of_none _ h⟩

theorem accepted_of_oversize (h : Oversize limit s) : (accepted limit).next s = none :=
  if_pos h

theorem accepted_of_eq_none (h : header.next s = none) : (accepted limit).next s = none := by
  obtain ⟨e, he⟩ := decode_of_header_eq_none h
  simp [accepted, he]

/-- The reference grows with the stream. -/
theorem reference_append (limit : ℕ) (s t : List UInt8) :
    reference limit (s ++ t) = reference limit s ++ reference limit (residue limit s ++ t) := by
  rw [reference, Framing.frames_append, List.filter_append, reference, reference, residue]

theorem residue_append (limit : ℕ) (s t : List UInt8) :
    residue limit (s ++ t) = residue limit (residue limit s ++ t) :=
  Framing.residue_append _ s t

/-- Reading `s` yields `ys` from a front of whole capsules, and goes on with the rest `s'`. -/
def Resumes (limit : ℕ) (s : List UInt8) (ys : List Capsule) (s' : List UInt8) : Prop :=
  ∃ front, s = front ++ s' ∧ reference limit front = ys ∧ residue limit front = []

namespace Resumes

variable {s' s'' : List UInt8} {ys zs : List Capsule}

theorem reference_eq (h : Resumes limit s ys s') :
    reference limit s = ys ++ reference limit s' := by
  obtain ⟨front, rfl, href, hresidue⟩ := h
  rw [reference_append, href, hresidue, List.nil_append]

theorem residue_eq (h : Resumes limit s ys s') : residue limit s = residue limit s' := by
  obtain ⟨front, rfl, _, hresidue⟩ := h
  rw [residue_append, hresidue, List.nil_append]

theorem rfl : Resumes limit s [] s := ⟨[], by rfl, reference_nil, residue_nil⟩

theorem trans (h : Resumes limit s ys s') (h' : Resumes limit s' zs s'') :
    Resumes limit s (ys ++ zs) s'' := by
  obtain ⟨front, rfl, href, hresidue⟩ := h
  obtain ⟨front', rfl, href', hresidue'⟩ := h'
  refine ⟨front ++ front', (List.append_assoc _ _ _).symm, ?_, ?_⟩
  · rw [reference_append, href, hresidue, List.nil_append, href']
  · rw [residue_append, hresidue, List.nil_append, hresidue']

theorem append (h : Resumes limit s ys s') (t : List UInt8) :
    Resumes limit (s ++ t) ys (s' ++ t) := by
  obtain ⟨front, rfl, href, hresidue⟩ := h
  exact ⟨front, List.append_assoc _ _ _, href, hresidue⟩

end Resumes

section Complete

variable {t : CapsuleType} {l k : ℕ}

variable (limit) in
theorem accepted_of_short (h : header.next s = some ((t.value.toNat, l), k))
    (hshort : s.length < k + l) : (accepted limit).next s = none := by
  simp [accepted, decode_of_header h, hshort]

variable (limit) in
theorem accepted_of_complete (h : header.next s = some ((t.value.toNat, l), k))
    (hlimit : t.isDatagram → l ≤ limit) (hle : k + l ≤ s.length) :
    (accepted limit).next s = some (⟨t, (s.drop k).take l⟩, k + l) := by
  have hover : ¬Oversize limit s := by
    rw [oversize_iff_of_header h, ← CapsuleType.isDatagram_iff]
    rintro ⟨hd, hlt⟩
    exact absurd (hlimit hd) (by omega)
  simp only [accepted, hover, if_false, decode_of_header h, not_lt.mpr hle, toOption_ok]

/-- A complete capsule is a front of its own. -/
theorem resumes_of_complete (h : header.next s = some ((t.value.toNat, l), k))
    (hlimit : t.isDatagram → l ≤ limit) (hle : k + l ≤ s.length) :
    Resumes limit s ([⟨t, (s.drop k).take l⟩].filter (·.capsuleType.isDatagram))
      (s.drop (k + l)) := by
  have hlen : (s.take (k + l)).length = k + l := by
    rw [List.length_take, Nat.min_eq_left hle]
  have hvalue : ((s.take (k + l)).drop k).take l = (s.drop k).take l := by
    rw [List.drop_take, Nat.add_sub_cancel_left, List.take_take, Nat.min_self]
  have hrest : (s.take (k + l)).drop (k + l) = [] := List.drop_eq_nil_of_le hlen.le
  have hnext := accepted_of_complete limit (header_local.next_take h (Nat.le_add_right k l))
    hlimit hlen.ge
  rw [hvalue] at hnext
  refine ⟨s.take (k + l), (List.take_append_drop _ _).symm, ?_, ?_⟩
  · rw [reference, Framing.frames_of_next _ hnext, hrest, Framing.frames_nil]
  · rw [residue, Framing.residue_of_next _ hnext, hrest, Framing.residue_nil]

/-- A complete DATAGRAM capsule within the limit is the next one of the reference. -/
theorem reference_of_datagram (h : header.next s = some ((t.value.toNat, l), k))
    (ht : t.isDatagram = true) (hlimit : l ≤ limit) (hle : k + l ≤ s.length) :
    Resumes limit s [⟨t, (s.drop k).take l⟩] (s.drop (k + l)) := by
  have hresumes := resumes_of_complete h (fun _ => hlimit) hle
  rwa [List.filter_cons_of_pos (by simp [ht]), List.filter_nil] at hresumes

variable (limit) in
/-- A complete capsule of another type is dropped by the reference. -/
theorem reference_of_unknown (h : header.next s = some ((t.value.toNat, l), k))
    (ht : t.isDatagram = false) (hle : k + l ≤ s.length) :
    Resumes limit s [] (s.drop (k + l)) := by
  have hresumes := @resumes_of_complete limit s t l k h (by simp [ht]) hle
  rwa [List.filter_cons_of_neg (by simp [ht]), List.filter_nil] at hresumes

/-- A DATAGRAM capsule ends with the stream exactly when it is not there one byte earlier. -/
theorem Resumes.drop_eq_nil_iff {ys : List Capsule} {received : List UInt8}
    (hresumes : Resumes limit received ys s) (h : header.next s = some ((t.value.toNat, l), k))
    (ht : t.isDatagram = true) (hlimit : l ≤ limit) (hle : k + l ≤ s.length) :
    s.drop (k + l) = [] ↔ (reference limit received.dropLast).length ≤ ys.length := by
  obtain ⟨front, rfl, href, hresidue⟩ := hresumes
  have hpos := header.next_pos h
  have hne : s ≠ [] := by
    rintro rfl
    rw [List.length_nil] at hle
    omega
  rw [List.drop_eq_nil_iff, List.dropLast_append_of_ne_nil hne, reference_append, href, hresidue,
    List.nil_append, List.length_append, List.dropLast_eq_take]
  constructor
  · intro hend
    have hnext := accepted_of_complete limit h (fun _ => hlimit) hle
    have hshort : (accepted limit).next (s.take (s.length - 1)) = none :=
      Framing.next_take_eq_none _ hnext (by omega)
    rw [(reference_of_none hshort).1]
    exact le_rfl
  · intro hlen
    by_contra hlong
    have hfront := header_local.next_take h (n := s.length - 1) (by omega)
    have hread := reference_of_datagram hfront ht hlimit (by rw [List.length_take]; omega)
    rw [hread.reference_eq, List.length_append, List.length_singleton] at hlen
    omega

end Complete

/-- Concatenated canonical encodings are read back in order, the DATAGRAM capsules kept. -/
theorem reference_flatMap_wire (limit : ℕ) {cs : List Capsule} (hvalid : ∀ c ∈ cs, c.Valid)
    (hlimit : ∀ c ∈ cs, c.capsuleType.isDatagram → c.value.length ≤ limit) :
    reference limit (cs.flatMap wire) = cs.filter (·.capsuleType.isDatagram) ∧
      residue limit (cs.flatMap wire) = [] := by
  have hread : ∀ c ∈ cs, ∀ t,
      (accepted limit).next (wire c ++ t) = some (id c, (wire c).length) := by
    intro c hc t
    have hover : ¬Oversize limit (wire c ++ t) := by
      rw [oversize_iff_of_header (header_wire_append (hvalid c hc) t),
        ← CapsuleType.isDatagram_iff]
      rintro ⟨hd, hlt⟩
      exact absurd (hlimit c hc hd) (by omega)
    simp only [accepted, hover, if_false, decode_wire_append (hvalid c hc) t, toOption_ok, id]
  have hframes := (accepted limit).frames_flatMap_append cs hread []
  have hresidue := (accepted limit).residue_flatMap_append cs hread []
  simp only [List.append_nil, Framing.frames_nil, Framing.residue_nil, List.map_id]
    at hframes hresidue
  exact ⟨by rw [reference, hframes], hresidue⟩

end Masque.Capsule

import Masque.Library.Framing

/-!
# Blanked payloads

A stream of headers and payloads with every payload symbol replaced by one fixed symbol.
`blank` keeps all headers, lengths and positions, so it is what remains of a stream for an
observer who does not look into payloads; `blank_take` says that this can be done piece by
piece.
-/

universe u v

namespace Framing

variable {α : Type u} {β : Type v} (F : Framing α β) (len : β → ℕ) (z : α)

/-- The stream with the payload behind every header blanked, as far as it is there. -/
def blank (s : List α) : List α :=
  match h : F.next s with
  | some (x, k) =>
    have := F.next_pos h
    have := F.next_le h
    s.take k ++ (List.replicate (min (len x) (s.length - k)) z ++ blank (s.drop (k + len x)))
  | none => s
termination_by s.length
decreasing_by simp; omega

variable {F len z} {s : List α} {x : β} {k : ℕ}

theorem blank_of_none (h : F.next s = none) : F.blank len z s = s := by
  rw [blank]
  split
  · next h' => simp [h'] at h
  · rfl

theorem blank_of_next (h : F.next s = some (x, k)) :
    F.blank len z s = s.take k ++
      (List.replicate (min (len x) (s.length - k)) z ++ F.blank len z (s.drop (k + len x))) := by
  rw [blank]
  split
  · next y m h' =>
    obtain ⟨rfl, rfl⟩ : y = x ∧ m = k := by simpa [h'] using h
    rfl
  · next h' => simp [h'] at h

/-- Induction header by header, each with its payload. -/
theorem payload_induction (len : β → ℕ) {motive : List α → Prop}
    (stop : ∀ s, F.next s = none → motive s)
    (frame : ∀ s x k, F.next s = some (x, k) → motive (s.drop (k + len x)) → motive s)
    (s : List α) : motive s := by
  induction hlen : s.length using Nat.strongRecOn generalizing s with
  | ind n ih =>
    cases h : F.next s with
    | none => exact stop s h
    | some p =>
      obtain ⟨x, k⟩ := p
      have hpos := F.next_pos h
      have hle := F.next_le h
      exact frame s x k h (ih _ (by simp; omega) _ rfl)

@[simp] theorem length_blank (s : List α) : (F.blank len z s).length = s.length := by
  induction s using F.payload_induction len with
  | stop s h => rw [blank_of_none h]
  | frame s x k h ih =>
    have hle := F.next_le h
    rw [blank_of_next h]
    simp only [List.length_append, List.length_take, List.length_replicate, ih, List.length_drop]
    omega

/-- The header at the front is not blanked. -/
theorem take_blank (h : F.next s = some (x, k)) :
    (F.blank len z s).take k = s.take k := by
  have hle := F.next_le h
  rw [blank_of_next h, List.take_append_of_le_length (by simp; omega),
    List.take_of_length_le (by simp)]

theorem next_blank (hF : F.Local) (s : List α) : F.next (F.blank len z s) = F.next s := by
  cases h : F.next s with
  | none => rw [blank_of_none h, h]
  | some p =>
    obtain ⟨x, k⟩ := p
    rw [← List.take_append_drop k (F.blank len z s), take_blank h]
    exact F.next_append _ (hF h)

/-- Behind a payload the blanked stream goes on as the blanked rest. -/
theorem drop_blank (h : F.next s = some (x, k)) :
    (F.blank len z s).drop (k + len x) = F.blank len z (s.drop (k + len x)) := by
  have hle := F.next_le h
  rw [blank_of_next h, ← List.append_assoc]
  by_cases hlen : k + len x ≤ s.length
  · rw [List.drop_left' (by simp; omega)]
  · have hnil : s.drop (k + len x) = [] := List.drop_eq_nil_of_le (by omega)
    rw [hnil, blank_of_none F.next_nil, List.append_nil, List.drop_eq_nil_of_le (by simp; omega)]

/-- A leading part is blanked as a part of the whole. -/
theorem blank_take (hF : F.Local) (s : List α) (n : ℕ) :
    F.blank len z (s.take n) = (F.blank len z s).take n := by
  induction s using F.payload_induction len generalizing n with
  | stop s h =>
    have hshort : F.next (s.take n) = none := by
      cases hnext : F.next (s.take n) with
      | none => rfl
      | some p =>
        have hwhole := F.next_append (s.drop n) hnext
        rw [List.take_append_drop, h] at hwhole
        cases hwhole
    rw [blank_of_none hshort, blank_of_none h]
  | frame s x k h ih =>
    have hle := F.next_le h
    by_cases hn : n < k
    -- The part ends inside the header, of which nothing is blanked.
    · rw [blank_of_none (F.next_take_eq_none h hn), blank_of_next h,
        List.take_append_of_le_length (by simp; omega), List.take_take, Nat.min_eq_left hn.le]
    · have htake : (s.take n).take k = s.take k := by
        rw [List.take_take, Nat.min_eq_left (by omega)]
      have hnext : F.next (s.take n) = some (x, k) := hF.next_take h (by omega)
      have hlen : (s.take k).length = k := by rw [List.length_take]; omega
      rw [blank_of_next hnext, blank_of_next h, htake, List.drop_take, ih, List.length_take,
        List.take_append, List.take_append, hlen, List.take_replicate, List.length_replicate,
        List.take_of_length_le (by omega : (s.take k).length ≤ n)]
      congr 2
      · congr 1
        omega
      -- The payload is whole, or nothing stands behind what is there of it.
      · by_cases hwhole : k + len x ≤ s.length
        · congr 1
          omega
        · rw [List.drop_eq_nil_of_le (by omega), blank_of_none F.next_nil, List.take_nil,
            List.take_nil]

end Framing

import Masque.Library.Mealy

/-!
# Slots that are written once

Every write goes to one slot. An empty slot takes it; a full one keeps what it has and
answers with it. So a slot holds the first write to it (`after_apply`), and writes to
different slots commute (`first_of_filter_eq`).
-/

universe u v

namespace WriteOnce

variable {ι : Type u} {κ : Type v} [DecidableEq ι] (slot : κ → ι)

/-- The first write to a slot. -/
def first (ks : List κ) (i : ι) : Option κ := ks.find? (slot · = i)

/-- The slots as a machine: the answer to a write is the one that was there before it. -/
def machine : Mealy (ι → Option κ) κ (Option κ) where
  step s k := (s (slot k), Function.update s (slot k) ((s (slot k)).or (some k)))

theorem first_cons (k : κ) (ks : List κ) (i : ι) :
    first slot (k :: ks) i = if slot k = i then some k else first slot ks i := by
  unfold first
  rw [List.find?_cons]
  by_cases h : slot k = i <;> simp [h]

/-- A slot keeps what it held, or takes the first write to it. -/
theorem after_apply (s : ι → Option κ) (ks : List κ) (i : ι) :
    (machine slot).after s ks i = (s i).or (first slot ks i) := by
  induction ks generalizing s with
  | nil => exact (Option.or_none).symm
  | cons k ks ih =>
    rw [Mealy.after_cons, ih, first_cons]
    by_cases h : slot k = i
    · subst h
      rw [if_pos rfl]
      show (Function.update s (slot k) _ (slot k)).or _ = _
      rw [Function.update_self, Option.or_assoc, Option.some_or]
    · rw [if_neg h]
      show (Function.update s (slot k) _ i).or _ = _
      rw [Function.update_of_ne (Ne.symm h)]

/-- Starting from empty slots, each holds the first write to it. -/
theorem after_empty (ks : List κ) :
    (machine slot).after (fun _ => none) ks = first slot ks := by
  funext i
  rw [after_apply, Option.none_or]

theorem first_eq_head? (ks : List κ) (i : ι) :
    first slot ks i = (ks.filter (slot · = i)).head? :=
  List.head?_filter.symm

/-- Writes to different slots commute. -/
theorem first_of_filter_eq {ks ks' : List κ}
    (h : ∀ i, ks.filter (slot · = i) = ks'.filter (slot · = i)) :
    first slot ks = first slot ks' := by
  funext i
  rw [first_eq_head?, first_eq_head?, h i]

end WriteOnce

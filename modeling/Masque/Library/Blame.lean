import Masque.Library.Outcome

/-!
# Blame

Errors carry labels that say what was wrong. `Blames label i x` states that the call `x`
fails with an error labelled `i`, and `Within label S x` that `x` returns and fails, if it
does, with a label in `S`. A loop that stops at its first error blames what the first item
that it refuses is blamed for.
-/

universe u v w

namespace Outcome

variable {ε : Type u} {α β : Type v} {ι : Type w} {label : ε → Option ι} {i j : ι} {S : Set ι}

/-- The call fails with an error labelled `i`. -/
def Blames (label : ε → Option ι) (i : ι) (x : Outcome ε α) : Prop :=
  ∃ e, x = err e ∧ label e = some i

/-- The call returns, and its error, if it fails, has a label in `S`. -/
def Within (label : ε → Option ι) (S : Set ι) (x : Outcome ε α) : Prop :=
  (∃ a, x = ok a) ∨ ∃ i ∈ S, Blames label i x

/-- A call blames one thing at most. -/
theorem Blames.eq {x : Outcome ε α} (hi : Blames label i x) (hj : Blames label j x) : i = j := by
  obtain ⟨e, rfl, he⟩ := hi
  obtain ⟨e', heq, he'⟩ := hj
  obtain rfl := err.inj heq
  exact Option.some.inj (he.symm.trans he')

theorem not_blames_ok (a : α) : ¬Blames label i (ok a : Outcome ε α) := by
  intro h
  obtain ⟨e, heq, -⟩ := h
  cases heq

theorem Blames.ne_panic {x : Outcome ε α} (h : Blames label i x) : x ≠ panic := by
  obtain ⟨e, rfl, -⟩ := h
  exact err_ne_panic e

theorem Blames.bind {x : Outcome ε α} (h : Blames label i x) (f : α → Outcome ε β) :
    Blames label i (x >>= f) := by
  obtain ⟨e, rfl, he⟩ := h
  exact ⟨e, rfl, he⟩

theorem Blames.mapErr {f : ε → ε} {x : Outcome ε α} (h : Blames label i x)
    (hf : ∀ e, label e = some i → label (f e) = some j) : Blames label j (x.mapErr f) := by
  obtain ⟨e, rfl, he⟩ := h
  exact ⟨f e, rfl, hf e he⟩

theorem Within.ok (a : α) : Within label S (ok a : Outcome ε α) :=
  .inl ⟨a, rfl⟩

theorem Within.err {e : ε} (he : label e = some i) (hi : i ∈ S) :
    Within label S (err e : Outcome ε α) :=
  .inr ⟨i, hi, e, rfl, he⟩

theorem Within.bind {x : Outcome ε α} {f : α → Outcome ε β} (hx : Within label S x)
    (hf : ∀ a, Within label S (f a)) : Within label S (x >>= f) := by
  obtain ⟨a, rfl⟩ | ⟨i, hi, h⟩ := hx
  · exact hf a
  · exact .inr ⟨i, hi, h.bind f⟩

theorem Within.ofOption {e : ε} (he : label e = some i) (hi : i ∈ S) (x : Option α) :
    Within label S (ofOption e x) := by
  cases x with
  | none => exact .err he hi
  | some a => exact .ok a

theorem Within.ne_panic {x : Outcome ε α} (h : Within label S x) : x ≠ panic := by
  obtain ⟨a, rfl⟩ | ⟨i, -, h⟩ := h
  · exact ok_ne_panic a
  · exact h.ne_panic

/-- A check that has one thing to blame blames it whenever it does not succeed. -/
theorem Within.blames {x : Outcome ε α} (h : Within label {i} x) (hx : ∀ a, x ≠ Outcome.ok a) :
    Blames label i x := by
  obtain ⟨a, ha⟩ | ⟨j, hj, h⟩ := h
  · exact absurd ha (hx a)
  · rwa [Set.mem_singleton_iff.mp hj] at h

/-- When the faults `F` are all that keeps a call from succeeding, and each is blamed, they are
what the call is blamed for. -/
theorem blames_iff_of_cases {F : ι → Prop} {x : Outcome ε α}
    (hF : ∀ i, F i → Blames label i x) (hcases : (∃ a, x = ok a) ∨ ∃ i, F i) (i : ι) :
    Blames label i x ↔ F i := by
  refine ⟨fun h => ?_, hF i⟩
  obtain ⟨a, rfl⟩ | ⟨j, hj⟩ := hcases
  · exact absurd h (not_blames_ok a)
  · rwa [h.eq (hF j hj)]

section Loops

variable {f : β → α → Outcome ε β} {b c : β} {xs front : List α} {x : α}

/-- A loop ends, or stops at the first item that it refuses. -/
theorem foldlM_cases (f : β → α → Outcome ε β) (b : β) (xs : List α) :
    (∃ c, xs.foldlM f b = ok c) ∨
      ∃ front x rest c, xs = front ++ x :: rest ∧ front.foldlM f b = ok c ∧
        ∀ d, f c x ≠ ok d := by
  induction xs generalizing b with
  | nil => exact .inl ⟨b, rfl⟩
  | cons x xs ih =>
    by_cases hx : ∃ d, f b x = ok d
    · obtain ⟨d, hd⟩ := hx
      obtain ⟨c, hc⟩ | ⟨front, y, rest, c, rfl, hc, hy⟩ := ih d
      · refine .inl ⟨c, ?_⟩
        rw [List.foldlM_cons, hd]
        exact hc
      · refine .inr ⟨x :: front, y, rest, c, rfl, ?_, hy⟩
        rw [List.foldlM_cons, hd]
        exact hc
    · exact .inr ⟨[], x, xs, b, rfl, rfl, not_exists.mp hx⟩

/-- What the first refused item is blamed for, the loop is. -/
theorem Blames.foldlM (hfront : front.foldlM f b = ok c) (hx : Blames label i (f c x))
    (rest : List α) : Blames label i ((front ++ x :: rest).foldlM f b) := by
  rw [List.foldlM_append, hfront, ok_bind, List.foldlM_cons]
  exact hx.bind _

end Loops

end Outcome

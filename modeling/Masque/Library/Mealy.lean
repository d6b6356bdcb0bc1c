import Mathlib

/-!
# Machines with outputs

A `Mealy` machine answers each input with an output and moves to a new state. `run` feeds
it a list of inputs. `run_history` is the induction rule for everything that is said about
a whole run: a property of the inputs so far, the outputs so far and the present state;
`run_related` compares two machines, and `product` runs many side by side. `total_le` pays for
the cost of a run out of a potential of its states.
-/

universe u v w

/-- A deterministic machine that answers every input. -/
structure Mealy (σ : Type u) (ι : Type v) (ο : Type w) where
  step : σ → ι → ο × σ

namespace Mealy

variable {σ : Type u} {ι : Type v} {ο : Type w} (m : Mealy σ ι ο)

/-- The outputs of a list of inputs and the state they lead to. -/
def run : σ → List ι → List ο × σ
  | s, [] => ([], s)
  | s, i :: is =>
    let r := run (m.step s i).2 is
    ((m.step s i).1 :: r.1, r.2)

/-- The outputs along a run. -/
def outputs (s : σ) (is : List ι) : List ο := (m.run s is).1

/-- The state after a run. -/
def after (s : σ) (is : List ι) : σ := (m.run s is).2

@[simp] theorem outputs_nil (s : σ) : m.outputs s [] = [] := rfl

@[simp] theorem after_nil (s : σ) : m.after s [] = s := rfl

@[simp] theorem outputs_cons (s : σ) (i : ι) (is : List ι) :
    m.outputs s (i :: is) = (m.step s i).1 :: m.outputs (m.step s i).2 is := rfl

@[simp] theorem after_cons (s : σ) (i : ι) (is : List ι) :
    m.after s (i :: is) = m.after (m.step s i).2 is := rfl

theorem outputs_append (s : σ) (is js : List ι) :
    m.outputs s (is ++ js) = m.outputs s is ++ m.outputs (m.after s is) js := by
  induction is generalizing s with
  | nil => rfl
  | cons i is ih => simp [ih]

theorem after_append (s : σ) (is js : List ι) :
    m.after s (is ++ js) = m.after (m.after s is) js := by
  induction is generalizing s with
  | nil => rfl
  | cons i is ih => simp [ih]

theorem length_outputs (s : σ) (is : List ι) : (m.outputs s is).length = is.length := by
  induction is generalizing s with
  | nil => rfl
  | cons i is ih => simp [ih]

/-- Induction along a run: what holds at the start and survives one more input holds of
every run, with the inputs and outputs so far in view. -/
theorem run_history {s₀ : σ} {motive : List ι → List ο → σ → Prop}
    (start : motive [] [] s₀)
    (step : ∀ is os s i, motive is os s →
      motive (is ++ [i]) (os ++ [(m.step s i).1]) (m.step s i).2)
    (is : List ι) : motive is (m.outputs s₀ is) (m.after s₀ is) := by
  induction is using List.reverseRecOn with
  | nil => exact start
  | append_singleton is i ih =>
    rw [outputs_append, after_append]
    exact step is _ _ i ih

/-- A property of states that every step preserves holds after every run. -/
theorem after_invariant {P : σ → Prop} (step : ∀ s i, P s → P (m.step s i).2)
    {s : σ} (hs : P s) (is : List ι) : P (m.after s is) :=
  m.run_history (motive := fun _ _ s => P s) hs (fun _ _ s i h => step s i h) is

/-- Two machines in related states answer alike for ever, if related states answer every
input alike and stay related. -/
theorem run_related {τ : Type*} {m' : Mealy τ ι ο} {R : σ → τ → Prop}
    (step : ∀ s t i, R s t → (m.step s i).1 = (m'.step t i).1 ∧ R (m.step s i).2 (m'.step t i).2)
    {s : σ} {t : τ} (h : R s t) (is : List ι) :
    m.outputs s is = m'.outputs t is ∧ R (m.after s is) (m'.after t is) := by
  induction is generalizing s t with
  | nil => exact ⟨rfl, h⟩
  | cons i is ih =>
    obtain ⟨hout, hrest⟩ := step s t i h
    obtain ⟨hs, hafter⟩ := ih hrest
    exact ⟨by rw [outputs_cons, outputs_cons, hout, hs], hafter⟩

/-- If a state answers every input with outputs in `Q` and never leaves `P`, then so does
every run from it. -/
theorem outputs_of_invariant {P : σ → Prop} {Q : ο → Prop}
    (step : ∀ s i, P s → Q (m.step s i).1 ∧ P (m.step s i).2)
    {s : σ} (hs : P s) (is : List ι) : ∀ o ∈ m.outputs s is, Q o := by
  induction is generalizing s with
  | nil => simp
  | cons i is ih =>
    intro o ho
    rcases List.mem_cons.mp ho with rfl | ho
    · exact (step s i hs).1
    · exact ih (step s i hs).2 o ho

section Cost

/-- The cost of a run whose steps have a cost each. -/
def total (cost : σ → ι → ℕ) : σ → List ι → ℕ
  | _, [] => 0
  | s, i :: is => cost s i + total cost (m.step s i).2 is

/-- A run costs no more, at the given rate, than the potential at its start and the credits
of its inputs, if every step of it costs no more than its credit and what the potential drops
by. -/
theorem total_le {s : σ} {is : List ι} (rate : ℕ) (cost : σ → ι → ℕ) (potential : σ → ℕ)
    (credit : ι → ℕ) (step : ∀ front i rest, is = front ++ i :: rest →
      rate * cost (m.after s front) i + potential (m.step (m.after s front) i).2 ≤
        potential (m.after s front) + credit i) :
    rate * m.total cost s is + potential (m.after s is) ≤ potential s + (is.map credit).sum := by
  induction is generalizing s with
  | nil => exact (Nat.zero_add _).le
  | cons i is ih =>
    have hfirst := step [] i is rfl
    have hrest := @ih (m.step s i).2 fun front j rest h =>
      step (i :: front) j rest (congrArg (i :: ·) h)
    rw [after_nil] at hfirst
    rw [total, after_cons, List.map_cons, List.sum_cons, Nat.mul_add]
    omega

end Cost

section Product

variable {κ : Type*} [DecidableEq κ]

/-- Machines side by side; every input is for one of them. -/
def product (m : κ → Mealy σ ι ο) : Mealy (κ → σ) (κ × ι) ο where
  step s i :=
    let r := (m i.1).step (s i.1) i.2
    (r.1, Function.update s i.1 r.2)

/-- The inputs for one of the machines. -/
def inputsOf (j : κ) (is : List (κ × ι)) : List ι := (is.filter (·.1 = j)).map Prod.snd

/-- Each machine sees its own inputs alone. -/
theorem product_after (m : κ → Mealy σ ι ο) (s : κ → σ) (is : List (κ × ι)) (j : κ) :
    (product m).after s is j = (m j).after (s j) (inputsOf j is) := by
  induction is generalizing s with
  | nil => rfl
  | cons i is ih =>
    rw [after_cons, ih, inputsOf, inputsOf]
    by_cases h : i.1 = j
    · subst h
      rw [List.filter_cons_of_pos (by simp), List.map_cons, after_cons]
      exact congrArg ((m i.1).after · _) (Function.update_self _ _ _)
    · rw [List.filter_cons_of_neg (by simpa using h)]
      exact congrArg ((m j).after · _) (Function.update_of_ne (Ne.symm h) _ _)

end Product

end Mealy

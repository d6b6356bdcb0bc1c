import Mathlib

/-!
# Outcomes of calls that may panic

`Outcome ε α` is what a call returns: a value, an error, or a panic. The bounds-checked
accessors `index`, `slice` and `sliceFrom` panic exactly where an indexing expression
would, so "no index is out of bounds" is a statement about a definition's outcome.
-/

universe u v w

/-- The outcome of a call: a value, an error, or a panic. -/
inductive Outcome (ε : Type u) (α : Type v) where
  | ok (a : α)
  | err (e : ε)
  | panic
  deriving Repr

namespace Outcome

variable {ε : Type u} {α β : Type v}

/-- Sequencing: errors and panics stop the computation. -/
protected def bind : Outcome ε α → (α → Outcome ε β) → Outcome ε β
  | ok a, f => f a
  | err e, _ => err e
  | panic, _ => panic

instance : Monad (Outcome ε) where
  pure := ok
  bind := Outcome.bind

@[simp] theorem pure_eq (a : α) : (pure a : Outcome ε α) = ok a := rfl

@[simp] theorem ok_bind (a : α) (f : α → Outcome ε β) : (ok a >>= f) = f a := rfl

@[simp] theorem err_bind (e : ε) (f : α → Outcome ε β) : (err e >>= f) = err e := rfl

@[simp] theorem panic_bind (f : α → Outcome ε β) : (panic >>= f) = panic := rfl

/-- A sequence succeeds exactly when both of its halves do. -/
theorem bind_eq_ok {x : Outcome ε α} {f : α → Outcome ε β} {b : β} :
    (x >>= f) = ok b ↔ ∃ a, x = ok a ∧ f a = ok b := by
  cases x <;> simp

theorem ok_ne_panic (a : α) : (ok a : Outcome ε α) ≠ panic := nofun

theorem err_ne_panic (e : ε) : (err e : Outcome ε α) ≠ panic := nofun

/-- A sequence does not panic when neither of its halves does. -/
theorem bind_ne_panic {x : Outcome ε α} {f : α → Outcome ε β} (hx : x ≠ panic)
    (hf : ∀ a, x = ok a → f a ≠ panic) : (x >>= f) ≠ panic := by
  cases x with
  | ok a => exact hf a rfl
  | err e => exact err_ne_panic e
  | panic => exact absurd rfl hx

instance : LawfulMonad (Outcome ε) := LawfulMonad.mk' _
  (by intro α x; cases x <;> rfl)
  (by intro α β a f; rfl)
  (by intro α β γ x f g; cases x <;> rfl)

@[simp] theorem map_ok (f : α → β) (a : α) : f <$> (ok a : Outcome ε α) = ok (f a) := rfl

@[simp] theorem map_err (f : α → β) (e : ε) : f <$> (err e : Outcome ε α) = err e := rfl

@[simp] theorem map_panic (f : α → β) : f <$> (panic : Outcome ε α) = panic := rfl

theorem map_eq_ok {f : α → β} {x : Outcome ε α} {b : β} :
    f <$> x = ok b ↔ ∃ a, x = ok a ∧ f a = b := by
  cases x <;> simp

/-- Whether the outcome is `ok a` is decidable, whatever the errors are. -/
instance decidableEqOk [DecidableEq α] (x : Outcome ε α) (a : α) : Decidable (x = ok a) :=
  match x with
  | ok b => decidable_of_iff (b = a) (by simp)
  | err _ => isFalse (by simp)
  | panic => isFalse (by simp)

/-- `map_err`. -/
def mapErr {ε' : Type w} (f : ε → ε') : Outcome ε α → Outcome ε' α
  | ok a => ok a
  | err e => err (f e)
  | panic => panic

@[simp] theorem mapErr_ok {ε' : Type w} (f : ε → ε') (a : α) :
    (ok a : Outcome ε α).mapErr f = ok a := rfl

@[simp] theorem mapErr_err {ε' : Type w} (f : ε → ε') (e : ε) :
    (err e : Outcome ε α).mapErr f = err (f e) := rfl

@[simp] theorem mapErr_panic {ε' : Type w} (f : ε → ε') :
    (panic : Outcome ε α).mapErr f = panic := rfl

theorem mapErr_eq_ok {ε' : Type w} {f : ε → ε'} {x : Outcome ε α} {a : α} :
    x.mapErr f = ok a ↔ x = ok a := by
  cases x <;> simp

theorem mapErr_ne_panic {ε' : Type w} {x : Outcome ε α} (h : x ≠ panic) (f : ε → ε') :
    x.mapErr f ≠ panic := by
  cases x with
  | ok a => exact ok_ne_panic a
  | err e => exact err_ne_panic (f e)
  | panic => exact absurd rfl h

/-- `ok_or`. -/
def ofOption (e : ε) : Option α → Outcome ε α
  | some a => ok a
  | none => err e

@[simp] theorem ofOption_some (e : ε) (a : α) : ofOption e (some a) = ok a := rfl

@[simp] theorem ofOption_none (e : ε) : ofOption e (none : Option α) = err e := rfl

theorem ofOption_eq_ok {e : ε} {x : Option α} {a : α} : ofOption e x = ok a ↔ x = some a := by
  cases x <;> simp

theorem ofOption_ne_panic (e : ε) (x : Option α) : ofOption e x ≠ panic := by
  cases x with
  | none => exact err_ne_panic e
  | some a => exact ok_ne_panic a

/-- `.ok()`: the value, if there is one. -/
def toOption : Outcome ε α → Option α
  | ok a => some a
  | _ => none

@[simp] theorem toOption_ok (a : α) : (ok a : Outcome ε α).toOption = some a := rfl

@[simp] theorem toOption_err (e : ε) : (err e : Outcome ε α).toOption = none := rfl

@[simp] theorem toOption_panic : (panic : Outcome ε α).toOption = none := rfl

theorem toOption_eq_some {x : Outcome ε α} {a : α} : x.toOption = some a ↔ x = ok a := by
  cases x <;> simp

/-- `xs[i]`. -/
def index (xs : List α) (i : ℕ) : Outcome ε α :=
  match xs[i]? with
  | some x => ok x
  | none => panic

theorem index_eq_ok {xs : List α} {i : ℕ} {x : α} :
    (index xs i : Outcome ε α) = ok x ↔ xs[i]? = some x := by
  unfold index
  cases xs[i]? <;> simp

@[simp] theorem index_cons_zero (x : α) (xs : List α) :
    (index (x :: xs) 0 : Outcome ε α) = ok x := rfl

@[simp] theorem index_cons_succ (x : α) (xs : List α) (i : ℕ) :
    (index (x :: xs) (i + 1) : Outcome ε α) = index xs i := rfl

/-- `&xs[a..b]`. -/
def slice (xs : List α) (a b : ℕ) : Outcome ε (List α) :=
  if a ≤ b ∧ b ≤ xs.length then ok ((xs.take b).drop a) else panic

/-- `&xs[a..]`. -/
def sliceFrom (xs : List α) (a : ℕ) : Outcome ε (List α) :=
  slice xs a xs.length

theorem slice_eq_ok {xs : List α} {a b : ℕ} (hab : a ≤ b) (hb : b ≤ xs.length) :
    (slice xs a b : Outcome ε (List α)) = ok ((xs.take b).drop a) :=
  if_pos ⟨hab, hb⟩

theorem sliceFrom_eq_ok {xs : List α} {a : ℕ} (ha : a ≤ xs.length) :
    (sliceFrom xs a : Outcome ε (List α)) = ok (xs.drop a) := by
  rw [sliceFrom, slice_eq_ok ha le_rfl, List.take_length]

/-- A leading slice at a split point returns the left part. -/
theorem slice_zero_append (xs ys : List α) {n : ℕ} (hn : n = xs.length) :
    (slice (xs ++ ys) 0 n : Outcome ε (List α)) = ok xs := by
  subst hn
  rw [slice_eq_ok (Nat.zero_le _) (by simp)]
  simp

/-- A trailing slice at a split point returns the right part. -/
theorem sliceFrom_append (xs ys : List α) {n : ℕ} (hn : n = xs.length) :
    (sliceFrom (xs ++ ys) n : Outcome ε (List α)) = ok ys := by
  subst hn
  rw [sliceFrom_eq_ok (by simp)]
  simp

@[simp] theorem sliceFrom_cons_one (x : α) (xs : List α) :
    (sliceFrom (x :: xs) 1 : Outcome ε (List α)) = ok xs :=
  sliceFrom_append [x] xs rfl

/-- `xs[a..b].copy_from_slice(src)`: the new contents of `xs`. -/
def copyFromSlice (xs : List α) (a b : ℕ) (src : List α) : Outcome ε (List α) :=
  if a ≤ b ∧ b ≤ xs.length ∧ src.length = b - a then
    ok (xs.take a ++ src ++ xs.drop b)
  else
    panic

theorem copyFromSlice_eq_ok {xs src : List α} {a b : ℕ} (hab : a ≤ b) (hb : b ≤ xs.length)
    (hsrc : src.length = b - a) :
    (copyFromSlice xs a b src : Outcome ε (List α)) = ok (xs.take a ++ src ++ xs.drop b) :=
  if_pos ⟨hab, hb, hsrc⟩

/-- Behind the front of a buffer, as many items are overwritten as there are new ones. -/
theorem copyFromSlice_append (front rest src : List α) (h : src.length ≤ rest.length) :
    (copyFromSlice (front ++ rest) front.length (front.length + src.length) src :
      Outcome ε (List α)) = ok (front ++ src ++ rest.drop src.length) := by
  rw [copyFromSlice_eq_ok (by omega) (by rw [List.length_append]; omega) (by omega),
    List.take_left, List.drop_length_add_append]

/-- A call that succeeds on every item of a list succeeds on the list. -/
theorem mapM_eq_ok {f : α → Outcome ε β} {g : α → β} {xs : List α}
    (h : ∀ x ∈ xs, f x = ok (g x)) : xs.mapM f = ok (xs.map g) := by
  induction xs with
  | nil => rfl
  | cons x xs ih =>
    rw [List.mapM_cons, h x List.mem_cons_self, ok_bind,
      ih fun y hy => h y (List.mem_cons_of_mem x hy)]
    rfl

/-- A loop does not panic when none of its rounds does. -/
theorem foldlM_ne_panic {f : β → α → Outcome ε β} (h : ∀ b x, f b x ≠ panic) (b : β)
    (xs : List α) : xs.foldlM f b ≠ panic := by
  induction xs generalizing b with
  | nil => exact ok_ne_panic b
  | cons x xs ih =>
    rw [List.foldlM_cons]
    exact bind_ne_panic (h b x) fun c _ => ih c

/-- Two outcomes are alike when they are related values, the same error, or panics. -/
inductive Alike {γ : Type w} (R : α → γ → Prop) : Outcome ε α → Outcome ε γ → Prop
  | ok {a : α} {c : γ} (h : R a c) : Alike R (ok a) (ok c)
  | err (e : ε) : Alike R (err e) (err e)
  | panic : Alike R panic panic

/-- Sequences of outcomes that are alike step by step are alike. -/
theorem Alike.bind {γ δ : Type v} {R : α → γ → Prop} {S : β → δ → Prop} {x : Outcome ε α}
    {y : Outcome ε γ} {f : α → Outcome ε β} {g : γ → Outcome ε δ} (h : Alike R x y)
    (hfg : ∀ a c, R a c → Alike S (f a) (g c)) : Alike S (x >>= f) (y >>= g) := by
  cases h with
  | ok h => exact hfg _ _ h
  | err e => exact .err e
  | panic => exact .panic

end Outcome

namespace Usize

/-- The number of values of a 64-bit `usize`. -/
def size : ℕ := 2 ^ 64

/-- `checked_add` on `usize`. -/
def checkedAdd (a b : ℕ) : Option ℕ :=
  if a + b < size then some (a + b) else none

theorem checkedAdd_eq_some {a b : ℕ} (h : a + b < size) : checkedAdd a b = some (a + b) :=
  if_pos h

/-- `u64::try_from(usize)`. -/
def toU64 (n : ℕ) : Option UInt64 :=
  if n < size then some (UInt64.ofNat n) else none

/-- `usize::try_from(u64)`, on a platform whose `usize` has 64 bits. -/
def ofU64 (x : UInt64) : Option ℕ :=
  if x.toNat < size then some x.toNat else none

theorem ofU64_eq_some (x : UInt64) : ofU64 x = some x.toNat :=
  if_pos x.toNat_lt

end Usize

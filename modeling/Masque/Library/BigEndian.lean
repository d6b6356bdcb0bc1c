import Mathlib

/-!
# Big-endian byte strings

`ofBytes` reads a byte string as a number, most significant byte first, and `toBytes n x`
writes the low `n` bytes of `x`. The two are inverse between the numbers below `256 ^ n`
and the byte strings of length `n`.
-/

namespace BigEndian

/-- The number a byte string denotes. -/
def ofBytes (bs : List UInt8) : ℕ :=
  bs.foldl (fun acc b => acc * 256 + b.toNat) 0

/-- The low `n` bytes of a number. -/
def toBytes : ℕ → ℕ → List UInt8
  | 0, _ => []
  | n + 1, x => toBytes n (x / 256) ++ [UInt8.ofNat x]

@[simp] theorem ofBytes_nil : ofBytes [] = 0 := rfl

@[simp] theorem ofBytes_concat (bs : List UInt8) (b : UInt8) :
    ofBytes (bs ++ [b]) = ofBytes bs * 256 + b.toNat := by
  simp [ofBytes]

@[simp] theorem length_toBytes (n x : ℕ) : (toBytes n x).length = n := by
  induction n generalizing x with
  | zero => rfl
  | succ n ih => simp [toBytes, ih]

theorem ofBytes_lt (bs : List UInt8) : ofBytes bs < 256 ^ bs.length := by
  induction bs using List.reverseRecOn with
  | nil => simp
  | append_singleton bs b ih =>
    have hb : b.toNat < 256 := b.toNat_lt_size
    rw [ofBytes_concat, List.length_append, List.length_singleton, pow_succ]
    omega

/-- Writing and reading back keeps the low `n` bytes. -/
theorem ofBytes_toBytes_mod (n x : ℕ) : ofBytes (toBytes n x) = x % 256 ^ n := by
  induction n generalizing x with
  | zero => simp [toBytes, Nat.mod_one]
  | succ n ih =>
    have hlow : (UInt8.ofNat x).toNat = x % 256 := UInt8.toNat_ofNat'
    have hsplit : x % (256 * 256 ^ n) = x % 256 + 256 * (x / 256 % 256 ^ n) := Nat.mod_mul
    rw [toBytes, ofBytes_concat, ih, hlow, pow_succ', hsplit]
    omega

theorem ofBytes_toBytes {n x : ℕ} (h : x < 256 ^ n) : ofBytes (toBytes n x) = x := by
  rw [ofBytes_toBytes_mod, Nat.mod_eq_of_lt h]

theorem toBytes_ofBytes (bs : List UInt8) : toBytes bs.length (ofBytes bs) = bs := by
  induction bs using List.reverseRecOn with
  | nil => rfl
  | append_singleton bs b ih =>
    have hb : b.toNat < 256 := b.toNat_lt_size
    have hdiv : (ofBytes bs * 256 + b.toNat) / 256 = ofBytes bs := by omega
    rw [List.length_append, List.length_singleton, toBytes, ofBytes_concat, hdiv, ih]
    congr 2
    apply UInt8.toNat_inj.mp
    rw [UInt8.toNat_ofNat']
    omega

/-- The high bytes come first. -/
theorem toBytes_add (n m x : ℕ) :
    toBytes (n + m) x = toBytes n (x / 256 ^ m) ++ toBytes m x := by
  induction m generalizing x with
  | zero => simp [toBytes]
  | succ m ih =>
    rw [← Nat.add_assoc, toBytes, ih, toBytes, ← List.append_assoc, Nat.div_div_eq_div_mul,
      pow_succ']

/-- The leading byte holds what is left of the number above the other bytes. -/
theorem toBytes_succ_eq_cons (n x : ℕ) :
    toBytes (n + 1) x = UInt8.ofNat (x / 256 ^ n) :: toBytes n x := by
  rw [Nat.add_comm, toBytes_add]
  rfl

/-- The leading byte is the quotient by the weight of the others. -/
theorem toNat_head_eq_ofBytes_div (b : UInt8) (bs : List UInt8) :
    b.toNat = ofBytes (b :: bs) / 256 ^ bs.length := by
  have h := toBytes_ofBytes (b :: bs)
  rw [List.length_cons, toBytes_succ_eq_cons, List.cons.injEq] at h
  have hlt := ofBytes_lt (b :: bs)
  rw [List.length_cons, pow_succ'] at hlt
  have hdiv : ofBytes (b :: bs) / 256 ^ bs.length < 256 :=
    Nat.div_lt_of_lt_mul (by rwa [Nat.mul_comm] at hlt)
  rw [← h.1, UInt8.toNat_ofNat', Nat.mod_eq_of_lt hdiv]
  exact congrArg (ofBytes · / _) (by rw [h.1])

/-- Leading zero bytes do not count. -/
theorem ofBytes_replicate_zero_append (n : ℕ) (bs : List UInt8) :
    ofBytes (List.replicate n 0 ++ bs) = ofBytes bs := by
  have hzero : ofBytes (List.replicate n 0) = 0 := by
    induction n with
    | zero => rfl
    | succ n ih => rw [List.replicate_succ', ofBytes_concat, ih]; rfl
  induction bs using List.reverseRecOn with
  | nil => simpa using hzero
  | append_singleton bs b ih => rw [← List.append_assoc, ofBytes_concat, ih, ofBytes_concat]

end BigEndian

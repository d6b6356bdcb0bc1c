import Masque.Library.Outcome

/-!
# Scanning loops

`scanWhile` is the loop `while i < input.len() && p(input[i]) { i += 1 }`. Its end divides
the input as `takeWhile` and `dropWhile` do (`splitAt_scanWhile`), and a token in front of
something the scan stops at is taken whole. `Reads` is the contract of a greedy reader for
a class of tokens, and `trim` removes a class of symbols at both ends.
-/

universe u

namespace Scan

variable {α : Type u} {ε : Type u} (p : α → Bool)

/-- The index at which the scan stops. -/
def scanWhile (input : List α) (i : ℕ) : ℕ :=
  match h : input[i]? with
  | some c =>
    have := List.getElem?_eq_some_iff.mp h
    if p c then scanWhile input (i + 1) else i
  | none => i
termination_by input.length - i
decreasing_by have := this.1; omega

/-- A scan starting behind `pre` takes the longest run that satisfies the predicate. -/
theorem scanWhile_append (pre rest : List α) :
    scanWhile p (pre ++ rest) pre.length = (pre ++ rest.takeWhile p).length := by
  induction rest generalizing pre with
  | nil =>
    rw [scanWhile]
    split
    · next h => simp at h
    · simp
  | cons c rest ih =>
    rw [scanWhile]
    split
    · next d h =>
      obtain rfl : c = d := by simpa using h
      cases hc : p c with
      | true =>
        have := ih (pre ++ [c])
        simpa [hc, Nat.add_comm] using this
      | false => simp [hc]
    · next h => simp at h

/-- What stands where a scan stopped. -/
theorem getElem?_scanWhile (pre rest : List α) :
    (pre ++ rest)[scanWhile p (pre ++ rest) pre.length]? = (rest.dropWhile p).head? := by
  rw [scanWhile_append, List.length_append, List.getElem?_append_right (by omega),
    Nat.add_sub_cancel_left, List.head?_eq_getElem?]
  nth_rewrite 1 [← List.takeWhile_append_dropWhile (p := p) (l := rest)]
  rw [List.getElem?_append_right le_rfl, Nat.sub_self]

/-- `(&input[..i], &input[i..])`. -/
def splitAt (input : List α) (i : ℕ) : Outcome ε (List α × List α) := do
  let front ← Outcome.slice input 0 i
  let back ← Outcome.sliceFrom input i
  return (front, back)

theorem splitAt_append {front : List α} {n : ℕ} (hn : n = front.length) (back : List α) :
    (splitAt (front ++ back) n : Outcome ε _) = .ok (front, back) := by
  rw [splitAt, Outcome.slice_zero_append _ _ hn, Outcome.ok_bind,
    Outcome.sliceFrom_append _ _ hn]
  rfl

theorem splitAt_eq_ok {input : List α} {n : ℕ} (hn : n ≤ input.length) :
    (splitAt input n : Outcome ε _) = .ok (input.take n, input.drop n) := by
  have := splitAt_append (ε := ε) (List.length_take_of_le hn).symm (input.drop n)
  rwa [List.take_append_drop] at this

/-- The two parts of a split make up the input. -/
theorem append_of_splitAt {input front back : List α} {n : ℕ}
    (h : (splitAt input n : Outcome ε _) = .ok (front, back)) : front ++ back = input := by
  obtain ⟨a, ha, h⟩ := Outcome.bind_eq_ok.mp h
  obtain ⟨b, hb, h⟩ := Outcome.bind_eq_ok.mp h
  obtain ⟨rfl, rfl⟩ := Prod.mk.inj (Outcome.ok.inj h)
  unfold Outcome.slice at ha
  split_ifs at ha with hn
  rw [Outcome.sliceFrom_eq_ok hn.2] at hb
  rw [← Outcome.ok.inj ha, ← Outcome.ok.inj hb, List.drop_zero, List.take_append_drop]

/-- Splitting where a scan stops divides the input there. -/
theorem splitAt_scanWhile (pre rest : List α) :
    (splitAt (pre ++ rest) (scanWhile p (pre ++ rest) pre.length) : Outcome ε _) =
      .ok (pre ++ rest.takeWhile p, rest.dropWhile p) := by
  have hsplit : pre ++ rest = pre ++ rest.takeWhile p ++ rest.dropWhile p := by
    rw [List.append_assoc, List.takeWhile_append_dropWhile]
  rw [scanWhile_append]
  nth_rewrite 1 [hsplit]
  exact splitAt_append rfl _

/-- A scan stops in front of these symbols. -/
def Stops (rest : List α) : Prop := ∀ c ∈ rest.head?, p c = false

variable {p}

theorem takeWhile_append_of_stops {tok rest : List α} (htok : ∀ c ∈ tok, p c = true)
    (hrest : Stops p rest) : (tok ++ rest).takeWhile p = tok := by
  rw [List.takeWhile_append_of_pos htok]
  cases rest with
  | nil => simp
  | cons c rest => rw [List.takeWhile_cons_of_neg (by simp [hrest c rfl]), List.append_nil]

theorem dropWhile_append_of_stops {tok rest : List α} (htok : ∀ c ∈ tok, p c = true)
    (hrest : Stops p rest) : (tok ++ rest).dropWhile p = rest := by
  rw [List.dropWhile_append_of_pos htok]
  cases rest with
  | nil => rfl
  | cons c rest => rw [List.dropWhile_cons_of_neg (by simp [hrest c rfl])]

theorem stops_dropWhile (input : List α) : Stops p (input.dropWhile p) := by
  intro c hc
  have := List.head?_dropWhile_not p input
  rw [Option.mem_def.mp hc] at this
  simpa using this

section Readers

/-- A reader takes a token of `G` off the front of a nonempty input, and takes every one
that stands in front of a boundary. -/
structure Reads (read : List α → Outcome ε (List α × List α)) (G B : List α → Prop) : Prop where
  sound : ∀ {input tok rest}, read input = .ok (tok, rest) → G tok ∧ tok ++ rest = input
  complete : ∀ {tok rest}, G tok → B rest → read (tok ++ rest) = .ok (tok, rest)
  total : ∀ c cs, read (c :: cs) ≠ .panic

/-- Reads a symbol satisfying `lead`, then the longest run of symbols satisfying `p`. -/
def readRun (lead p : α → Bool) (e : ε) (input : List α) : Outcome ε (List α × List α) :=
  match input with
  | [] => .err e
  | first :: _ => if !lead first then .err e else splitAt input (scanWhile p input 1)

variable {lead : α → Bool} {e : ε}

theorem readRun_cons (first : α) (cs : List α) :
    readRun lead p e (first :: cs) =
      if lead first then .ok (first :: cs.takeWhile p, cs.dropWhile p) else .err e := by
  have hsplit := splitAt_scanWhile (ε := ε) p [first] cs
  rw [List.length_singleton, List.singleton_append, List.singleton_append] at hsplit
  unfold readRun
  dsimp only
  cases lead first with
  | true => exact hsplit
  | false => rfl

/-- The tokens of `readRun`. -/
def Run (lead p : α → Bool) (tok : List α) : Prop :=
  ∃ first cs, tok = first :: cs ∧ lead first = true ∧ ∀ c ∈ cs, p c = true

theorem readRun_reads : Reads (readRun lead p e) (Run lead p) (Stops p) where
  sound := by
    intro input tok rest h
    cases input with
    | nil => cases h
    | cons first cs =>
      rw [readRun_cons] at h
      split_ifs at h with hlead
      obtain ⟨rfl, rfl⟩ := Prod.mk.inj (Outcome.ok.inj h)
      refine ⟨⟨first, _, rfl, hlead, fun c hc => List.mem_takeWhile_imp hc⟩, ?_⟩
      rw [List.cons_append, List.takeWhile_append_dropWhile]
  complete := by
    rintro _ rest ⟨first, cs, rfl, hlead, hcs⟩ hrest
    rw [List.cons_append, readRun_cons, if_pos hlead, takeWhile_append_of_stops hcs hrest,
      dropWhile_append_of_stops hcs hrest]
  total := by
    intro c cs
    rw [readRun_cons]
    split_ifs <;> simp

end Readers

section Trim

variable (p) in
/-- Removes the symbols satisfying `p` at both ends. -/
def trim (input : List α) : List α := (input.dropWhile p).rdropWhile p

variable (p) in
/-- `t` is what is left of the input when the symbols satisfying `p` at its ends are gone. -/
structure Trims (input t : List α) : Prop where
  split : ∃ front back, input = front ++ t ++ back ∧ (∀ c ∈ front, p c = true) ∧
    ∀ c ∈ back, p c = true
  head : Stops p t
  last : Stops p t.reverse

theorem trims_trim (input : List α) : Trims p input (trim p input) := by
  have hback : input.dropWhile p = trim p input ++ (input.dropWhile p).rtakeWhile p :=
    (List.rdropWhile_append_rtakeWhile ..).symm
  constructor
  · refine ⟨input.takeWhile p, (input.dropWhile p).rtakeWhile p, ?_,
      fun c hc => List.mem_takeWhile_imp hc, fun c hc => List.mem_rtakeWhile_imp hc⟩
    rw [List.append_assoc, ← hback, List.takeWhile_append_dropWhile]
  · intro c hc
    refine stops_dropWhile input c ?_
    rw [hback, Option.mem_def, List.head?_append, Option.mem_def.mp hc]
    rfl
  · rw [trim, List.rdropWhile, List.reverse_reverse]
    exact stops_dropWhile _

/-- A trimmed list is determined by the input. -/
theorem trim_eq_iff {input t : List α} : trim p input = t ↔ Trims p input t := by
  constructor
  · rintro rfl
    exact trims_trim input
  · rintro ⟨⟨front, back, rfl, hfront, hback⟩, hhead, hlast⟩
    have hrev : (t ++ back).rdropWhile p = t := by
      rw [List.rdropWhile, List.reverse_append,
        dropWhile_append_of_stops (fun c hc => hback c (List.mem_reverse.mp hc)) hlast,
        List.reverse_reverse]
    cases t with
    | nil =>
      have hall : ∀ c ∈ front ++ [] ++ back, p c = true := by
        simpa [or_imp, forall_and] using ⟨hfront, hback⟩
      rw [trim, List.dropWhile_eq_nil_iff.mpr hall]
      rfl
    | cons c cs =>
      have hstop : Stops p (c :: cs ++ back) := hhead
      rw [trim, List.append_assoc, dropWhile_append_of_stops hfront hstop, hrev]

end Trim

end Scan

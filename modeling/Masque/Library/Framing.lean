import Mathlib

/-!
# Framed streams

A `Framing` reads one frame from the front of a stream and reports its size. Its laws say
that a frame is never empty, never longer than the stream, and that symbols behind a frame
do not change how it is read. From these follow the facts every streaming reader rests on:
reading a stream in two pieces is reading it in one (`frames_append`, `residue_append`),
and concatenated encodings are read back in order (`frames_flatMap_append`).

`prod` reads two frames in sequence and `withPayload` a header followed by as many symbols as it
declares; both keep the laws. A `Local` framing looks at nothing behind its frame.
-/

universe u v w

/-- A reader of one frame at the front of a stream. -/
structure Framing (α : Type u) (β : Type v) where
  /-- The frame at the front, with its size, once all of it is there. -/
  next : List α → Option (β × ℕ)
  next_pos : ∀ {s x n}, next s = some (x, n) → 0 < n
  next_le : ∀ {s x n}, next s = some (x, n) → n ≤ s.length
  next_append : ∀ {s x n} (t : List α), next s = some (x, n) → next (s ++ t) = some (x, n)

namespace Framing

variable {α : Type u} {β : Type v} {γ : Type w} (F : Framing α β)

/-- All complete frames of a stream, front to back. -/
def frames (s : List α) : List β :=
  match h : F.next s with
  | some (x, n) =>
    have := F.next_pos h
    have := F.next_le h
    x :: frames (s.drop n)
  | none => []
termination_by s.length
decreasing_by simp; omega

/-- What is left of a stream behind its complete frames. -/
def residue (s : List α) : List α :=
  match h : F.next s with
  | some (_, n) =>
    have := F.next_pos h
    have := F.next_le h
    residue (s.drop n)
  | none => s
termination_by s.length
decreasing_by simp; omega

theorem frames_of_next {s : List α} {x : β} {n : ℕ} (h : F.next s = some (x, n)) :
    F.frames s = x :: F.frames (s.drop n) := by
  rw [frames]
  split
  · next y m h' =>
    obtain ⟨rfl, rfl⟩ : y = x ∧ m = n := by simpa [h'] using h
    rfl
  · next h' => simp [h'] at h

theorem residue_of_next {s : List α} {x : β} {n : ℕ} (h : F.next s = some (x, n)) :
    F.residue s = F.residue (s.drop n) := by
  rw [residue]
  split
  · next y m h' =>
    obtain ⟨rfl, rfl⟩ : y = x ∧ m = n := by simpa [h'] using h
    rfl
  · next h' => simp [h'] at h

theorem frames_of_none {s : List α} (h : F.next s = none) : F.frames s = [] := by
  rw [frames]
  split
  · next h' => simp [h'] at h
  · rfl

theorem residue_of_none {s : List α} (h : F.next s = none) : F.residue s = s := by
  rw [residue]
  split
  · next h' => simp [h'] at h
  · rfl

/-- Induction frame by frame. -/
theorem stream_induction {motive : List α → Prop}
    (stop : ∀ s, F.next s = none → motive s)
    (frame : ∀ s x n, F.next s = some (x, n) → motive (s.drop n) → motive s)
    (s : List α) : motive s := by
  induction hlen : s.length using Nat.strongRecOn generalizing s with
  | ind len ih =>
    cases h : F.next s with
    | none => exact stop s h
    | some p =>
      obtain ⟨x, n⟩ := p
      have hpos := F.next_pos h
      have hle := F.next_le h
      exact frame s x n h (ih _ (by simp; omega) _ rfl)

@[simp] theorem next_nil : F.next [] = none := by
  cases h : F.next [] with
  | none => rfl
  | some p =>
    have hpos := F.next_pos h
    have hle := F.next_le h
    simp only [List.length_nil] at hle
    omega

@[simp] theorem frames_nil : F.frames [] = [] := F.frames_of_none F.next_nil

@[simp] theorem residue_nil : F.residue [] = [] := F.residue_of_none F.next_nil

/-- What is left begins with no complete frame. -/
theorem next_residue (s : List α) : F.next (F.residue s) = none := by
  induction s using F.stream_induction with
  | stop s h => rw [F.residue_of_none h, h]
  | frame s x n h ih => rw [F.residue_of_next h, ih]

/-- Reading a stream in two pieces yields the frames of the whole. -/
theorem frames_append (s t : List α) :
    F.frames (s ++ t) = F.frames s ++ F.frames (F.residue s ++ t) := by
  induction s using F.stream_induction with
  | stop s h => rw [F.frames_of_none h, F.residue_of_none h, List.nil_append]
  | frame s x n h ih =>
    rw [F.frames_of_next h, F.residue_of_next h, F.frames_of_next (F.next_append t h),
      List.drop_append_of_le_length (F.next_le h), ih, List.cons_append]

/-- Reading a stream in two pieces leaves the residue of the whole. -/
theorem residue_append (s t : List α) :
    F.residue (s ++ t) = F.residue (F.residue s ++ t) := by
  induction s using F.stream_induction with
  | stop s h => rw [F.residue_of_none h]
  | frame s x n h ih =>
    rw [F.residue_of_next h, F.residue_of_next (F.next_append t h),
      List.drop_append_of_le_length (F.next_le h), ih]

section Restriction

variable {F} {G : Framing α β}

/-- A reader that accepts fewer frames reads a beginning of what the other reads. -/
theorem frames_of_restricts (h : ∀ s p, F.next s = some p → G.next s = some p) (s : List α) :
    G.frames s = F.frames s ++ G.frames (F.residue s) := by
  induction s using F.stream_induction with
  | stop s hs => rw [F.frames_of_none hs, F.residue_of_none hs, List.nil_append]
  | frame s x n hs ih =>
    rw [F.frames_of_next hs, F.residue_of_next hs, G.frames_of_next (h s _ hs), ih,
      List.cons_append]

theorem residue_of_restricts (h : ∀ s p, F.next s = some p → G.next s = some p) (s : List α) :
    G.residue s = G.residue (F.residue s) := by
  induction s using F.stream_induction with
  | stop s hs => rw [F.residue_of_none hs]
  | frame s x n hs ih => rw [F.residue_of_next hs, G.residue_of_next (h s _ hs), ih]

end Restriction

section Encoding

variable {x : β} {e : List α}

/-- An encoding at the front of a stream is read as its frame. -/
theorem frames_encoded (h : ∀ t, F.next (e ++ t) = some (x, e.length)) (t : List α) :
    F.frames (e ++ t) = x :: F.frames t := by
  rw [F.frames_of_next (h t), List.drop_left]

/-- An encoding at the front of a stream leaves nothing behind. -/
theorem residue_encoded (h : ∀ t, F.next (e ++ t) = some (x, e.length)) (t : List α) :
    F.residue (e ++ t) = F.residue t := by
  rw [F.residue_of_next (h t), List.drop_left]

variable {ι : Type*} {enc : ι → List α} {val : ι → β}

/-- Concatenated encodings are read back in order. -/
theorem frames_flatMap_append (xs : List ι)
    (h : ∀ x ∈ xs, ∀ t, F.next (enc x ++ t) = some (val x, (enc x).length)) (t : List α) :
    F.frames (xs.flatMap enc ++ t) = xs.map val ++ F.frames t := by
  induction xs with
  | nil => simp
  | cons x xs ih =>
    rw [List.flatMap_cons, List.append_assoc, F.frames_encoded (h x List.mem_cons_self),
      ih (fun y hy => h y (List.mem_cons_of_mem _ hy)), List.map_cons, List.cons_append]

/-- Concatenated encodings leave nothing behind. -/
theorem residue_flatMap_append (xs : List ι)
    (h : ∀ x ∈ xs, ∀ t, F.next (enc x ++ t) = some (val x, (enc x).length)) (t : List α) :
    F.residue (xs.flatMap enc ++ t) = F.residue t := by
  induction xs with
  | nil => simp
  | cons x xs ih =>
    rw [List.flatMap_cons, List.append_assoc, F.residue_encoded (h x List.mem_cons_self),
      ih (fun y hy => h y (List.mem_cons_of_mem _ hy))]

end Encoding

section Readings

/-- No proper leading part of a frame is a frame. -/
theorem next_take_eq_none {s : List α} {x : β} {n k : ℕ} (h : F.next s = some (x, n))
    (hk : k < n) : F.next (s.take k) = none := by
  cases hshort : F.next (s.take k) with
  | none => rfl
  | some p =>
    obtain ⟨y, m⟩ := p
    have hle := F.next_le hshort
    have hwhole := F.next_append (s.drop k) hshort
    rw [List.take_append_drop, h] at hwhole
    obtain ⟨-, rfl⟩ := Prod.mk.inj (Option.some.inj hwhole)
    rw [List.length_take] at hle
    omega

/-- Of two frames of which one begins like the other, neither is longer. -/
theorem eq_of_prefix {e e' : List α} {x x' : β} (h : F.next e = some (x, e.length))
    (h' : F.next e' = some (x', e'.length)) (hfront : e <+: e') : e = e' := by
  obtain ⟨t, rfl⟩ := hfront
  have hwhole := F.next_append t h
  rw [h'] at hwhole
  obtain ⟨-, hlen⟩ := Prod.mk.inj (Option.some.inj hwhole)
  rw [List.length_append] at hlen
  rw [List.length_eq_zero_iff.mp (by omega : t.length = 0), List.append_nil]

/-- A stream is divided into frames in at most one way. -/
theorem readings_unique {ps qs : List (List α × β)}
    (hps : ∀ p ∈ ps, F.next p.1 = some (p.2, p.1.length))
    (hqs : ∀ q ∈ qs, F.next q.1 = some (q.2, q.1.length))
    (h : ps.flatMap Prod.fst = qs.flatMap Prod.fst) : ps = qs := by
  induction ps generalizing qs with
  | nil =>
    cases qs with
    | nil => rfl
    | cons q qs =>
      have hq := F.next_pos (hqs q List.mem_cons_self)
      have hlen := congrArg List.length h
      simp only [List.flatMap_nil, List.flatMap_cons, List.length_nil, List.length_append] at hlen
      omega
  | cons p ps ih =>
    cases qs with
    | nil =>
      have hp := F.next_pos (hps p List.mem_cons_self)
      have hlen := congrArg List.length h
      simp only [List.flatMap_nil, List.flatMap_cons, List.length_nil, List.length_append] at hlen
      omega
    | cons q qs =>
      obtain ⟨e, x⟩ := p
      obtain ⟨e', x'⟩ := q
      rw [List.flatMap_cons, List.flatMap_cons] at h
      -- Both first frames are the one at the front of the whole stream.
      have hfirst := F.next_append (ps.flatMap Prod.fst) (hps _ List.mem_cons_self)
      have hsecond := F.next_append (qs.flatMap Prod.fst) (hqs _ List.mem_cons_self)
      rw [h, hsecond] at hfirst
      obtain ⟨hvalue, hlen⟩ := Prod.mk.inj (Option.some.inj hfirst)
      obtain ⟨hpiece, hrest⟩ := List.append_inj h hlen.symm
      dsimp only at hvalue hpiece
      subst hvalue hpiece
      rw [ih (fun p hp => hps p (List.mem_cons_of_mem _ hp))
        (fun q hq => hqs q (List.mem_cons_of_mem _ hq)) hrest]

end Readings

section Combinators

/-- A sequence of two readers succeeds exactly when both do. -/
theorem seq_eq_some {f : List α → Option (β × ℕ)} {g : List α → Option (γ × ℕ)} {s : List α}
    {r : (β × γ) × ℕ} :
    (match f s with
      | none => none
      | some (x, n) =>
        match g (s.drop n) with
        | none => none
        | some (y, m) => some ((x, y), n + m)) = some r ↔
      ∃ x k y m, f s = some (x, k) ∧ g (s.drop k) = some (y, m) ∧ r = ((x, y), k + m) := by
  constructor
  · intro h
    cases hx : f s with
    | none => simp [hx] at h
    | some p =>
      obtain ⟨x, k⟩ := p
      cases hy : g (s.drop k) with
      | none => simp [hx, hy] at h
      | some q =>
        obtain ⟨y, m⟩ := q
        simp only [hx, hy, Option.some.injEq] at h
        exact ⟨x, k, y, m, rfl, hy, h.symm⟩
  · rintro ⟨x, k, y, m, hx, hy, rfl⟩
    simp only [hx, hy]

/-- Two frames in sequence. -/
def prod (G : Framing α γ) : Framing α (β × γ) where
  next s :=
    match F.next s with
    | none => none
    | some (x, n) =>
      match G.next (s.drop n) with
      | none => none
      | some (y, m) => some ((x, y), n + m)
  next_pos := by
    intro s x n h
    obtain ⟨_, k, _, m, hk, -, hr⟩ := seq_eq_some.mp h
    obtain ⟨-, rfl⟩ := Prod.mk.inj hr
    have hpos := F.next_pos hk
    omega
  next_le := by
    intro s x n h
    obtain ⟨_, k, _, m, hk, hm, hr⟩ := seq_eq_some.mp h
    obtain ⟨-, rfl⟩ := Prod.mk.inj hr
    have hle := F.next_le hk
    have hrest := G.next_le hm
    rw [List.length_drop] at hrest
    omega
  next_append := by
    intro s x n t h
    obtain ⟨x, k, y, m, hk, hm, hr⟩ := seq_eq_some.mp h
    refine seq_eq_some.mpr ⟨x, k, y, m, F.next_append t hk, ?_, hr⟩
    rw [List.drop_append_of_le_length (F.next_le hk)]
    exact G.next_append t hm

theorem prod_next_eq_some {G : Framing α γ} {s : List α} {x : β} {y : γ} {n : ℕ} :
    (F.prod G).next s = some ((x, y), n) ↔
      ∃ k m, F.next s = some (x, k) ∧ G.next (s.drop k) = some (y, m) ∧ n = k + m := by
  constructor
  · intro h
    obtain ⟨_, k, _, m, hk, hm, hr⟩ := seq_eq_some.mp h
    obtain ⟨hxy, rfl⟩ := Prod.mk.inj hr
    obtain ⟨rfl, rfl⟩ := Prod.mk.inj hxy
    exact ⟨k, m, hk, hm, rfl⟩
  · rintro ⟨k, m, hk, hm, rfl⟩
    exact seq_eq_some.mpr ⟨x, k, y, m, hk, hm, rfl⟩

/-- A pair is cut off in its first half or in its second. -/
theorem prod_next_eq_none {G : Framing α γ} {s : List α} :
    (F.prod G).next s = none ↔
      F.next s = none ∨ ∃ x k, F.next s = some (x, k) ∧ G.next (s.drop k) = none := by
  cases hx : F.next s with
  | none => simp [prod, hx]
  | some p =>
    obtain ⟨x, k⟩ := p
    cases hy : G.next (s.drop k) <;> simp [prod, hx, hy]

/-- Reading a header and its payload succeeds exactly when both are there. -/
theorem payload_eq_some {f : List α → Option (β × ℕ)} {len : β → ℕ} {s : List α}
    {r : (β × List α) × ℕ} :
    (match f s with
      | none => none
      | some (x, n) =>
        if n + len x ≤ s.length then some ((x, (s.drop n).take (len x)), n + len x)
        else none) = some r ↔
      ∃ x k, f s = some (x, k) ∧ k + len x ≤ s.length ∧
        r = ((x, (s.drop k).take (len x)), k + len x) := by
  constructor
  · intro h
    cases hx : f s with
    | none => simp [hx] at h
    | some p =>
      obtain ⟨x, k⟩ := p
      by_cases hle : k + len x ≤ s.length
      · simp only [hx, hle, if_true, Option.some.injEq] at h
        exact ⟨x, k, rfl, hle, h.symm⟩
      · simp [hx, hle] at h
  · rintro ⟨x, k, hx, hle, rfl⟩
    simp only [hx, hle, if_true]

/-- A header followed by the number of symbols it declares. -/
def withPayload (len : β → ℕ) : Framing α (β × List α) where
  next s :=
    match F.next s with
    | none => none
    | some (x, n) =>
      if n + len x ≤ s.length then some ((x, (s.drop n).take (len x)), n + len x) else none
  next_pos := by
    intro s x n h
    obtain ⟨_, k, hk, -, hr⟩ := payload_eq_some.mp h
    obtain ⟨-, rfl⟩ := Prod.mk.inj hr
    have hpos := F.next_pos hk
    omega
  next_le := by
    intro s x n h
    obtain ⟨_, k, -, hle, hr⟩ := payload_eq_some.mp h
    obtain ⟨-, rfl⟩ := Prod.mk.inj hr
    exact hle
  next_append := by
    intro s x n t h
    obtain ⟨x, k, hk, hle, hr⟩ := payload_eq_some.mp h
    refine payload_eq_some.mpr ⟨x, k, F.next_append t hk, ?_, ?_⟩
    · rw [List.length_append]
      omega
    · rw [hr, List.drop_append_of_le_length (F.next_le hk),
        List.take_append_of_le_length (by rw [List.length_drop]; omega)]

theorem withPayload_next_eq_some {len : β → ℕ} {s v : List α} {x : β} {n : ℕ} :
    (F.withPayload len).next s = some ((x, v), n) ↔
      ∃ k, F.next s = some (x, k) ∧ k + len x ≤ s.length ∧ v = (s.drop k).take (len x) ∧
        n = k + len x := by
  constructor
  · intro h
    obtain ⟨_, k, hk, hle, hr⟩ := payload_eq_some.mp h
    obtain ⟨hxv, rfl⟩ := Prod.mk.inj hr
    obtain ⟨rfl, rfl⟩ := Prod.mk.inj hxv
    exact ⟨k, hk, hle, rfl, rfl⟩
  · rintro ⟨k, hk, hle, rfl, rfl⟩
    exact payload_eq_some.mpr ⟨x, k, hk, hle, rfl⟩

end Combinators

section Locality

/-- A reader that looks at nothing behind its frame. -/
def Local : Prop :=
  ∀ {s x n}, F.next s = some (x, n) → F.next (s.take n) = some (x, n)

variable {F}

/-- What stands behind a frame may be cut off anywhere. -/
theorem Local.next_take (hF : F.Local) {s : List α} {x : β} {k n : ℕ}
    (h : F.next s = some (x, k)) (hn : k ≤ n) : F.next (s.take n) = some (x, k) := by
  have htake : (s.take n).take k = s.take k := by
    rw [List.take_take, Nat.min_eq_left hn]
  rw [← List.take_append_drop k (s.take n), htake]
  exact F.next_append _ (hF h)

/-- A pair of local readers is local. -/
theorem Local.prod {G : Framing α γ} (hF : F.Local) (hG : G.Local) : (F.prod G).Local := by
  rintro s ⟨x, y⟩ n h
  obtain ⟨k, m, hk, hm, rfl⟩ := (F.prod_next_eq_some).mp h
  refine (F.prod_next_eq_some).mpr ⟨k, m, ?_, ?_, rfl⟩
  · rw [List.take_add]
    exact F.next_append _ (hF hk)
  · rw [List.drop_take, Nat.add_sub_cancel_left]
    exact hG hm

end Locality

end Framing

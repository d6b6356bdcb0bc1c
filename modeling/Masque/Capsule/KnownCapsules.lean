import Masque.Capsule.ParserRuns

/-!
# Collecting the known capsules of a stream

The receive loop of the stream tests, `parse_known_capsules`, for any division of the stream
into chunks: feed a chunk, drain the parser, and finalize at the end. It returns the
reference of the whole stream (`parseChunks_eq`).
-/

namespace Masque.CapsuleParser

open Outcome Capsule

/-- `while let Some(capsule) = parser.next_capsule()?`: the capsules pushed. -/
def drain (p : CapsuleParser) : Result (List Capsule) × CapsuleParser :=
  match h : p.nextCapsule with
  | (.ok (some c), q) =>
    have := length_window_of_yield h
    let (rest, q') := drain q
    ((c :: ·) <$> rest, q')
  | (.ok none, q) => (.ok [], q)
  | (.err e, q) => (.err e, q)
  | (.panic, q) => (.panic, q)
termination_by p.window.length
decreasing_by omega

/-- One round of the receive loop. -/
def feedChunk (p : CapsuleParser) (chunk : List UInt8) :
    Result (List Capsule) × CapsuleParser :=
  match p.feed chunk with
  | (.ok c, q) =>
    let (rest, q') := drain q
    ((c.toList ++ ·) <$> rest, q')
  | (.err e, q) => (.err e, q)
  | (.panic, q) => (.panic, q)

/-- All rounds of the receive loop and the last drain. -/
def feedChunks (p : CapsuleParser) : List (List UInt8) → Result (List Capsule) × CapsuleParser
  | [] => drain p
  | chunk :: chunks =>
    match p.feedChunk chunk with
    | (.ok known, q) =>
      let (rest, q') := feedChunks q chunks
      ((known ++ ·) <$> rest, q')
    | (.err e, q) => (.err e, q)
    | (.panic, q) => (.panic, q)

/-- `parse_known_capsules` on a stream that arrives in the given chunks. -/
def parseChunks (chunks : List (List UInt8)) : Result (List Capsule) := do
  let (known, p) := feedChunks new chunks
  let known ← known
  p.finalize
  return known

/-- `FEED_CHUNK_SIZE`. -/
def feedChunkSize : ℕ := 7

/-- `parse_known_capsules`. -/
def parseKnownCapsules (bytes : List UInt8) : Result (List Capsule) :=
  parseChunks (bytes.toChunks feedChunkSize)

variable {p q : CapsuleParser} {limit : ℕ} {received : List UInt8} {ys : List Capsule}

theorem drain_of_some {c : Capsule} (h : p.nextCapsule = (.ok (some c), q)) :
    drain p = ((c :: ·) <$> (drain q).1, (drain q).2) := by
  rw [drain]
  split
  · next c' q' h' =>
    obtain ⟨rfl, rfl⟩ : c' = c ∧ q' = q := by simpa [h] using h'.symm
    rfl
  all_goals next h' => simp [h] at h'

theorem drain_of_none (h : p.nextCapsule = (.ok none, q)) : drain p = (.ok [], q) := by
  rw [drain]
  split
  · next h' => simp [h] at h'
  · next q' h' => rw [show q' = q by simpa [h] using h'.symm]
  all_goals next h' => simp [h] at h'

/-- How a drained parser stands: nothing more of what it received can be read. -/
structure Drained (limit : ℕ) (received : List UInt8) (p : CapsuleParser) : Prop where
  reached : Reached limit received (reference limit received) p
  finalize_eq : p.finalize = .ok () ↔ residue limit received = []

/-- A parser that waits is drained. -/
theorem Settled.drained {r : Result (Option Capsule)}
    (h : Settled limit received ys r q) (hmax : q.maxCapsuleLength = limit) (hr : r = .ok none) :
    reference limit received = ys ∧ Drained limit received q := by
  cases h with
  | yields => simp at hr
  | refused => simp at hr
  | waiting hinv htracks hstuck =>
    obtain ⟨href, _, hresidue⟩ := waiting_stop htracks hinv.window_eq_nil hstuck
    exact ⟨href, ⟨hinv, hmax, href ▸ htracks⟩, (finalize_eq_ok_iff hinv).trans hresidue.symm⟩

/-- Draining a parser in front of which no oversize header stands returns what is left of
the reference. -/
theorem Reached.drain (h : Reached limit received ys p)
    (hover : ¬Oversize limit (residue limit received)) :
    ∃ cs q, drain p = (.ok cs, q) ∧ reference limit received = ys ++ cs ∧
      Drained limit received q := by
  induction hlen : p.window.length using Nat.strongRecOn generalizing p ys with
  | ind n ih =>
    obtain ⟨hsettled, hmax⟩ := h.step_settled .nextCapsule
    rw [Call.bytes, List.append_nil] at hsettled
    generalize hr : (machine.step p .nextCapsule).1 = r at hsettled
    generalize hq : (machine.step p .nextCapsule).2 = q at hsettled hmax
    have hcall : p.nextCapsule = (r, q) := Prod.ext hr hq
    match r with
    | .ok none =>
      obtain ⟨href, hdrained⟩ := hsettled.drained hmax rfl
      exact ⟨[], q, drain_of_none hcall, by rw [href, List.append_nil], hdrained⟩
    | .ok (some c) =>
      have hconsumed := length_window_of_yield hcall
      obtain ⟨cs, q', hdrain, href, hdrained⟩ :=
        ih q.window.length (by omega) (hsettled.reached hmax) rfl
      refine ⟨c :: cs, q', by rw [drain_of_some hcall, hdrain, map_ok], ?_, hdrained⟩
      simpa using href
    | .err e => exact absurd (hsettled.eq_err_iff.mp ⟨e, rfl⟩).2 hover
    | .panic => cases hsettled

/-- One round returns what the chunk adds to the reference. -/
theorem Drained.feedChunk (h : Drained limit received p) {chunk : List UInt8}
    (hover : ¬Oversize limit (residue limit (received ++ chunk))) :
    ∃ cs q, p.feedChunk chunk = (.ok cs, q) ∧
      reference limit (received ++ chunk) = reference limit received ++ cs ∧
      Drained limit (received ++ chunk) q := by
  obtain ⟨hsettled, hmax⟩ := h.reached.step_settled (.feed chunk)
  rw [Call.bytes] at hsettled
  generalize hr : (machine.step p (.feed chunk)).1 = r at hsettled
  generalize hq : (machine.step p (.feed chunk)).2 = q at hsettled hmax
  have hcall : p.feed chunk = (r, q) := Prod.ext hr hq
  -- The first call takes the chunk and at most one capsule, the drain takes the others.
  match r with
  | .ok c =>
    obtain ⟨cs, q', hdrain, href, hdrained⟩ := (hsettled.reached hmax).drain hover
    refine ⟨c.toList ++ cs, q', ?_, by simpa using href, hdrained⟩
    rw [CapsuleParser.feedChunk, hcall]
    simp only [hdrain, map_ok]
  | .err e => exact absurd (hsettled.eq_err_iff.mp ⟨e, rfl⟩).2 hover
  | .panic => cases hsettled

/-- All rounds together return what the chunks add to the reference. -/
theorem Drained.feedChunks (h : Drained limit received p) (chunks : List (List UInt8))
    (hover : ¬Oversize limit (residue limit (received ++ chunks.flatten))) :
    ∃ cs q, p.feedChunks chunks = (.ok cs, q) ∧
      reference limit (received ++ chunks.flatten) = reference limit received ++ cs ∧
      Drained limit (received ++ chunks.flatten) q := by
  induction chunks generalizing p received with
  | nil =>
    rw [List.flatten_nil, List.append_nil] at hover ⊢
    exact h.reached.drain hover
  | cons chunk chunks ih =>
    rw [List.flatten_cons, ← List.append_assoc] at hover ⊢
    -- An oversize header in front of the later chunks would still be there at the end.
    have hfirst : ¬Oversize limit (residue limit (received ++ chunk)) :=
      fun hfirst => hover (oversize_append hfirst chunks.flatten).2.2
    obtain ⟨known, q, hcall, href, hdrained⟩ := h.feedChunk hfirst
    obtain ⟨cs, q', hrest, href', hdrained'⟩ := ih hdrained hover
    refine ⟨known ++ cs, q', ?_, by rw [href', href, List.append_assoc], hdrained'⟩
    simp only [CapsuleParser.feedChunks, hcall, hrest, map_ok]

theorem drained_new : Drained defaultMaxCapsuleLength [] new :=
  ⟨by rw [reference_nil]; exact reached_withMaxLength _, iff_of_true rfl residue_nil⟩

/-- A stream of whole capsules within the limit is collected as its reference, however it
is divided into chunks. -/
theorem parseChunks_eq {chunks : List (List UInt8)}
    (h : residue defaultMaxCapsuleLength chunks.flatten = []) :
    parseChunks chunks = .ok (reference defaultMaxCapsuleLength chunks.flatten) := by
  have hover : ¬Oversize defaultMaxCapsuleLength
      (residue defaultMaxCapsuleLength ([] ++ chunks.flatten)) := by
    rw [List.nil_append, h]
    exact not_oversize_of_eq_none (Framing.next_nil _)
  obtain ⟨cs, q, hcall, href, hdrained⟩ := drained_new.feedChunks chunks hover
  rw [reference_nil, List.nil_append, List.nil_append] at href
  rw [parseChunks, hcall]
  simp only [ok_bind, hdrained.finalize_eq.mpr h, pure_eq, href]

section Refused

theorem drain_of_err {e : Error} (h : p.nextCapsule = (.err e, q)) : drain p = (.err e, q) := by
  rw [drain]
  split
  · next h' => simp [h] at h'
  · next h' => simp [h] at h'
  · next e' q' h' =>
    obtain ⟨rfl, rfl⟩ : e' = e ∧ q' = q := by simpa [h] using h'.symm
    rfl
  · next h' => simp [h] at h'

/-- In front of an oversize header the loop of drains ends with its error. -/
theorem Reached.drain_refused (h : Reached limit received ys p)
    (hover : Oversize limit (residue limit received)) :
    (CapsuleParser.drain p).1 = .err tooLarge := by
  induction hlen : p.window.length using Nat.strongRecOn generalizing p ys with
  | ind n ih =>
    obtain ⟨hsettled, hmax⟩ := h.step_settled .nextCapsule
    rw [Call.bytes, List.append_nil] at hsettled
    generalize hr : (machine.step p .nextCapsule).1 = r at hsettled
    generalize hq : (machine.step p .nextCapsule).2 = q at hsettled hmax
    have hcall : p.nextCapsule = (r, q) := Prod.ext hr hq
    match r with
    | .ok none =>
      obtain ⟨href, _⟩ := hsettled.drained hmax rfl
      obtain ⟨e, he⟩ := hsettled.eq_err_iff.mpr ⟨href.symm, hover⟩
      cases he
    | .ok (some c) =>
      have hconsumed := length_window_of_yield hcall
      have hrest := ih q.window.length (by omega) (hsettled.reached hmax) rfl
      rw [drain_of_some hcall, hrest, map_err]
    | .err e =>
      obtain ⟨rfl, _⟩ := hsettled.of_eq_err rfl
      rw [drain_of_err hcall]
    | .panic => cases hsettled

theorem Reached.feedChunk_refused (h : Reached limit received ys p) {chunk : List UInt8}
    (hover : Oversize limit (residue limit (received ++ chunk))) :
    (p.feedChunk chunk).1 = .err tooLarge := by
  obtain ⟨hsettled, hmax⟩ := h.step_settled (.feed chunk)
  rw [Call.bytes] at hsettled
  generalize hr : (machine.step p (.feed chunk)).1 = r at hsettled
  generalize hq : (machine.step p (.feed chunk)).2 = q at hsettled hmax
  have hcall : p.feed chunk = (r, q) := Prod.ext hr hq
  rw [CapsuleParser.feedChunk, hcall]
  match r with
  | .ok c =>
    have hrest := (hsettled.reached hmax).drain_refused hover
    simp only [hrest, map_err]
  | .err e =>
    obtain ⟨rfl, _⟩ := hsettled.of_eq_err rfl
    rfl
  | .panic => cases hsettled

/-- The round in which the oversize header is complete is the one that fails. -/
theorem Drained.feedChunks_refused (h : Drained limit received p) (chunks : List (List UInt8))
    (hover : Oversize limit (residue limit (received ++ chunks.flatten))) :
    (p.feedChunks chunks).1 = .err tooLarge := by
  induction chunks generalizing p received with
  | nil =>
    rw [List.flatten_nil, List.append_nil] at hover
    exact h.reached.drain_refused hover
  | cons chunk chunks ih =>
    rw [List.flatten_cons, ← List.append_assoc] at hover
    by_cases hfirst : Oversize limit (residue limit (received ++ chunk))
    · have hcall := h.reached.feedChunk_refused hfirst
      rw [CapsuleParser.feedChunks]
      generalize p.feedChunk chunk = result at hcall ⊢
      obtain ⟨r, q⟩ := result
      obtain rfl : r = .err tooLarge := hcall
      rfl
    · obtain ⟨known, q, hcall, _, hdrained⟩ := h.feedChunk hfirst
      simp only [CapsuleParser.feedChunks, hcall, ih hdrained hover, map_err]

end Refused

/-- What a stream is received as: the error of an oversize header where there is one, the
error of a capsule that is cut off at the end, or else the reference. -/
def receives (stream : List UInt8) : Result (List Capsule) :=
  if Oversize defaultMaxCapsuleLength (residue defaultMaxCapsuleLength stream) then .err tooLarge
  else if residue defaultMaxCapsuleLength stream = [] then
    .ok (reference defaultMaxCapsuleLength stream)
  else .err truncated

/-- The receive loop on any stream, in any chunks. -/
theorem parseChunks_eq_receives (chunks : List (List UInt8)) :
    parseChunks chunks = receives chunks.flatten := by
  unfold parseChunks receives
  split_ifs with hover hnil
  · have hrefused := drained_new.feedChunks_refused chunks hover
    generalize feedChunks new chunks = result at hrefused ⊢
    obtain ⟨r, q⟩ := result
    obtain rfl : r = .err tooLarge := hrefused
    rfl
  · rw [← parseChunks_eq hnil, parseChunks]
  · obtain ⟨cs, q, hcall, _, hdrained⟩ := drained_new.feedChunks chunks hover
    rw [hcall]
    simp only [ok_bind]
    rw [finalize_eq_err_iff.mpr (fun h => hnil (hdrained.finalize_eq.mp h)), err_bind]

theorem flatten_toChunks_go {α : Type*} (n : ℕ) (xs : List α) (acc : Array α)
    (done : Array (List α)) :
    (List.toChunks.go n xs acc done).flatten = done.toList.flatten ++ acc.toList ++ xs := by
  induction xs generalizing acc done with
  | nil => simp [List.toChunks.go]
  | cons x xs ih =>
    rw [List.toChunks.go]
    split_ifs <;> simp [ih]

/-- The chunks of a list are a division of it. -/
theorem flatten_toChunks {α : Type*} (n : ℕ) (xs : List α) : (xs.toChunks n).flatten = xs := by
  match n, xs with
  | _, [] => simp [List.toChunks]
  | 0, x :: xs => simp [List.toChunks]
  | n + 1, x :: xs => simp [List.toChunks, flatten_toChunks_go]

/-- The receive loop depends on the stream alone: however it is cut, and so in the chunks of
the tests too, it returns the reference, the error of an oversize header or that of a
capsule cut off at the end. -/
theorem receiveLoop_exact (stream : List UInt8) :
    (∀ chunks : List (List UInt8), chunks.flatten = stream →
      parseChunks chunks = receives stream) ∧
    parseKnownCapsules stream = receives stream := by
  refine ⟨?_, ?_⟩
  · rintro chunks rfl
    exact parseChunks_eq_receives chunks
  · rw [parseKnownCapsules, parseChunks_eq_receives, flatten_toChunks]

end Masque.CapsuleParser

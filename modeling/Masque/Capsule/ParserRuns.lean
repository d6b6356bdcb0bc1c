import Masque.Capsule.Simulation

/-!
# Runs of the streaming parser

What holds of every list of `feed` and `next_capsule` calls on a fresh parser: the capsules
yielded are those of the reference (`parser_refines_decode`), the only errors are oversize
DATAGRAM headers and they are final (`parser_errors`), and the parser never retains more than one
capsule within the limit (`parser_bounded`).
-/

namespace Masque.CapsuleParser

open Outcome Capsule

variable {p q : CapsuleParser} {limit : ℕ} {received w : List UInt8} {ys : List Capsule}

section Reached

@[simp] theorem yielded_ok (c : Option Capsule) : yielded [.ok c] = c.toList := by
  cases c <;> rfl

@[simp] theorem yielded_err (e : Error) : yielded [.err e] = [] := rfl

theorem yielded_append (rs ss : List (Result (Option Capsule))) :
    yielded (rs ++ ss) = yielded rs ++ yielded ss :=
  List.filterMap_append

theorem length_fed (calls : List Call) :
    (fed calls).length = (calls.map fun c => c.bytes.length).sum := by
  rw [fed, List.length_flatMap]

/-- A state between calls, in the light of the bytes received and the capsules yielded. -/
structure Reached (limit : ℕ) (received : List UInt8) (ys : List Capsule)
    (p : CapsuleParser) : Prop where
  inv : p.Inv
  max_eq : p.maxCapsuleLength = limit
  tracks : Tracks limit received ys p.window p.skipRemaining

theorem reached_withMaxLength (limit : ℕ) : Reached limit [] [] (withMaxLength limit) :=
  ⟨inv_withMaxLength limit, rfl, tracks_nil limit⟩

/-- A call from a reached state settles. -/
theorem Reached.step_settled (h : Reached limit received ys p) (c : Call) :
    Settled limit (received ++ c.bytes) ys (machine.step p c).1 (machine.step p c).2 ∧
      (machine.step p c).2.maxCapsuleLength = limit := by
  have hbounded := h.inv.toBounded
  rw [machine_step]
  refine tryParse_settled (hbounded.append c.bytes) h.max_eq ?_
  rw [window_append hbounded]
  exact h.tracks.append c.bytes

/-- The state a call leaves is reached. -/
theorem Settled.reached {r : Result (Option Capsule)} (h : Settled limit received ys r q)
    (hmax : q.maxCapsuleLength = limit) :
    Reached limit received (ys ++ yielded [r]) q := by
  cases h with
  | waiting hinv htracks _ => exact ⟨hinv, hmax, by simpa using htracks⟩
  | yields hinv _ htracks _ => exact ⟨hinv, hmax, by simpa using htracks⟩
  | refused hinv _ htracks _ => exact ⟨hinv, hmax, by simpa using htracks⟩

/-- Every run leads to a reached state. -/
theorem run_reached (limit : ℕ) (calls : List Call) :
    Reached limit (fed calls) (yielded (results limit calls)) (stateAfter limit calls) := by
  refine machine.run_history
    (motive := fun calls results p => Reached limit (fed calls) (yielded results) p)
    (reached_withMaxLength limit) ?_ calls
  intro calls results p c h
  obtain ⟨hsettled, hmax⟩ := h.step_settled c
  rw [yielded_append]
  simpa [fed] using hsettled.reached hmax

/-- Every call of a run settles. -/
theorem run_settled (limit : ℕ) (calls : List Call) (c : Call) :
    Settled limit (fed (calls ++ [c])) (yielded (results limit calls))
      (machine.step (stateAfter limit calls) c).1
      (machine.step (stateAfter limit calls) c).2 := by
  have hfed : fed (calls ++ [c]) = fed calls ++ c.bytes := by simp [fed]
  rw [hfed]
  exact ((run_reached limit calls).step_settled c).1

theorem results_append_singleton (limit : ℕ) (calls : List Call) (c : Call) :
    results limit (calls ++ [c]) =
      results limit calls ++ [(machine.step (stateAfter limit calls) c).1] :=
  machine.outputs_append _ _ _

theorem stateAfter_append (limit : ℕ) (calls more : List Call) :
    stateAfter limit (calls ++ more) = machine.after (stateAfter limit calls) more :=
  machine.after_append _ _ _

theorem stateAfter_append_singleton (limit : ℕ) (calls : List Call) (c : Call) :
    stateAfter limit (calls ++ [c]) = (machine.step (stateAfter limit calls) c).2 :=
  stateAfter_append _ _ _

/-- A parser that has just answered `Ok(None)`, or a fresh one, skips or is stuck. -/
theorem stuck_of_waiting {calls : List Call}
    (h : calls = [] ∨ (results limit calls).getLast? = some (.ok none)) :
    (stateAfter limit calls).skipRemaining = 0 → Stuck limit (stateAfter limit calls).window := by
  rcases List.eq_nil_or_concat calls with rfl | ⟨front, c, rfl⟩
  · exact fun _ => .header (Framing.next_nil _)
  · rw [List.concat_eq_append] at h ⊢
    have hsettled := run_settled limit front c
    have hlast : (machine.step (stateAfter limit front) c).1 = .ok none := by
      simpa [results_append_singleton] using h
    rw [hlast] at hsettled
    rw [stateAfter_append_singleton]
    cases hsettled with
    | waiting _ _ hstuck => exact hstuck

end Reached

section Stuck

theorem Stuck.accepted_eq_none (h : Stuck limit w) : (accepted limit).next w = none := by
  cases h with
  | header hheader => exact accepted_of_eq_none hheader
  | datagram hheader _ _ hshort => exact accepted_of_short limit hheader hshort

theorem Stuck.not_oversize (h : Stuck limit w) : ¬Oversize limit w := by
  cases h with
  | header hheader => exact not_oversize_of_eq_none hheader
  | datagram hheader _ hlimit _ =>
    rw [oversize_iff_of_header hheader]
    omega

/-- Fewer than sixteen bytes may be missing a header. -/
theorem length_lt_of_header_eq_none (h : Capsule.header.next w = none) : w.length < 16 := by
  rcases Capsule.header_next_eq_none.mp h with ht | ⟨t, k, ht, hl⟩
  · have := TaggedInt.length_lt_of_decode_eq_none ht
    omega
  · have hk := TaggedInt.width_le_of_decode ht
    have hlen := TaggedInt.length_lt_of_decode_eq_none hl
    rw [List.length_drop] at hlen
    omega

/-- What a parser waits behind is shorter than a header and the limit. -/
theorem Stuck.length_le (h : Stuck limit w) : w.length ≤ limit + 15 := by
  cases h with
  | header hheader =>
    have := length_lt_of_header_eq_none hheader
    omega
  | datagram hheader _ _ hshort =>
    have := Capsule.header_le_sixteen hheader
    omega

/-- Where a parser waits, nothing more of the stream can be read. -/
theorem waiting_stop (htracks : Tracks limit received ys w skip)
    (hdrained : 0 < skip → w = []) (hstuck : skip = 0 → Stuck limit w) :
    reference limit received = ys ∧ ¬Oversize limit (residue limit received) ∧
      (residue limit received = [] ↔ w = [] ∧ skip = 0) := by
  rcases Nat.eq_zero_or_pos skip with rfl | hpos
  · have hreference := htracks.resumes.reference_eq
    have hresidue := htracks.resumes.residue_eq
    obtain ⟨hnil, hself⟩ := reference_of_none (hstuck rfl).accepted_eq_none
    rw [hnil, List.append_nil] at hreference
    rw [hself] at hresidue
    rw [hresidue]
    exact ⟨hreference, (hstuck rfl).not_oversize, by simp⟩
  · obtain ⟨u, howes, hresumes⟩ := htracks
    have hreference := hresumes.reference_eq
    have hresidue := hresumes.residue_eq
    obtain rfl := hdrained hpos
    cases howes with
    | nothing => omega
    | value hheader ht hskip hlen =>
      rw [List.append_nil] at hreference hresidue
      obtain ⟨hnil, hself⟩ :=
        reference_of_none (accepted_of_short limit hheader (by omega))
      rw [hnil, List.append_nil] at hreference
      rw [hself] at hresidue
      rw [hresidue, oversize_iff_of_header hheader, ← CapsuleType.isDatagram_iff, ht]
      refine ⟨hreference, by simp, iff_of_false ?_ (by omega)⟩
      rintro rfl
      simp at hheader

end Stuck

section Finalize

theorem finalize_eq_ok_iff (h : p.Inv) :
    p.finalize = .ok () ↔ p.window = [] ∧ p.skipRemaining = 0 := by
  have hle := h.start_le
  have hwindow : p.window = [] ↔ p.buf.length ≤ p.start := by
    rw [window, List.drop_eq_nil_iff]
  rw [hwindow, finalize]
  split_ifs with hempty
  · exact iff_of_true rfl hempty
  · exact iff_of_false (by simp) hempty

theorem finalize_eq_err_iff : p.finalize = .err truncated ↔ p.finalize ≠ .ok () := by
  unfold finalize truncated
  split_ifs <;> simp

end Finalize

/-- The streaming parser refines the one-shot decoder, however the stream is cut: it yields
a prefix of the reference, all of it once it waits, and then `finalize` accepts exactly the
streams that leave nothing over. -/
theorem parser_refines_decode (limit : ℕ) (calls : List Call) :
    yielded (results limit calls) <+: reference limit (fed calls) ∧
    ((results limit calls).getLast? = some (.ok none) →
      yielded (results limit calls) = reference limit (fed calls)) ∧
    (calls = [] ∨ (results limit calls).getLast? = some (.ok none) →
      ((stateAfter limit calls).finalize = .ok () ↔ residue limit (fed calls) = []) ∧
      ((stateAfter limit calls).finalize = .err truncated ↔
        residue limit (fed calls) ≠ [])) := by
  have hreached := run_reached limit calls
  refine ⟨?_, fun h => ?_, fun h => ?_⟩
  · obtain ⟨u, _, hresumes⟩ := hreached.tracks
    rw [hresumes.reference_eq]
    exact List.prefix_append _ _
  · have hstuck := stuck_of_waiting (.inr h)
    exact (waiting_stop hreached.tracks hreached.inv.window_eq_nil hstuck).1.symm
  · have hstuck := stuck_of_waiting h
    obtain ⟨_, _, hresidue⟩ :=
      waiting_stop hreached.tracks hreached.inv.window_eq_nil hstuck
    have hok := (finalize_eq_ok_iff hreached.inv).trans hresidue.symm
    exact ⟨hok, finalize_eq_err_iff.trans (not_congr hok)⟩

section Refusal

variable {r : Result (Option Capsule)}

/-- A call is refused exactly when everything in front of an oversize header has been read. -/
theorem Settled.eq_err_iff (h : Settled limit received ys r q) :
    (∃ e, r = .err e) ↔
      ys = reference limit received ∧ Oversize limit (residue limit received) := by
  cases h with
  | waiting hinv htracks hstuck =>
    obtain ⟨_, hover, _⟩ := waiting_stop htracks hinv.window_eq_nil hstuck
    exact iff_of_false (by simp) (fun h => hover h.2)
  | @yields q c _ _ htracks _ =>
    obtain ⟨u, _, hresumes⟩ := htracks
    refine iff_of_false (by simp) (fun h => ?_)
    have hlen := congrArg List.length (h.1.trans hresumes.reference_eq)
    simp only [List.length_append, List.length_singleton] at hlen
    omega
  | refused _ hskip htracks hover =>
    rw [hskip] at htracks
    have hreference := htracks.resumes.reference_eq
    have hresidue := htracks.resumes.residue_eq
    obtain ⟨hnil, hself⟩ := reference_of_none (accepted_of_oversize hover)
    rw [hnil, List.append_nil] at hreference
    rw [hself] at hresidue
    exact iff_of_true ⟨_, rfl⟩ ⟨hreference.symm, hresidue ▸ hover⟩

/-- A refusal reports the length, and leaves the header at the front of the unread bytes. -/
theorem Settled.of_eq_err {e : Error} (h : Settled limit received ys r q) (he : r = .err e) :
    e = tooLarge ∧ q.skipRemaining = 0 ∧ q.window = residue limit received := by
  cases h with
  | waiting => simp at he
  | yields => simp at he
  | refused _ hskip htracks hover =>
    rw [hskip] at htracks
    rw [htracks.resumes.residue_eq, (reference_of_none (accepted_of_oversize hover)).2]
    exact ⟨(err.inj he).symm, hskip, rfl⟩

/-- Bytes behind an oversize header change nothing of what has been read. -/
theorem oversize_append (hover : Oversize limit (residue limit received))
    (bytes : List UInt8) :
    reference limit (received ++ bytes) = reference limit received ∧
      residue limit (received ++ bytes) = residue limit received ++ bytes ∧
      Oversize limit (residue limit (received ++ bytes)) := by
  have happend := hover.append bytes
  obtain ⟨hnil, hself⟩ := reference_of_none (accepted_of_oversize happend)
  have hresidue : residue limit (received ++ bytes) = residue limit received ++ bytes := by
    rw [residue_append, hself]
  exact ⟨by rw [reference_append, hnil, List.append_nil], hresidue, hresidue ▸ happend⟩

/-- In front of an oversize header every call of every run is refused. -/
theorem Reached.run_refused (h : Reached limit received (reference limit received) p)
    (hover : Oversize limit (residue limit received))
    (hwindow : p.window = residue limit received) (more : List Call) :
    (∀ r ∈ machine.outputs p more, r = .err tooLarge) ∧
      yielded (machine.outputs p more) = [] ∧ (machine.after p more).Inv ∧
      (machine.after p more).window = residue limit received ++ fed more := by
  suffices hrun : (∀ r ∈ machine.outputs p more, r = .err tooLarge) ∧
      yielded (machine.outputs p more) = [] ∧
      Reached limit (received ++ fed more) (reference limit (received ++ fed more))
        (machine.after p more) ∧
      Oversize limit (residue limit (received ++ fed more)) ∧
      (machine.after p more).window = residue limit received ++ fed more by
    exact ⟨hrun.1, hrun.2.1, hrun.2.2.1.inv, hrun.2.2.2.2⟩
  -- The refused capsule stays at the front of the window, whatever is fed behind it.
  refine machine.run_history (motive := fun more results p =>
    (∀ r ∈ results, r = .err tooLarge) ∧ yielded results = [] ∧
      Reached limit (received ++ fed more) (reference limit (received ++ fed more)) p ∧
      Oversize limit (residue limit (received ++ fed more)) ∧
      p.window = residue limit received ++ fed more) ?_ ?_ more
  · simpa [fed, yielded] using ⟨h, hover, hwindow⟩
  · rintro more results p c ⟨herr, hnil, hreached, hover', _⟩
    obtain ⟨hsettled, hmax⟩ := hreached.step_settled c
    obtain ⟨href, hres, hover''⟩ := oversize_append hover' c.bytes
    rw [← href] at hsettled
    obtain ⟨e, he⟩ := hsettled.eq_err_iff.mpr ⟨rfl, hover''⟩
    obtain ⟨rfl, hskip, hwindow'⟩ := hsettled.of_eq_err he
    have hreached' := hsettled.reached hmax
    have hfed : received ++ fed (more ++ [c]) = received ++ fed more ++ c.bytes := by
      simp [fed]
    rw [he, yielded_err, List.append_nil] at hreached'
    rw [he, hfed]
    refine ⟨?_, by rw [yielded_append, hnil]; rfl, hreached', hover'', ?_⟩
    · intro r hr
      rcases List.mem_append.mp hr with hr | hr
      · exact herr r hr
      · exact List.mem_singleton.mp hr
    · rw [hwindow', hres, (oversize_append hover (fed more)).2.1]
      simp [fed]

/-- No header is malformed: the parser reads one or waits for the rest of it. -/
theorem readHeader_total (w : List UInt8) : ∃ h, readHeader w = .ok h := by
  rcases Capsule.header_cases w with hheader | ⟨t, l, k, hheader⟩
  · exact ⟨none, readHeader_of_eq_none hheader⟩
  · exact ⟨_, readHeader_of_eq_some hheader⟩

/-- The capsule behind a header that has been read can be built. -/
theorem new_of_readHeader {hd : Header} (h : readHeader w = .ok (some hd)) :
    ∃ c, Capsule.new hd.capsuleType ((w.drop hd.headerLen).take hd.length) = .ok c := by
  obtain ⟨hheader, _⟩ := header_of_readHeader h
  refine ⟨_, Capsule.new_eq_ok.mpr ⟨rfl, ?_⟩⟩
  exact lt_of_le_of_lt (List.length_take_le _ _) (Capsule.header_length_lt hheader)

end Refusal

/-- The errors of the parser are exactly the oversize DATAGRAM headers, reported once
everything in front of them has been read, and they are final. -/
theorem parser_errors (limit : ℕ) (calls : List Call) (c : Call) :
    (∀ w, ∃ h, readHeader w = .ok h) ∧
    (∀ w hd, readHeader w = .ok (some hd) →
      ∃ cap, Capsule.new hd.capsuleType ((w.drop hd.headerLen).take hd.length) = .ok cap) ∧
    ((∃ e, (machine.step (stateAfter limit calls) c).1 = .err e) ↔
      yielded (results limit calls) = reference limit (fed (calls ++ [c])) ∧
        Oversize limit (residue limit (fed (calls ++ [c])))) ∧
    (∀ e, (machine.step (stateAfter limit calls) c).1 = .err e →
      e = .h3Datagram .lengthTooLarge "capsule length exceeds maximum allowed" ∧
      (stateAfter limit (calls ++ [c])).skipRemaining = 0 ∧
      (stateAfter limit (calls ++ [c])).window = residue limit (fed (calls ++ [c])) ∧
      ∀ more,
        (∀ r ∈ machine.outputs (stateAfter limit (calls ++ [c])) more, r = .err e) ∧
        yielded (machine.outputs (stateAfter limit (calls ++ [c])) more) = [] ∧
        (stateAfter limit (calls ++ [c] ++ more)).window =
          residue limit (fed (calls ++ [c])) ++ fed more ∧
        (stateAfter limit (calls ++ [c] ++ more)).finalize =
          .err (.h3Datagram .truncated "capsule truncated at end of stream")) := by
  have hsettled := run_settled limit calls c
  refine ⟨readHeader_total, fun _ _ => new_of_readHeader, hsettled.eq_err_iff, ?_⟩
  intro e he
  obtain ⟨hys, hover⟩ := hsettled.eq_err_iff.mp ⟨e, he⟩
  obtain ⟨rfl, hskip, hwindow⟩ := hsettled.of_eq_err he
  have hreached := run_reached limit (calls ++ [c])
  rw [results_append_singleton, yielded_append, he, yielded_err, List.append_nil, hys]
    at hreached
  rw [← stateAfter_append_singleton] at hskip hwindow
  refine ⟨rfl, hskip, hwindow, fun more => ?_⟩
  obtain ⟨hall, hnone, hinv, hmore⟩ := hreached.run_refused hover hwindow more
  rw [stateAfter_append limit (calls ++ [c]) more]
  refine ⟨hall, hnone, hmore, finalize_eq_err_iff.mpr ?_⟩
  -- A stream may end only with an empty window, and nothing in it is no refused capsule.
  rw [Ne, finalize_eq_ok_iff hinv, hmore]
  rintro ⟨hnil, _⟩
  rw [(List.append_eq_nil_iff.mp hnil).1] at hover
  exact not_oversize_of_eq_none (Framing.next_nil _) hover

section Loop

/-- `n` iterations of the loop that go on lead from `p` to `q`. -/
inductive Iterates : ℕ → CapsuleParser → CapsuleParser → Prop
  | zero (p : CapsuleParser) : Iterates 0 p p
  | succ {n : ℕ} {p q r : CapsuleParser} (hagain : p.tryParseBody = .again q)
      (hrest : Iterates n q r) : Iterates (n + 1) p r

/-- The loop leaves after finitely many iterations, with the result of the last one. -/
theorem tryParse_iterates (p : CapsuleParser) :
    ∃ n q, Iterates n p q ∧ 2 * n + q.window.length ≤ p.window.length ∧
      q.tryParseBody = .done p.tryParse.1 p.tryParse.2 := by
  induction p using tryParse.induct with
  | case1 p q hagain _ ih =>
    obtain ⟨n, r, hiter, hlen, hdone⟩ := ih
    have hconsumed := length_window_of_again hagain
    rw [tryParse_of_again hagain]
    exact ⟨n + 1, r, .succ hagain hiter, by omega, hdone⟩
  | case2 p r q hdone =>
    rw [tryParse_of_done hdone]
    exact ⟨0, p, .zero p, by omega, hdone⟩

/-- No call of a run panics. -/
theorem results_ne_panic (limit : ℕ) (calls : List Call) :
    ∀ r ∈ results limit calls, r ≠ .panic := by
  refine machine.outputs_of_invariant
    (P := fun p => ∃ received ys, Reached limit received ys p) ?_
    ⟨[], [], reached_withMaxLength limit⟩ calls
  rintro p c ⟨received, ys, hreached⟩
  obtain ⟨hsettled, hmax⟩ := hreached.step_settled c
  refine ⟨?_, _, _, hsettled.reached hmax⟩
  generalize (machine.step p c).1 = r at hsettled
  cases hsettled <;> simp

/-- Once the parser waits, its unread bytes are fewer than a header and the limit. -/
theorem length_window_of_waiting {calls : List Call}
    (h : (results limit calls).getLast? = some (.ok none)) :
    (stateAfter limit calls).window.length ≤ limit + 15 := by
  rcases Nat.eq_zero_or_pos (stateAfter limit calls).skipRemaining with hzero | hpos
  · exact (stuck_of_waiting (.inr h) hzero).length_le
  · rw [(run_reached limit calls).inv.window_eq_nil hpos]
    exact Nat.zero_le _

end Loop

/-- The parser never panics, keeps its positions within bounds and retains nothing of a
value it skips; once it waits, at most one header and one value within the limit are
unread; and its loop ends, consuming at least two bytes in every iteration that goes on. -/
theorem parser_bounded (limit : ℕ) (calls : List Call) :
    (∀ r ∈ results limit calls, r ≠ .panic) ∧
    (stateAfter limit calls).start ≤ (stateAfter limit calls).buf.length ∧
    (stateAfter limit calls).start < 1024 ∧
    (0 < (stateAfter limit calls).skipRemaining →
      (stateAfter limit calls).start = (stateAfter limit calls).buf.length) ∧
    ((results limit calls).getLast? = some (.ok none) →
      (stateAfter limit calls).window.length ≤ limit + 15 ∧
      (stateAfter limit calls).buf.length ≤ limit + 1038) ∧
    (∀ c : Call, ∃ n q,
      Iterates n
        { stateAfter limit calls with buf := (stateAfter limit calls).buf ++ c.bytes } q ∧
      q.tryParseBody = .done (machine.step (stateAfter limit calls) c).1
        (machine.step (stateAfter limit calls) c).2) ∧
    (∀ p q : CapsuleParser, p.tryParseBody = .again q →
      q.window.length + 2 ≤ p.window.length) := by
  have hinv := (run_reached limit calls).inv
  refine ⟨results_ne_panic limit calls, hinv.start_le, hinv.start_lt, hinv.skip_drained,
    fun hlast => ?_, fun c => ?_, fun _ _ => length_window_of_again⟩
  · have hlen := length_window_of_waiting hlast
    have hlt : (stateAfter limit calls).start < 1024 := hinv.start_lt
    have hsplit := (stateAfter limit calls).length_window
    exact ⟨hlen, by omega⟩
  · rw [machine_step]
    obtain ⟨n, q, hiter, _, hdone⟩ := tryParse_iterates
      { stateAfter limit calls with buf := (stateAfter limit calls).buf ++ c.bytes }
    exact ⟨n, q, hiter, hdone⟩

end Masque.CapsuleParser

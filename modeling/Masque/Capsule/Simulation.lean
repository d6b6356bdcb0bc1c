import Masque.Capsule.Parser
import Masque.Capsule.Reference

/-!
# The parser simulates the reference

The unread bytes of a parser and its skip counter determine where it stands in the stream:
what it has consumed is a run of whole capsules, or ends inside the value of a capsule of
another type with `skipRemaining` bytes of it still to come. `Iteration` says once what an
iteration of the loop can do; `tryParse_settled` carries the simulation through a call and
`run_reached` through every run.
-/

namespace Masque.CapsuleParser

open Outcome Capsule

variable {p q : CapsuleParser} {limit : ℕ}

section Representation

/-- What the loop keeps of the positions in the buffer. -/
structure Bounded (p : CapsuleParser) : Prop where
  start_le : p.start ≤ p.buf.length
  start_lt : p.start < compactThreshold

/-- The representation invariant between calls: a value being skipped is not retained. -/
structure Inv (p : CapsuleParser) : Prop extends Bounded p where
  skip_drained : 0 < p.skipRemaining → p.start = p.buf.length

theorem inv_withMaxLength (limit : ℕ) : (withMaxLength limit).Inv :=
  ⟨⟨le_rfl, Nat.zero_lt_succ _⟩, fun _ => rfl⟩

/-- Appending bytes keeps the bounds and adds to the unread bytes. -/
theorem Bounded.append (h : p.Bounded) (bytes : List UInt8) :
    Bounded { p with buf := p.buf ++ bytes } :=
  ⟨h.start_le.trans (by simp), h.start_lt⟩

theorem window_append (h : p.Bounded) (bytes : List UInt8) :
    window { p with buf := p.buf ++ bytes } = p.window ++ bytes :=
  List.drop_append_of_le_length h.start_le

theorem Inv.window_eq_nil (h : p.Inv) (hskip : 0 < p.skipRemaining) : p.window = [] := by
  rw [window, h.skip_drained hskip, List.drop_length]

/-- Inside its buffer a parser compacts without panicking. -/
theorem compact_of_le (h : p.start ≤ p.buf.length) :
    ∃ q, p.compact = .ok q ∧ SameView p q ∧ q.Bounded := by
  have hok : ∃ q, p.compact = .ok q := by
    unfold compact
    split_ifs with heq
    · exact ⟨_, rfl⟩
    · rw [sliceFrom_eq_ok h]
      exact ⟨_, rfl⟩
  obtain ⟨q, hq⟩ := hok
  obtain ⟨hview, hstart⟩ := compact_spec hq
  exact ⟨q, hq, hview, by rw [hstart]; exact Nat.zero_le _, by rw [hstart]; decide⟩

theorem maybeCompact_of_le (h : p.start ≤ p.buf.length) :
    ∃ q, p.maybeCompact = .ok q ∧ SameView p q ∧ q.Bounded := by
  unfold maybeCompact
  split_ifs with hle
  · exact compact_of_le h
  · exact ⟨p, rfl, SameView.rfl, h, by omega⟩

/-- A state inside its bounds with the given unread bytes and skip counter, and the limit
of `p`. -/
structure Leads (p : CapsuleParser) (w : List UInt8) (skip : ℕ) (q : CapsuleParser) :
    Prop where
  bounded : q.Bounded
  window_eq : q.window = w
  skip_eq : q.skipRemaining = skip
  max_eq : q.maxCapsuleLength = p.maxCapsuleLength

theorem leads_self (h : p.Bounded) : Leads p p.window p.skipRemaining p :=
  ⟨h, rfl, rfl, rfl⟩

/-- Consuming `n` unread bytes and compacting leads to the bytes behind them. -/
theorem consume_leads (h : p.Bounded) (skip : ℕ) {n : ℕ} (hn : n ≤ p.window.length) :
    ∃ q, maybeCompact { p with start := p.start + n, skipRemaining := skip } = .ok q ∧
      Leads p (p.window.drop n) skip q := by
  have hle := h.start_le
  rw [length_window] at hn
  obtain ⟨q, hq, hview, hbounded⟩ := maybeCompact_of_le
    (p := { p with start := p.start + n, skipRemaining := skip }) (by dsimp only; omega)
  refine ⟨q, hq, hbounded, ?_, hview.skip_eq, hview.max_eq⟩
  rw [hview.window_eq, window, window, List.drop_drop]

end Representation

section Iteration

/-- What parsing does with the unread bytes `w` at a capsule boundary. -/
inductive Parses (p : CapsuleParser) (w : List UInt8) : Flow → Prop
  /-- The header is not complete. -/
  | partialHeader {q : CapsuleParser} (hheader : Capsule.header.next w = none)
      (hq : Leads p w 0 q) : Parses p w (.done (.ok none) q)
  /-- A whole capsule of another type. -/
  | unknown {q : CapsuleParser} {t : CapsuleType} {l k : ℕ}
      (hheader : Capsule.header.next w = some ((t.value.toNat, l), k))
      (ht : t.isDatagram = false) (hle : k + l ≤ w.length)
      (hq : Leads p (w.drop (k + l)) 0 q) : Parses p w (.again q)
  /-- The front of a capsule of another type. -/
  | partialUnknown {q : CapsuleParser} {t : CapsuleType} {l k : ℕ}
      (hheader : Capsule.header.next w = some ((t.value.toNat, l), k))
      (ht : t.isDatagram = false) (hshort : w.length < k + l)
      (hq : Leads p [] (k + l - w.length) q) : Parses p w (.done (.ok none) q)
  /-- A DATAGRAM header that declares too much. -/
  | oversize {q : CapsuleParser} {t : CapsuleType} {l k : ℕ}
      (hheader : Capsule.header.next w = some ((t.value.toNat, l), k))
      (ht : t.isDatagram = true) (hlimit : p.maxCapsuleLength < l)
      (hq : Leads p w 0 q) : Parses p w (.done (.err tooLarge) q)
  /-- The front of a DATAGRAM capsule. -/
  | partialDatagram {q : CapsuleParser} {t : CapsuleType} {l k : ℕ}
      (hheader : Capsule.header.next w = some ((t.value.toNat, l), k))
      (ht : t.isDatagram = true) (hlimit : l ≤ p.maxCapsuleLength) (hshort : w.length < k + l)
      (hq : Leads p w 0 q) : Parses p w (.done (.ok none) q)
  /-- A whole DATAGRAM capsule. -/
  | datagram {q : CapsuleParser} {t : CapsuleType} {l k : ℕ}
      (hheader : Capsule.header.next w = some ((t.value.toNat, l), k))
      (ht : t.isDatagram = true) (hlimit : l ≤ p.maxCapsuleLength) (hle : k + l ≤ w.length)
      (hq : Leads p (w.drop (k + l)) 0 q) :
      Parses p w (.done (.ok (some ⟨t, (w.drop k).take l⟩)) q)

theorem Parses.of_max_eq {r : CapsuleParser} {w : List UInt8} {f : Flow}
    (hr : r.maxCapsuleLength = p.maxCapsuleLength) (h : Parses r w f) : Parses p w f := by
  have lift {v : List UInt8} {n : ℕ} {q : CapsuleParser} (hq : Leads r v n q) : Leads p v n q :=
    ⟨hq.bounded, hq.window_eq, hq.skip_eq, hq.max_eq.trans hr⟩
  cases h with
  | partialHeader hheader hq => exact .partialHeader hheader (lift hq)
  | unknown hheader ht hle hq => exact .unknown hheader ht hle (lift hq)
  | partialUnknown hheader ht hshort hq => exact .partialUnknown hheader ht hshort (lift hq)
  | oversize hheader ht hlimit hq => exact .oversize hheader ht (hr ▸ hlimit) (lift hq)
  | partialDatagram hheader ht hlimit hshort hq =>
    exact .partialDatagram hheader ht (hr ▸ hlimit) hshort (lift hq)
  | datagram hheader ht hlimit hle hq => exact .datagram hheader ht (hr ▸ hlimit) hle (lift hq)

/-- At a capsule boundary with unread bytes, a header decides what happens. -/
theorem takeCapsule_parses (h : p.Bounded) (hskip : p.skipRemaining = 0) {t : CapsuleType}
    {l k : ℕ} (hheader : Capsule.header.next p.window = some ((t.value.toNat, l), k)) :
    Parses p p.window (p.takeCapsule p.window ⟨t, l, k, k + l⟩) := by
  have hk := Capsule.header.next_le hheader
  have hself : Leads p p.window 0 p := hskip ▸ leads_self h
  have consume (n : ℕ) (hn : n ≤ p.window.length) := consume_leads h 0 hn
  unfold takeCapsule
  dsimp only
  rw [CapsuleType.isUnknown_eq_not]
  cases ht : t.isDatagram with
  | false =>
    rw [Bool.not_false, if_pos rfl]
    split_ifs with hstop
    -- The value is all there, or the part of it that is there is skipped now.
    · obtain ⟨q, hq, hleads⟩ := consume (k + l) hstop
      rw [← hskip] at hq
      simp only [hq, mutate]
      exact .unknown hheader ht hstop hleads
    · have hsum : k + (p.window.length - k) = p.window.length := by omega
      obtain ⟨q, hq, hleads⟩ :=
        consume_leads h (l - (p.window.length - k)) (le_refl p.window.length)
      rw [List.drop_length] at hleads
      simp only [hsum, hq, mutate]
      refine .partialUnknown hheader ht (by omega) ?_
      rwa [show l - (p.window.length - k) = k + l - p.window.length by omega] at hleads
  | true =>
    rw [Bool.not_true, if_neg Bool.false_ne_true]
    split_ifs with hmax hshort
    · exact .oversize hheader ht hmax hself
    · exact .partialDatagram hheader ht (by omega) hshort hself
    · have hvalue : (slice p.buf (p.start + k) (p.start + (k + l)) : Result _) =
          .ok ((p.window.drop k).take l) := by
        have hlen := p.length_window
        have hle := h.start_le
        rw [slice_eq_ok (by omega) (by omega), window, List.drop_drop, List.drop_take]
        congr 2
        omega
      have hvalid : (⟨t, (p.window.drop k).take l⟩ : Capsule).Valid :=
        lt_of_le_of_lt (List.length_take_le _ _) (Capsule.header_length_lt hheader)
      obtain ⟨q, hq, hleads⟩ := consume (k + l) (by omega)
      rw [← hskip] at hq
      simp only [hvalue, hq, mutate, Capsule.new_eq_ok.mpr ⟨rfl, hvalid⟩]
      exact .datagram hheader ht (by omega) (by omega) hleads

/-- Draining drops what is owed from the window, as far as it is there. -/
theorem drainSkipped_leads (h : p.Bounded) :
    ∃ q, p.drainSkipped = .ok q ∧
      Leads p (p.window.drop p.skipRemaining) (p.skipRemaining - p.window.length) q := by
  unfold drainSkipped
  split_ifs with hpos
  · dsimp only
    rw [← length_window]
    obtain ⟨q, hq, hleads⟩ := consume_leads h
      (p.skipRemaining - min p.window.length p.skipRemaining)
      (Nat.min_le_left p.window.length p.skipRemaining)
    refine ⟨q, hq, hleads.bounded, ?_, by rw [hleads.skip_eq]; omega, hleads.max_eq⟩
    rw [hleads.window_eq]
    rcases Nat.le_total p.window.length p.skipRemaining with hle | hle
    · rw [Nat.min_eq_left hle, List.drop_length, List.drop_eq_nil_of_le hle]
    · rw [Nat.min_eq_right hle]
  · have hzero : p.skipRemaining = 0 := by omega
    have hself := leads_self h
    rw [hzero] at hself ⊢
    exact ⟨p, rfl, by simpa using hself⟩

/-- One iteration, from any state within bounds: it discards what it can of a value being
skipped, and parses what is left if that was all of it. -/
theorem tryParseBody_cases (h : p.Bounded) :
    (p.window.length < p.skipRemaining ∧
      ∃ q, p.tryParseBody = .done (.ok none) q ∧
        Leads p [] (p.skipRemaining - p.window.length) q) ∨
    (p.skipRemaining ≤ p.window.length ∧
      Parses p (p.window.drop p.skipRemaining) p.tryParseBody) := by
  obtain ⟨r, hr, hleads⟩ := drainSkipped_leads h
  have hbody : p.tryParseBody = p.mutate (.ok r) _ := congrArg (p.mutate · _) hr
  simp only [mutate] at hbody
  rcases Nat.lt_or_ge p.window.length p.skipRemaining with hlt | hge
  · left
    rw [if_pos (by rw [hleads.skip_eq]; omega)] at hbody
    rw [List.drop_eq_nil_of_le hlt.le] at hleads
    exact ⟨hlt, r, hbody, hleads⟩
  · right
    have hskip : r.skipRemaining = 0 := by rw [hleads.skip_eq]; omega
    refine ⟨hge, ?_⟩
    rw [if_neg (by omega)] at hbody
    rw [hbody, ← hleads.window_eq]
    refine Parses.of_max_eq hleads.max_eq ?_
    split_ifs with hempty
    -- An empty window is compacted, which changes nothing in view.
    · obtain ⟨q, hq, hview, hq'⟩ := compact_of_le hleads.bounded.start_le
      rw [List.isEmpty_iff] at hempty
      simp only [hq]
      refine .partialHeader (by rw [hempty]; exact Framing.next_nil _) ?_
      exact ⟨hq', hview.window_eq, hview.skip_eq.trans hskip, hview.max_eq⟩
    · rcases Capsule.header_cases r.window with hheader | ⟨t, l, k, hheader⟩
      · rw [readHeader_of_eq_none hheader]
        exact .partialHeader hheader (hskip ▸ leads_self hleads.bounded)
      · rw [readHeader_of_eq_some hheader]
        exact takeCapsule_parses hleads.bounded hskip hheader

end Iteration

section Tracking

/-- `u` is the front of a capsule of another type of which `skip` bytes are to come, or
nothing. -/
inductive Owes : List UInt8 → ℕ → Prop
  | nothing : Owes [] 0
  | value {u : List UInt8} {t : CapsuleType} {l k skip : ℕ}
      (hheader : Capsule.header.next u = some ((t.value.toNat, l), k))
      (ht : t.isDatagram = false) (hskip : 0 < skip) (hlen : u.length + skip = k + l) :
      Owes u skip

/-- Reading the bytes received yields `ys` and goes on with the unread bytes `w`, behind the
front of a capsule of which `skip` bytes are to come. -/
def Tracks (limit : ℕ) (received : List UInt8) (ys : List Capsule) (w : List UInt8)
    (skip : ℕ) : Prop :=
  ∃ u, Owes u skip ∧ Resumes limit received ys (u ++ w)

variable {received u v w : List UInt8} {ys : List Capsule} {skip : ℕ}

theorem tracks_nil (limit : ℕ) : Tracks limit [] [] [] 0 := ⟨[], .nothing, .rfl⟩

theorem Tracks.append (h : Tracks limit received ys w skip) (bytes : List UInt8) :
    Tracks limit (received ++ bytes) ys (w ++ bytes) skip := by
  obtain ⟨u, howes, hresumes⟩ := h
  exact ⟨u, howes, List.append_assoc u w bytes ▸ hresumes.append bytes⟩

/-- Nothing is owed at a capsule boundary. -/
theorem Tracks.resumes (h : Tracks limit received ys w 0) : Resumes limit received ys w := by
  obtain ⟨u, howes, hresumes⟩ := h
  cases howes with
  | nothing => exact hresumes
  | value _ _ hskip _ => omega

theorem Tracks.of_resumes (h : Resumes limit received ys w) : Tracks limit received ys w 0 :=
  ⟨[], .nothing, h⟩

/-- Discarding part of a value leaves the rest of it owed. -/
theorem Tracks.skip_short (h : Tracks limit received ys w skip) (hshort : w.length < skip) :
    Tracks limit received ys [] (skip - w.length) := by
  obtain ⟨u, howes, hresumes⟩ := h
  cases howes with
  | nothing => omega
  | value hheader ht hskip hlen =>
    exact ⟨u ++ w, .value (Capsule.header.next_append w hheader) ht (by omega)
      (by rw [List.length_append]; omega), (List.append_nil (u ++ w)).symm ▸ hresumes⟩

/-- Discarding the rest of a value leads to a capsule boundary. -/
theorem Tracks.skip_complete (h : Tracks limit received ys w skip) (hle : skip ≤ w.length) :
    Tracks limit received ys (w.drop skip) 0 := by
  obtain ⟨u, howes, hresumes⟩ := h
  cases howes with
  | nothing => exact .of_resumes hresumes
  | value hheader ht hskip hlen =>
    have hunknown := reference_of_unknown limit
      (Capsule.header.next_append w hheader) ht (by rw [List.length_append]; omega)
    rw [← hlen, List.drop_append, List.drop_eq_nil_of_le (by omega), List.nil_append,
      Nat.add_sub_cancel_left] at hunknown
    refine .of_resumes ?_
    simpa using hresumes.trans hunknown

/-- The unread bytes are the front of a capsule that the parser waits for. -/
inductive Stuck (limit : ℕ) (w : List UInt8) : Prop
  | header (hheader : Capsule.header.next w = none)
  | datagram {t : CapsuleType} {l k : ℕ}
      (hheader : Capsule.header.next w = some ((t.value.toNat, l), k))
      (ht : t.isDatagram = true) (hlimit : l ≤ limit) (hshort : w.length < k + l)

/-- What a call leaves behind, in the light of all bytes received and the capsules yielded
before it. A capsule just yielded has nothing behind it if it was not there one byte
earlier. -/
inductive Settled (limit : ℕ) (received : List UInt8) (ys : List Capsule) :
    Result (Option Capsule) → CapsuleParser → Prop
  | waiting {q : CapsuleParser} (hinv : q.Inv)
      (htracks : Tracks limit received ys q.window q.skipRemaining)
      (hstuck : q.skipRemaining = 0 → Stuck limit q.window) : Settled limit received ys (.ok none) q
  | yields {q : CapsuleParser} {c : Capsule} (hinv : q.Inv) (hskip : q.skipRemaining = 0)
      (htracks : Tracks limit received (ys ++ [c]) q.window q.skipRemaining)
      (hend : q.window = [] ↔ (reference limit received.dropLast).length ≤ ys.length) :
      Settled limit received ys (.ok (some c)) q
  | refused {q : CapsuleParser} (hinv : q.Inv) (hskip : q.skipRemaining = 0)
      (htracks : Tracks limit received ys q.window q.skipRemaining)
      (hover : Oversize limit q.window) : Settled limit received ys (.err tooLarge) q

theorem Leads.inv (h : Leads p w skip q) (hdrained : 0 < skip → w = []) : q.Inv := by
  refine ⟨h.bounded, fun hskip => ?_⟩
  have hlen := q.length_window
  rw [h.window_eq, hdrained (h.skip_eq ▸ hskip)] at hlen
  exact Nat.le_antisymm h.bounded.start_le (Nat.sub_eq_zero_iff_le.mp hlen.symm)

theorem Leads.inv_zero (h : Leads p w 0 q) : q.Inv :=
  h.inv (fun hlt => absurd hlt (lt_irrefl 0))

theorem Leads.tracks (h : Leads p w skip q) (htracks : Tracks limit received ys w skip) :
    Tracks limit received ys q.window q.skipRemaining := by
  rwa [h.window_eq, h.skip_eq]

/-- A call keeps track of the stream. -/
theorem tryParse_settled (h : p.Bounded) (hmax : p.maxCapsuleLength = limit)
    (htracks : Tracks limit received ys p.window p.skipRemaining) :
    Settled limit received ys p.tryParse.1 p.tryParse.2 ∧
      p.tryParse.2.maxCapsuleLength = limit := by
  -- One case for each round of the loop: another round follows only a skipped capsule.
  induction p using tryParse.induct with
  | case1 p q hagain _ ih =>
    rw [tryParse_of_again hagain]
    rcases tryParseBody_cases h with ⟨_, _, hdone, _⟩ | ⟨hle, hparses⟩
    · simp [hagain] at hdone
    · rw [hagain] at hparses
      cases hparses with
      | unknown hheader ht hlen hq =>
        refine ih hq.bounded (hq.max_eq.trans hmax) (hq.tracks (.of_resumes ?_))
        simpa using (htracks.skip_complete hle).resumes.trans
          (reference_of_unknown limit hheader ht hlen)
  | case2 p r q hdone =>
    rw [tryParse_of_done hdone]
    rcases tryParseBody_cases h with ⟨hlt, q', hdone', hq⟩ | ⟨hle, hparses⟩
    · obtain ⟨rfl, rfl⟩ : r = .ok none ∧ q = q' := by simpa [hdone] using hdone'
      exact ⟨.waiting (hq.inv fun _ => rfl) (hq.tracks (htracks.skip_short hlt))
        (fun hskip => absurd (hq.skip_eq.symm.trans hskip) (by omega)), hq.max_eq.trans hmax⟩
    · have hrest := htracks.skip_complete hle
      rw [hdone] at hparses
      subst hmax
      cases hparses with
      | partialHeader hheader hq =>
        exact ⟨.waiting hq.inv_zero (hq.tracks hrest)
          (fun _ => hq.window_eq ▸ .header hheader), hq.max_eq⟩
      | partialUnknown hheader ht hshort hq =>
        have howed : Tracks p.maxCapsuleLength received ys [] _ :=
          ⟨_, .value hheader ht (by omega) (Nat.add_sub_cancel' hshort.le),
            (List.append_nil _).symm ▸ hrest.resumes⟩
        exact ⟨.waiting (hq.inv fun _ => rfl) (hq.tracks howed)
          (fun hskip => absurd (hq.skip_eq.symm.trans hskip) (by omega)), hq.max_eq⟩
      | oversize hheader ht hlimit hq =>
        refine ⟨.refused hq.inv_zero hq.skip_eq (hq.tracks hrest) ?_, hq.max_eq⟩
        rw [hq.window_eq, oversize_iff_of_header hheader]
        exact ⟨(CapsuleType.isDatagram_iff _).mp ht, hlimit⟩
      | partialDatagram hheader ht hlimit hshort hq =>
        exact ⟨.waiting hq.inv_zero (hq.tracks hrest)
          (fun _ => hq.window_eq ▸ .datagram hheader ht hlimit hshort), hq.max_eq⟩
      | datagram hheader ht hlimit hlen hq =>
        refine ⟨.yields hq.inv_zero hq.skip_eq (hq.tracks (.of_resumes ?_)) ?_, hq.max_eq⟩
        · exact hrest.resumes.trans (reference_of_datagram hheader ht hlimit hlen)
        · rw [hq.window_eq]
          exact hrest.resumes.drop_eq_nil_iff hheader ht hlimit hlen

end Tracking

end Masque.CapsuleParser

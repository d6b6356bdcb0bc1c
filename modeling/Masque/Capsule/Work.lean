import Masque.Capsule.ParserRuns

/-!
# The work of the streaming parser

How often the loop of `try_parse` runs, and how many bytes `compact` moves to the front of
the buffer. A compaction that moves bytes drops at least `COMPACT_THRESHOLD` consumed ones,
so the bytes received pay for all of them, at a price of the largest buffer (`parser_work`).
-/

namespace Masque.CapsuleParser

open Outcome

/-! ## What the steps cost -/

/-- The bytes that `compact` moves. -/
def compactMoves (p : CapsuleParser) : ℕ :=
  if p.start = p.buf.length then 0 else p.buf.length - p.start

def maybeCompactMoves (p : CapsuleParser) : ℕ :=
  if compactThreshold ≤ p.start then p.compactMoves else 0

def drainSkippedMoves (p : CapsuleParser) : ℕ :=
  if 0 < p.skipRemaining then
    let available := p.buf.length - p.start
    let discard := min available p.skipRemaining
    maybeCompactMoves { p with
      start := p.start + discard
      skipRemaining := p.skipRemaining - discard }
  else
    0

def takeCapsuleMoves (p : CapsuleParser) (window : List UInt8) (h : Header) : ℕ :=
  if h.capsuleType.isUnknown then
    if h.stop ≤ window.length then
      maybeCompactMoves { p with start := p.start + h.stop }
    else
      let availableValue := window.length - h.headerLen
      maybeCompactMoves { p with
        start := p.start + (h.headerLen + availableValue)
        skipRemaining := h.length - availableValue }
  else if p.maxCapsuleLength < h.length then
    0
  else if window.length < h.stop then
    0
  else
    maybeCompactMoves { p with start := p.start + h.stop }

/-- The bytes that one iteration of the loop moves. -/
def tryParseBodyMoves (p : CapsuleParser) : ℕ :=
  p.drainSkippedMoves +
    match p.drainSkipped with
    | .ok p =>
      if 0 < p.skipRemaining then
        0
      else if p.window.isEmpty then
        p.compactMoves
      else
        match readHeader p.window with
        | .ok (some h) => p.takeCapsuleMoves p.window h
        | _ => 0
    | _ => 0

/-- The work of a call. -/
structure Work where
  iterations : ℕ
  moved : ℕ

def tryParseWork (p : CapsuleParser) : Work :=
  match h : p.tryParseBody with
  | .again q =>
    have := length_window_of_again h
    let rest := tryParseWork q
    { iterations := rest.iterations + 1
      moved := p.tryParseBodyMoves + rest.moved }
  | .done _ _ =>
    { iterations := 1
      moved := p.tryParseBodyMoves }
termination_by p.window.length
decreasing_by omega

theorem tryParseWork_of_again {p q : CapsuleParser} (h : p.tryParseBody = .again q) :
    p.tryParseWork =
      ⟨q.tryParseWork.iterations + 1, p.tryParseBodyMoves + q.tryParseWork.moved⟩ := by
  rw [tryParseWork]
  split
  · next r hr =>
    obtain rfl : r = q := by simpa [h] using hr.symm
    rfl
  · next hr => simp [h] at hr

theorem tryParseWork_of_done {p q : CapsuleParser} {r : Result (Option Capsule)}
    (h : p.tryParseBody = .done r q) : p.tryParseWork = ⟨1, p.tryParseBodyMoves⟩ := by
  rw [tryParseWork]
  split
  · next hr => simp [h] at hr
  · rfl

/-- The work of a call on a parser. -/
def callWork (p : CapsuleParser) (c : Call) : Work :=
  tryParseWork { p with buf := p.buf ++ c.bytes }

/-- The iterations of all calls of a run. -/
def iterations (limit : ℕ) (calls : List Call) : ℕ :=
  machine.total (fun p c => (p.callWork c).iterations) (withMaxLength limit) calls

/-- The bytes that all calls of a run move. -/
def moved (limit : ℕ) (calls : List Call) : ℕ :=
  machine.total (fun p c => (p.callWork c).moved) (withMaxLength limit) calls

/-! ## What pays for it -/

section Pays

variable {backlog n m : ℕ} {p q r : CapsuleParser}

/-- Moving `n` bytes on the way from `p` to `q` is paid for by the bytes that the buffer
loses, when none is longer than `backlog`. -/
structure Pays (backlog : ℕ) (p q : CapsuleParser) (n : ℕ) : Prop where
  length_le : q.buf.length ≤ p.buf.length
  paid : p.buf.length ≤ backlog → compactThreshold * n + backlog * q.buf.length ≤
    backlog * p.buf.length

theorem Pays.rfl : Pays backlog p p 0 := ⟨le_rfl, fun _ => (Nat.zero_add _).le⟩

theorem Pays.trans (hpq : Pays backlog p q n) (hqr : Pays backlog q r m) :
    Pays backlog p r (n + m) := by
  refine ⟨hqr.length_le.trans hpq.length_le, fun hp => ?_⟩
  have hfirst := hpq.paid hp
  have hsecond := hqr.paid (hpq.length_le.trans hp)
  rw [Nat.mul_add]
  omega

/-- A step that reads the same buffer pays for the same moves. -/
theorem Pays.of_buf_eq (h : Pays backlog r q n) (hbuf : r.buf = p.buf) : Pays backlog p q n :=
  ⟨hbuf ▸ h.length_le, hbuf ▸ h.paid⟩

/-- Compacting pays when it drops enough or has nothing to move. -/
theorem compact_pays (hstart : compactThreshold ≤ p.start ∨ p.start = p.buf.length)
    (h : p.compact = .ok q) : Pays backlog p q p.compactMoves := by
  rw [compact] at h
  rw [compactMoves]
  split_ifs at h ⊢ with hall
  · cases h
    exact ⟨Nat.zero_le _, fun _ => by simp⟩
  · obtain ⟨rest, hrest, hq⟩ := bind_eq_ok.mp h
    cases hq
    unfold sliceFrom slice at hrest
    split_ifs at hrest with hbounds
    obtain rfl := ok.inj hrest
    have hrest : ((p.buf.take p.buf.length).drop p.start).length = p.buf.length - p.start := by
      rw [List.length_drop, List.length_take, Nat.min_self]
    refine ⟨hrest.le.trans (Nat.sub_le _ _), fun hp => ?_⟩
    have hmoved : p.buf.length - p.start ≤ backlog := (Nat.sub_le _ _).trans hp
    calc compactThreshold * (p.buf.length - p.start) + backlog * List.length _
        ≤ p.start * backlog + backlog * (p.buf.length - p.start) :=
          Nat.add_le_add (Nat.mul_le_mul (hstart.resolve_right hall) hmoved)
            (Nat.mul_le_mul_left _ hrest.le)
      _ = backlog * (p.start + (p.buf.length - p.start)) := by rw [Nat.mul_add, Nat.mul_comm]
      _ = backlog * p.buf.length := by rw [Nat.add_sub_cancel' hbounds.1]

theorem maybeCompact_pays (h : p.maybeCompact = .ok q) :
    Pays backlog p q p.maybeCompactMoves := by
  rw [maybeCompact] at h
  rw [maybeCompactMoves]
  split_ifs at h ⊢ with hthreshold
  · exact compact_pays (.inl hthreshold) h
  · cases h
    exact Pays.rfl

theorem drainSkipped_pays (h : p.drainSkipped = .ok q) :
    Pays backlog p q p.drainSkippedMoves := by
  rw [drainSkipped] at h
  rw [drainSkippedMoves]
  split_ifs at h ⊢ with hpos
  · exact (maybeCompact_pays h).of_buf_eq rfl
  · cases h
    exact Pays.rfl

/-- The state that an iteration leaves. -/
def Flow.state : Flow → CapsuleParser
  | .again p => p
  | .done _ p => p

/-- Consuming unread bytes and compacting pays, whatever the iteration does next. -/
theorem consume_pays (h : p.Bounded) {n : ℕ} (skip : ℕ) (hn : n ≤ p.window.length)
    {next : CapsuleParser → Flow} (hnext : ∀ q, (next q).state = q) :
    let r : CapsuleParser := { p with start := p.start + n, skipRemaining := skip }
    Pays backlog p (p.mutate r.maybeCompact next).state r.maybeCompactMoves := by
  intro r
  obtain ⟨q, hq, _⟩ := consume_leads h skip hn
  rw [hq, mutate, hnext]
  exact (maybeCompact_pays hq).of_buf_eq rfl

theorem takeCapsule_pays (h : p.Bounded) {hd : Header}
    (hheader : readHeader p.window = .ok (some hd)) :
    Pays backlog p (p.takeCapsule p.window hd).state (p.takeCapsuleMoves p.window hd) := by
  obtain ⟨hwire, hstop⟩ := header_of_readHeader hheader
  have hlen := Capsule.header.next_le hwire
  rw [takeCapsule, takeCapsuleMoves]
  split_ifs with hunknown hle hmax hshort
  · exact consume_pays h p.skipRemaining hle fun _ => rfl
  · exact consume_pays h _ (by omega) fun _ => rfl
  · exact Pays.rfl
  · exact Pays.rfl
  · have hwindow := p.length_window
    have hle := h.start_le
    rw [slice_eq_ok (by omega) (by omega)]
    exact consume_pays h p.skipRemaining (not_lt.mp hshort) fun _ => rfl

theorem tryParseBody_pays (h : p.Bounded) :
    Pays backlog p p.tryParseBody.state p.tryParseBodyMoves := by
  obtain ⟨q, hq, hleads⟩ := drainSkipped_leads h
  rw [tryParseBody, tryParseBodyMoves, hq, mutate]
  refine (drainSkipped_pays hq).trans ?_
  dsimp only
  split_ifs with hskip hempty
  · exact Pays.rfl
  · obtain ⟨r, hr, _⟩ := compact_of_le hleads.bounded.start_le
    have hstart : q.start = q.buf.length := by
      have hlen := q.length_window
      rw [List.isEmpty_iff.mp hempty, List.length_nil] at hlen
      have := hleads.bounded.start_le
      omega
    rw [hr, mutate]
    exact compact_pays (.inr hstart) hr
  · cases hheader : readHeader q.window with
    | ok header =>
      cases header with
      | none => exact Pays.rfl
      | some hd => exact takeCapsule_pays hleads.bounded hheader
    | err e => exact Pays.rfl
    | panic => exact Pays.rfl

/-- An iteration stays within the bounds and does not put bytes back. -/
theorem tryParseBody_state (h : p.Bounded) :
    p.tryParseBody.state.Bounded ∧ p.tryParseBody.state.window.length ≤ p.window.length := by
  have hleads {q : CapsuleParser} {w : List UInt8} {skip : ℕ} (hw : w.length ≤ p.window.length)
      (hq : Leads p w skip q) : q.Bounded ∧ q.window.length ≤ p.window.length :=
    ⟨hq.bounded, hq.window_eq ▸ hw⟩
  obtain ⟨_, q, hbody, hq⟩ | ⟨_, hparses⟩ := tryParseBody_cases h
  · rw [hbody]
    exact hleads (Nat.zero_le _) hq
  · have hdrop : (p.window.drop p.skipRemaining).length ≤ p.window.length :=
      (List.drop_sublist _ _).length_le
    have hrest (n : ℕ) : ((p.window.drop p.skipRemaining).drop n).length ≤ p.window.length :=
      (List.drop_sublist _ _).length_le.trans hdrop
    generalize p.tryParseBody = flow at hparses
    cases hparses with
    | partialHeader _ hq => exact hleads hdrop hq
    | unknown _ _ _ hq => exact hleads (hrest _) hq
    | partialUnknown _ _ _ hq => exact hleads (Nat.zero_le _) hq
    | oversize _ _ _ hq => exact hleads hdrop hq
    | partialDatagram _ _ _ _ hq => exact hleads hdrop hq
    | datagram _ _ _ _ hq => exact hleads (hrest _) hq

/-- The loop pays for the moves of all its iterations. -/
theorem tryParse_pays (h : p.Bounded) : Pays backlog p p.tryParse.2 p.tryParseWork.moved := by
  induction p using tryParse.induct with
  | case1 p q hagain _ ih =>
    have hbody : Pays backlog p p.tryParseBody.state p.tryParseBodyMoves := tryParseBody_pays h
    obtain ⟨hbounded, _⟩ := tryParseBody_state h
    rw [hagain] at hbody hbounded
    rw [tryParse_of_again hagain, tryParseWork_of_again hagain]
    exact hbody.trans (ih hbounded)
  | case2 p r q hdone =>
    have hbody : Pays backlog p p.tryParseBody.state p.tryParseBodyMoves := tryParseBody_pays h
    rw [hdone] at hbody
    rw [tryParse_of_done hdone, tryParseWork_of_done hdone]
    exact hbody

/-- Every iteration but the last consumes at least two bytes. -/
theorem iterations_tryParse (h : p.Bounded) :
    2 * p.tryParseWork.iterations + p.tryParse.2.window.length ≤ p.window.length + 2 := by
  induction p using tryParse.induct with
  | case1 p q hagain hlen ih =>
    obtain ⟨hbounded, _⟩ := tryParseBody_state h
    rw [hagain] at hbounded
    have hrest := ih hbounded
    rw [tryParse_of_again hagain, tryParseWork_of_again hagain]
    dsimp only
    omega
  | case2 p r q hdone =>
    obtain ⟨_, hlast⟩ := tryParseBody_state h
    rw [hdone] at hlast
    rw [tryParse_of_done hdone, tryParseWork_of_done hdone]
    dsimp only [Flow.state] at hlast ⊢
    omega

end Pays

/-! ## Runs -/

section Runs

variable {limit chunk backlog : ℕ} {calls : List Call}

/-- What a call starts with is within the bounds. -/
theorem bounded_append (limit : ℕ) (calls : List Call) (c : Call) :
    Bounded { stateAfter limit calls with buf := (stateAfter limit calls).buf ++ c.bytes } :=
  (run_reached limit calls).inv.toBounded.append c.bytes

/-- The loop runs once for each call and at most once more for every two bytes. -/
theorem iterations_le (limit : ℕ) (calls : List Call) :
    2 * iterations limit calls ≤ 2 * calls.length + (fed calls).length := by
  have hstep : ∀ front c rest, calls = front ++ c :: rest →
      2 * ((stateAfter limit front).callWork c).iterations +
        (machine.step (stateAfter limit front) c).2.window.length ≤
          (stateAfter limit front).window.length + (c.bytes.length + 2) := by
    intro front c rest _
    have hiterations := iterations_tryParse (bounded_append limit front c)
    rw [window_append (run_reached limit front).inv.toBounded, List.length_append] at hiterations
    rw [machine_step, callWork]
    omega
  have htotal := machine.total_le 2 (fun p c => (p.callWork c).iterations)
    (fun p => p.window.length) (fun c => c.bytes.length + 2) hstep
  rw [List.sum_map_add, ← length_fed, List.map_const', List.sum_replicate] at htotal
  have hstart : (withMaxLength limit).window.length = 0 := rfl
  rw [iterations]
  simp only [smul_eq_mul] at htotal
  omega

/-- The bytes received pay for all moves when no call starts with more than `backlog`. -/
theorem moved_le (h : ∀ front c rest, calls = front ++ c :: rest →
      (stateAfter limit front).buf.length + c.bytes.length ≤ backlog) :
    compactThreshold * moved limit calls ≤ backlog * (fed calls).length := by
  have hstep : ∀ front c rest, calls = front ++ c :: rest →
      compactThreshold * ((stateAfter limit front).callWork c).moved +
        backlog * (machine.step (stateAfter limit front) c).2.buf.length ≤
          backlog * (stateAfter limit front).buf.length + backlog * c.bytes.length := by
    intro front c rest hcalls
    have hpaid := (tryParse_pays (bounded_append limit front c)).paid
      ((List.length_append).trans_le (h front c rest hcalls))
    rw [List.length_append, Nat.mul_add] at hpaid
    rwa [machine_step]
  have htotal := machine.total_le compactThreshold (fun p c => (p.callWork c).moved)
    (fun p => backlog * p.buf.length) (fun c => backlog * c.bytes.length) hstep
  rw [List.sum_map_mul_left, ← length_fed] at htotal
  have hstart : (withMaxLength limit).buf.length = 0 := rfl
  rw [hstart, Nat.mul_zero, Nat.zero_add] at htotal
  exact (Nat.le_add_right _ _).trans htotal

/-- The caller waits for `Ok(None)` before it hands over the next bytes, at most `chunk` of
them at a time. -/
def Drains (limit chunk : ℕ) (calls : List Call) : Prop :=
  ∀ front c rest, calls = front ++ c :: rest → c = .nextCapsule ∨
    c.bytes.length ≤ chunk ∧ (front = [] ∨ (results limit front).getLast? = some (.ok none))

theorem drains_nil (limit chunk : ℕ) : Drains limit chunk [] := by
  intro front c rest h
  exact absurd h.symm (List.append_ne_nil_of_right_ne_nil front (List.cons_ne_nil c rest))

/-- The caller goes on with a call that hands over nothing, or with a chunk once it has seen
`Ok(None)`. -/
theorem Drains.concat (h : Drains limit chunk calls) {c : Call}
    (hc : c = .nextCapsule ∨ c.bytes.length ≤ chunk ∧
      (calls = [] ∨ (results limit calls).getLast? = some (.ok none))) :
    Drains limit chunk (calls ++ [c]) := by
  intro front c' rest heq
  obtain rfl | ⟨rest, last, rfl⟩ := List.eq_nil_or_concat rest
  · obtain ⟨rfl, hlast⟩ := List.append_inj' heq rfl
    obtain rfl := (List.cons.inj hlast).1
    exact hc
  · rw [List.concat_eq_append, ← List.cons_append, ← List.append_assoc] at heq
    exact h front c' rest (List.append_inj' heq rfl).1

/-- The answer `Ok(None)`. -/
def isWaiting : Result (Option Capsule) → Bool
  | .ok none => true
  | _ => false

theorem getLast?_of_isWaiting (h : (results limit calls).getLast?.map isWaiting = some true) :
    (results limit calls).getLast? = some (.ok none) := by
  obtain ⟨r, hr, hwaiting⟩ := Option.map_eq_some_iff.mp h
  rw [hr]
  cases r with
  | ok c =>
    cases c with
    | none => rfl
    | some c => cases hwaiting
  | err e => cases hwaiting
  | panic => cases hwaiting

/-- A parser that waits retains a header, a value within the limit and less than the
threshold. -/
theorem length_buf_of_waiting
    (h : calls = [] ∨ (results limit calls).getLast? = some (.ok none)) :
    (stateAfter limit calls).buf.length ≤ limit + 1038 := by
  obtain rfl | hlast := h
  · exact Nat.zero_le _
  · have hlen := length_window_of_waiting hlast
    have hlt : (stateAfter limit calls).start < 1024 := (run_reached limit calls).inv.start_lt
    have hsplit := (stateAfter limit calls).length_window
    omega

/-- The calls of such a caller start with little. -/
theorem length_buf_of_drains (h : Drains limit chunk calls) (front : List Call) :
    ∀ c rest, calls = front ++ c :: rest →
      (stateAfter limit front).buf.length + c.bytes.length ≤ limit + 1038 + chunk := by
  induction front using List.reverseRecOn with
  | nil =>
    intro c rest hcalls
    obtain rfl | ⟨hchunk, _⟩ := h [] c rest hcalls
    · exact Nat.zero_le _
    · exact (Nat.zero_add _).trans_le (hchunk.trans (Nat.le_add_left _ _))
  | append_singleton front last ih =>
    intro c rest hcalls
    obtain rfl | ⟨hchunk, hwaiting⟩ := h _ c rest hcalls
    · -- A call that hands over nothing starts with what the last one has left.
      have hlast := ih last (.nextCapsule :: rest) (by rw [hcalls, List.append_assoc]; rfl)
      have hpays := @tryParse_pays 0 _ (bounded_append limit front last)
      have hshrinks := hpays.length_le
      rw [List.length_append] at hshrinks
      rw [stateAfter_append_singleton, machine_step]
      exact hshrinks.trans hlast
    · have hlen := length_buf_of_waiting hwaiting
      omega

/-- The buffer holds bytes received. -/
theorem length_buf_le (limit : ℕ) (calls : List Call) :
    (stateAfter limit calls).buf.length ≤ (fed calls).length := by
  induction calls using List.reverseRecOn with
  | nil => exact Nat.zero_le _
  | append_singleton calls c ih =>
    have hpays := @tryParse_pays 0 _ (bounded_append limit calls c)
    have hshrinks := hpays.length_le
    rw [List.length_append] at hshrinks
    rw [stateAfter_append_singleton, machine_step, length_fed, List.map_append, List.sum_append,
      ← length_fed]
    exact hshrinks.trans (Nat.add_le_add_right ih _)

end Runs

/-! ## The worst stream -/

section Worst

variable {limit n m start : ℕ} {buf : List UInt8}

/-- `n` empty capsules of an unknown type. -/
def paddings (n : ℕ) : List UInt8 := (List.replicate n [0x29, 0x00]).flatten

theorem paddings_succ (n : ℕ) : paddings (n + 1) = 0x29 :: 0x00 :: paddings n := rfl

theorem length_paddings (n : ℕ) : (paddings n).length = 2 * n := by
  induction n with
  | zero => rfl
  | succ n ih => rw [paddings_succ, List.length_cons, List.length_cons, ih]; omega

theorem readHeader_paddings (n : ℕ) :
    ∃ t : CapsuleType, t.isUnknown = true ∧
      readHeader (paddings (n + 1)) = .ok (some ⟨t, 0, 2, 2⟩) := by
  have ht : (0x29 : UInt64) ≤ QuicVarint.maxVarint := by decide
  have hheader : Capsule.header.next (paddings (n + 1)) = some ((0x29, 0), 2) := by
    rw [paddings_succ]
    rfl
  exact ⟨⟨0x29, ht⟩, rfl, readHeader_of_eq_some hheader⟩

/-- A padding is skipped by an iteration of its own. -/
theorem tryParseBody_padding (hwindow : window ⟨buf, start, limit, 0⟩ = paddings (n + 1)) :
    tryParseBody ⟨buf, start, limit, 0⟩ =
      mutate ⟨buf, start, limit, 0⟩ (maybeCompact ⟨buf, start + 2, limit, 0⟩) .again ∧
    tryParseBodyMoves ⟨buf, start, limit, 0⟩ = maybeCompactMoves ⟨buf, start + 2, limit, 0⟩ := by
  obtain ⟨t, hunknown, hheader⟩ := readHeader_paddings n
  have hlen : 2 ≤ (paddings (n + 1)).length := by
    rw [length_paddings]
    omega
  have hdrain : drainSkipped ⟨buf, start, limit, 0⟩ = .ok ⟨buf, start, limit, 0⟩ := rfl
  have hmoves : drainSkippedMoves ⟨buf, start, limit, 0⟩ = 0 := rfl
  have hempty : (paddings (n + 1)).isEmpty = false := rfl
  rw [tryParseBody, tryParseBodyMoves, hdrain, hmoves, mutate, Nat.zero_add]
  dsimp only
  rw [if_neg (lt_irrefl 0), if_neg (lt_irrefl 0), hwindow, hempty, if_neg Bool.false_ne_true,
    if_neg Bool.false_ne_true, hheader]
  dsimp only
  rw [takeCapsule, takeCapsuleMoves, if_pos hunknown, if_pos hunknown, if_pos hlen, if_pos hlen]
  exact ⟨rfl, rfl⟩

theorem window_padding (hwindow : window ⟨buf, start, limit, 0⟩ = paddings (n + 1)) :
    buf.drop (start + 2) = paddings n := by
  have hdrop : buf.drop start = paddings (n + 1) := hwindow
  rw [← List.drop_drop, hdrop]
  rfl

/-- Below the threshold nothing is moved. -/
theorem moved_padding_of_lt (hwindow : window ⟨buf, start, limit, 0⟩ = paddings (n + 1))
    (hlt : start + 2 < compactThreshold) :
    (tryParseWork ⟨buf, start, limit, 0⟩).moved =
      (tryParseWork ⟨buf, start + 2, limit, 0⟩).moved := by
  obtain ⟨hbody, hmoves⟩ := tryParseBody_padding hwindow
  rw [maybeCompact, if_neg (Nat.not_le.mpr hlt)] at hbody
  rw [tryParseWork_of_again hbody, hmoves, maybeCompactMoves, if_neg (Nat.not_le.mpr hlt),
    Nat.zero_add]

/-- At the threshold all that is left is moved. -/
theorem moved_padding_of_eq (hwindow : window ⟨buf, start, limit, 0⟩ = paddings (n + 1))
    (heq : start + 2 = compactThreshold) :
    (tryParseWork ⟨buf, start, limit, 0⟩).moved =
      2 * n + (tryParseWork ⟨paddings n, 0, limit, 0⟩).moved := by
  obtain ⟨hbody, hmoves⟩ := tryParseBody_padding hwindow
  have hdrop := window_padding hwindow
  have hlen : buf.length - start = 2 * (n + 1) := by
    rw [← length_paddings, ← hwindow, length_window]
  have hcompact : maybeCompact ⟨buf, start + 2, limit, 0⟩ = .ok ⟨paddings n, 0, limit, 0⟩ := by
    rw [maybeCompact, if_pos heq.ge, compact]
    dsimp only
    split_ifs with hall
    · rw [hall, List.drop_length] at hdrop
      rw [hdrop]
    · rw [sliceFrom_eq_ok (by omega), hdrop]
      rfl
  have hleft : compactMoves ⟨buf, start + 2, limit, 0⟩ = 2 * n := by
    rw [compactMoves]
    dsimp only
    split_ifs <;> omega
  rw [hcompact] at hbody
  rw [tryParseWork_of_again hbody, hmoves, maybeCompactMoves, if_pos heq.ge, hleft]

/-- The paddings up to the threshold make everything behind them move once. -/
theorem moved_paddings_add (m : ℕ) : ∀ (buf : List UInt8) (start : ℕ),
    window ⟨buf, start, limit, 0⟩ = paddings (m + 1 + n) →
    start + 2 * (m + 1) = compactThreshold →
    (tryParseWork ⟨buf, start, limit, 0⟩).moved =
      2 * n + (tryParseWork ⟨paddings n, 0, limit, 0⟩).moved := by
  induction m with
  | zero =>
    intro buf start hwindow hstart
    rw [Nat.zero_add, Nat.add_comm] at hwindow
    exact moved_padding_of_eq hwindow hstart
  | succ m ih =>
    intro buf start hwindow hstart
    rw [Nat.add_right_comm (m + 1) 1 n] at hwindow
    rw [moved_padding_of_lt hwindow (by omega)]
    exact ih buf (start + 2) (window_padding hwindow) (by omega)

/-- In `k` times the threshold everything behind is moved `k` times. -/
theorem moved_paddings (limit k : ℕ) :
    (tryParseWork ⟨paddings (512 * k), 0, limit, 0⟩).moved = 512 * (k * (k - 1)) := by
  induction k with
  | zero =>
    have hdone : tryParseBody ⟨[], 0, limit, 0⟩ = .done (.ok none) ⟨[], 0, limit, 0⟩ := rfl
    show (tryParseWork ⟨[], 0, limit, 0⟩).moved = 0
    rw [tryParseWork_of_done hdone]
    rfl
  | succ k ih =>
    have hsum : 512 * (k + 1) = 511 + 1 + 512 * k := by omega
    rw [hsum, moved_paddings_add 511 (paddings (511 + 1 + 512 * k)) 0 rfl rfl, ih]
    cases k with
    | zero => rfl
    | succ k =>
      rw [Nat.add_sub_cancel, Nat.add_sub_cancel]
      ring

end Worst

/-- The work of a run is linear in the bytes received and the calls, at a rate that the limit
and the chunks decide, if the caller waits for `Ok(None)` before it hands over more. A caller
that does not wait pays at most with the square of what it has handed over, and one chunk of
empty unknown capsules costs almost half of that. -/
theorem parser_work (limit : ℕ) :
    (∀ calls, 2 * iterations limit calls ≤ 2 * calls.length + (fed calls).length) ∧
    (∀ chunk calls, Drains limit chunk calls →
      1024 * moved limit calls ≤ (limit + 1038 + chunk) * (fed calls).length) ∧
    (∀ calls, 1024 * moved limit calls ≤ (fed calls).length * (fed calls).length) ∧
    ∀ k, ∃ bytes : List UInt8, bytes.length = 1024 * k ∧
      2 * (1024 * moved limit [.feed bytes]) = bytes.length * (bytes.length - 1024) := by
  refine ⟨iterations_le limit, fun chunk calls h => moved_le (length_buf_of_drains h),
    fun calls => moved_le fun front c rest hcalls => ?_, fun k => ?_⟩
  · have hlen := length_buf_le limit front
    subst hcalls
    rw [length_fed, List.map_append, List.sum_append, ← length_fed, List.map_cons, List.sum_cons]
    omega
  · have hlen : (paddings (512 * k)).length = 1024 * k := by
      rw [length_paddings]
      omega
    refine ⟨paddings (512 * k), hlen, ?_⟩
    have hmoved : moved limit [.feed (paddings (512 * k))] = 512 * (k * (k - 1)) :=
      moved_paddings limit k
    have hrest : 1024 * k - 1024 = 1024 * (k - 1) := by omega
    rw [hlen, hmoved, hrest]
    ring

/-- A caller that reads an unknown capsule, a DATAGRAM capsule and the front of another one in
three chunks. -/
theorem parser_work_drains :
    ∃ calls, fed calls = [0x29, 0x02, 0x01, 0x02, 0x00, 0x01, 0x07, 0x00] ∧
      Drains 65536 4 calls ∧ 1024 * moved 65536 calls ≤ (65536 + 1038 + 4) * 8 := by
  have hfirst : Drains 65536 4 ([] ++ [.feed [0x29, 0x02, 0x01]]) :=
    (drains_nil 65536 4).concat (.inr ⟨by decide, .inl rfl⟩)
  have hsecond := hfirst.concat (c := .feed [0x02, 0x00, 0x01, 0x07])
    (.inr ⟨le_rfl, .inr (getLast?_of_isWaiting (by decide +kernel))⟩)
  have hpolled := hsecond.concat (.inl rfl)
  have hthird := hpolled.concat (c := .feed [0x00])
    (.inr ⟨by decide, .inr (getLast?_of_isWaiting (by decide +kernel))⟩)
  exact ⟨_, rfl, hthird, (parser_work 65536).2.1 4 _ hthird⟩

end Masque.CapsuleParser

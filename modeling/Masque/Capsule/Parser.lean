import Masque.Capsule
import Masque.Library.Mealy

/-!
# The streaming capsule parser

`CapsuleParser` of `capsule.rs`: its state, the loop of `try_parse` and the calls built on
it. One iteration of the loop is `tryParseBody`; `tryParse` repeats it and stops because
an iteration that continues has consumed at least two unread bytes.
-/

namespace Masque

open Outcome

/-- `DEFAULT_MAX_CAPSULE_LENGTH`. -/
def defaultMaxCapsuleLength : ℕ := 65536

/-- The state of the streaming parser. -/
structure CapsuleParser where
  buf : List UInt8
  /-- Number of consumed leading bytes in `buf`. -/
  start : ℕ
  maxCapsuleLength : ℕ
  /-- Remaining bytes of an unknown capsule value to discard. -/
  skipRemaining : ℕ
  deriving DecidableEq, Repr

namespace CapsuleParser

def withMaxLength (maxCapsuleLength : ℕ) : CapsuleParser :=
  { buf := [], start := 0, maxCapsuleLength, skipRemaining := 0 }

def new : CapsuleParser := withMaxLength defaultMaxCapsuleLength

/-- The unread bytes, `buf[start..]`. -/
def window (p : CapsuleParser) : List UInt8 := p.buf.drop p.start

/-- `compact`; draining more bytes than there are panics. -/
def compact (p : CapsuleParser) : Result CapsuleParser :=
  if p.start = p.buf.length then
    .ok { p with buf := [], start := 0 }
  else do
    let rest ← sliceFrom p.buf p.start
    return { p with buf := rest, start := 0 }

/-- `COMPACT_THRESHOLD`. -/
def compactThreshold : ℕ := 1024

def maybeCompact (p : CapsuleParser) : Result CapsuleParser :=
  if compactThreshold ≤ p.start then p.compact else .ok p

/-- `is_incomplete_varint`. -/
def isIncompleteVarint : Error → Bool
  | .invalidVarInt .bufferTooShort _ => true
  | .invalidVarInt .emptyBuffer _ => true
  | .invalidVarInt .offsetOutOfBounds _ => true
  | _ => false

/-- A parsed capsule header: the type, the declared length of the value, the length of the
header and the end of the capsule. -/
structure Header where
  capsuleType : CapsuleType
  length : ℕ
  headerLen : ℕ
  stop : ℕ

/-- The part of `try_parse` that reads a header, `none` when the window ends inside it. -/
def readHeader (window : List UInt8) : Result (Option Header) :=
  match QuicVarint.decode window with
  | .panic => .panic
  | .err e => if isIncompleteVarint e then .ok none else .err (Capsule.mapVarintErr e)
  | .ok (capsuleTypeValue, typeLen) => do
    let capsuleType ← CapsuleType.new capsuleTypeValue
    match QuicVarint.decodeAt window typeLen with
    | .panic => .panic
    | .err e => if isIncompleteVarint e then .ok none else .err (Capsule.mapVarintErr e)
    | .ok (length, lengthLen) => do
      let length ← ofOption
        (.h3Datagram .lengthTooLarge "capsule length exceeds platform usize")
        (Usize.ofU64 length)
      let headerLen := typeLen + lengthLen
      let stop ← ofOption (.h3Datagram .lengthOverflow "capsule length overflow")
        (Usize.checkedAdd headerLen length)
      return some { capsuleType, length, headerLen, stop }

/-- How one iteration of the loop ends: it goes on, or `try_parse` returns. -/
inductive Flow where
  | again (p : CapsuleParser)
  | done (r : Result (Option Capsule)) (p : CapsuleParser)

/-- The state after an iteration that has consumed a whole capsule. -/
def Flow.consumed : Flow → Option CapsuleParser
  | .again q => some q
  | .done (.ok (some _)) q => some q
  | .done _ _ => none

/-- Go on with the state a mutating step leaves; if it panics, so does `try_parse`. -/
def mutate (p : CapsuleParser) (step : Result CapsuleParser) (next : CapsuleParser → Flow) :
    Flow :=
  match step with
  | .ok q => next q
  | .err e => .done (.err e) p
  | .panic => .done .panic p

/-- The first block of the loop: discard what has arrived of a value being skipped. -/
def drainSkipped (p : CapsuleParser) : Result CapsuleParser :=
  if 0 < p.skipRemaining then
    let available := p.buf.length - p.start
    let discard := min available p.skipRemaining
    maybeCompact { p with
      start := p.start + discard
      skipRemaining := p.skipRemaining - discard }
  else
    .ok p

/-- The error of a DATAGRAM capsule that declares more than the limit. -/
def tooLarge : Error :=
  .h3Datagram .lengthTooLarge "capsule length exceeds maximum allowed"

/-- The error of a stream that ends inside a capsule. -/
def truncated : Error := .h3Datagram .truncated "capsule truncated at end of stream"

/-- The last part of the loop, which acts on a complete header. -/
def takeCapsule (p : CapsuleParser) (window : List UInt8) (h : Header) : Flow :=
  if h.capsuleType.isUnknown then
    if h.stop ≤ window.length then
      p.mutate (maybeCompact { p with start := p.start + h.stop }) .again
    else
      -- Only part of the value has arrived: discard it, and the rest as it comes.
      let availableValue := window.length - h.headerLen
      p.mutate (maybeCompact { p with
        start := p.start + (h.headerLen + availableValue)
        skipRemaining := h.length - availableValue }) (.done (.ok none))
  else if p.maxCapsuleLength < h.length then
    .done (.err tooLarge) p
  else if window.length < h.stop then
    .done (.ok none) p
  else
    match slice p.buf (p.start + h.headerLen) (p.start + h.stop) with
    | .ok value =>
      p.mutate (maybeCompact { p with start := p.start + h.stop })
        (.done (some <$> Capsule.new h.capsuleType value))
    | .err e => .done (.err e) p
    | .panic => .done .panic p

/-- One iteration of the loop of `try_parse`. -/
def tryParseBody (p : CapsuleParser) : Flow :=
  p.mutate p.drainSkipped fun p =>
    if 0 < p.skipRemaining then
      .done (.ok none) p
    else if p.window.isEmpty then
      p.mutate p.compact (.done (.ok none))
    else
      match readHeader p.window with
      | .ok none => .done (.ok none) p
      | .ok (some h) => p.takeCapsule p.window h
      | .err e => .done (.err e) p
      | .panic => .done .panic p

section Mutators

variable {p q : CapsuleParser}

/-- Two states with the same unread bytes, limit and skip counter. -/
structure SameView (p q : CapsuleParser) : Prop where
  window_eq : q.window = p.window
  skip_eq : q.skipRemaining = p.skipRemaining
  max_eq : q.maxCapsuleLength = p.maxCapsuleLength

theorem SameView.rfl : SameView p p := ⟨by rfl, by rfl, by rfl⟩

theorem length_window (p : CapsuleParser) : p.window.length = p.buf.length - p.start :=
  List.length_drop

/-- Compacting drops consumed bytes only. -/
theorem compact_spec (h : p.compact = .ok q) : SameView p q ∧ q.start = 0 := by
  unfold compact at h
  split_ifs at h with heq
  · cases h
    exact ⟨⟨by simp [window, heq], by rfl, by rfl⟩, by rfl⟩
  · obtain ⟨rest, hrest, hq⟩ := bind_eq_ok.mp h
    cases hq
    unfold sliceFrom slice at hrest
    split_ifs at hrest
    cases hrest
    exact ⟨⟨by simp [window], by rfl, by rfl⟩, by rfl⟩

theorem maybeCompact_spec (h : p.maybeCompact = .ok q) :
    SameView p q ∧ q.start < compactThreshold := by
  unfold maybeCompact at h
  split_ifs at h with hle
  · obtain ⟨hview, hstart⟩ := compact_spec h
    exact ⟨hview, by rw [hstart]; decide⟩
  · cases h
    exact ⟨SameView.rfl, by omega⟩

theorem drainSkipped_spec (h : p.drainSkipped = .ok q) :
    q.window = p.window.drop p.skipRemaining ∧
      q.skipRemaining = p.skipRemaining - p.window.length ∧
      q.maxCapsuleLength = p.maxCapsuleLength := by
  unfold drainSkipped at h
  split_ifs at h with hpos
  · obtain ⟨hview, _⟩ := maybeCompact_spec h
    refine ⟨?_, ?_, hview.max_eq⟩
    · rw [hview.window_eq, window, window, ← List.drop_drop]
      rcases Nat.le_total (p.buf.length - p.start) p.skipRemaining with hle | hle
      · rw [Nat.min_eq_left hle, List.drop_eq_nil_of_le (by simp),
          List.drop_eq_nil_of_le (by simpa using hle)]
      · rw [Nat.min_eq_right hle]
    · rw [hview.skip_eq, length_window]
      dsimp only
      omega
  · cases h
    have hzero : p.skipRemaining = 0 := by omega
    simp [hzero]

end Mutators

theorem mutate_consumed {p q : CapsuleParser} {step : Result CapsuleParser}
    {next : CapsuleParser → Flow} (h : (p.mutate step next).consumed = some q) :
    ∃ r, step = .ok r ∧ (next r).consumed = some q := by
  cases step with
  | ok r => exact ⟨r, rfl, h⟩
  | err e => cases h
  | panic => cases h

theorem done_consumed {r : Result (Option Capsule)} {p q : CapsuleParser}
    (h : (Flow.done r p).consumed = some q) : (∃ c, r = .ok (some c)) ∧ q = p := by
  match r, h with
  | .ok (some c), h => exact ⟨⟨c, rfl⟩, (Option.some.inj h).symm⟩

/-- An iteration that has consumed a capsule has moved past the end its header declares. -/
theorem tryParseBody_consumed {p q : CapsuleParser} (h : p.tryParseBody.consumed = some q) :
    ∃ r hd, p.drainSkipped = .ok r ∧ readHeader r.window = .ok (some hd) ∧
      hd.stop ≤ r.window.length ∧
      maybeCompact { r with start := r.start + hd.stop } = .ok q := by
  obtain ⟨r, hr, h⟩ := mutate_consumed h
  split_ifs at h with hskip hempty
  · cases h
  · obtain ⟨_, _, h⟩ := mutate_consumed h
    cases h
  · split at h
    · cases h
    · next hd hhd =>
      unfold takeCapsule at h
      split_ifs at h with hunknown hstop hmax hshort
      · obtain ⟨s, hs, h⟩ := mutate_consumed h
        cases h
        exact ⟨r, hd, hr, hhd, hstop, hs⟩
      · obtain ⟨_, _, h⟩ := mutate_consumed h
        cases h
      · cases h
      · cases h
      · split at h
        · obtain ⟨s, hs, h⟩ := mutate_consumed h
          obtain ⟨_, rfl⟩ := done_consumed h
          exact ⟨r, hd, hr, hhd, not_lt.mp hshort, hs⟩
        · cases h
        · cases h
    · cases h
    · cases h

section Header

theorem isIncompleteVarint_of {e : Error} (h : QuicVarint.IsIncomplete e) :
    isIncompleteVarint e = true := by
  obtain ⟨kind, message, rfl, hkind⟩ := h
  cases kind with
  | valueTooLarge => exact absurd rfl hkind
  | _ => rfl

/-- A window that ends inside its header is not an error. -/
theorem readHeader_of_eq_none {w : List UInt8} (h : Capsule.header.next w = none) :
    readHeader w = .ok none := by
  rcases Capsule.varints_of_header_eq_none h with ⟨e, he, hinc⟩ | ⟨t, a, e, ht, he, hinc⟩
  · simp only [readHeader, he, isIncompleteVarint_of hinc, if_true]
  · simp only [readHeader, ht, he, isIncompleteVarint_of hinc, if_true,
      CapsuleType.new_eq_ok_iff.mpr rfl, ok_bind]

/-- A complete header is read as it stands on the wire. -/
theorem readHeader_of_eq_some {w : List UInt8} {t : CapsuleType} {l k : ℕ}
    (h : Capsule.header.next w = some ((t.value.toNat, l), k)) :
    readHeader w = .ok (some ⟨t, l, k, k + l⟩) := by
  obtain ⟨a, b, length, htype, hlength, husize, rfl, hstop⟩ := Capsule.varints_of_header h
  simp only [readHeader, htype, CapsuleType.new_eq_ok_iff.mpr rfl, ok_bind, hlength, husize,
    ofOption_some, hstop, pure_eq]

/-- What `readHeader` returns is on the wire. -/
theorem header_of_readHeader {w : List UInt8} {hd : Header}
    (h : readHeader w = .ok (some hd)) :
    Capsule.header.next w = some ((hd.capsuleType.value.toNat, hd.length), hd.headerLen) ∧
      hd.stop = hd.headerLen + hd.length := by
  rcases Capsule.header_cases w with hn | ⟨t, l, k, hn⟩
  · simp [readHeader_of_eq_none hn] at h
  · rw [readHeader_of_eq_some hn, ok.injEq, Option.some.injEq] at h
    subst h
    exact ⟨hn, rfl⟩

end Header

/-- An iteration that consumes a capsule consumes at least two unread bytes. -/
theorem length_window_of_consumed {p q : CapsuleParser}
    (h : p.tryParseBody.consumed = some q) : q.window.length + 2 ≤ p.window.length := by
  obtain ⟨r, hd, hr, hhd, hstop, hq⟩ := tryParseBody_consumed h
  obtain ⟨hheader, hsum⟩ := header_of_readHeader hhd
  have htwo := Capsule.header_two_le hheader
  obtain ⟨hview, _⟩ := maybeCompact_spec hq
  obtain ⟨hwindow, _, _⟩ := drainSkipped_spec hr
  have hle : r.window.length ≤ p.window.length := by simp [hwindow]
  have hlen : q.window.length = r.window.length - hd.stop := by
    rw [hview.window_eq, length_window, length_window]
    dsimp only
    omega
  omega

theorem length_window_of_again {p q : CapsuleParser} (h : p.tryParseBody = .again q) :
    q.window.length + 2 ≤ p.window.length :=
  length_window_of_consumed (by rw [h]; rfl)

/-- The loop of `try_parse`: the result and the state after the call. -/
def tryParse (p : CapsuleParser) : Result (Option Capsule) × CapsuleParser :=
  match h : p.tryParseBody with
  | .again q =>
    have := length_window_of_again h
    tryParse q
  | .done r q => (r, q)
termination_by p.window.length
decreasing_by omega

theorem tryParse_of_again {p q : CapsuleParser} (h : p.tryParseBody = .again q) :
    p.tryParse = q.tryParse := by
  rw [tryParse]
  split
  · next r hr =>
    obtain rfl : r = q := by simpa [h] using hr.symm
    rfl
  · next hr => simp [h] at hr

theorem tryParse_of_done {p q : CapsuleParser} {r : Result (Option Capsule)}
    (h : p.tryParseBody = .done r q) : p.tryParse = (r, q) := by
  rw [tryParse]
  split
  · next hr => simp [h] at hr
  · next r' q' hr =>
    obtain ⟨rfl, rfl⟩ : r' = r ∧ q' = q := by simpa [h, eq_comm] using hr
    rfl

/-- A call that yields a capsule consumes at least two unread bytes. -/
theorem length_window_of_yield {p q : CapsuleParser} {c : Capsule}
    (h : p.tryParse = (.ok (some c), q)) : q.window.length + 2 ≤ p.window.length := by
  induction p using tryParse.induct with
  | case1 p r hagain hlen ih =>
    rw [tryParse_of_again hagain] at h
    have := ih h
    omega
  | case2 p r s hdone =>
    rw [tryParse_of_done hdone] at h
    obtain ⟨rfl, rfl⟩ := Prod.mk.inj h
    exact length_window_of_consumed (by rw [hdone]; rfl)

def feed (p : CapsuleParser) (bytes : List UInt8) : Result (Option Capsule) × CapsuleParser :=
  tryParse { p with buf := p.buf ++ bytes }

def nextCapsule (p : CapsuleParser) : Result (Option Capsule) × CapsuleParser :=
  p.tryParse

def finalize (p : CapsuleParser) : Result Unit :=
  if p.buf.length ≤ p.start ∧ p.skipRemaining = 0 then
    .ok ()
  else
    .err truncated

/-- The calls a client makes on a parser. -/
inductive Call where
  | feed (bytes : List UInt8)
  | nextCapsule
  deriving DecidableEq, Repr

/-- The bytes a call hands over. -/
def Call.bytes : Call → List UInt8
  | .feed bytes => bytes
  | .nextCapsule => []

/-- The parser as a machine that answers calls. -/
def machine : Mealy CapsuleParser Call (Result (Option Capsule)) where
  step p
    | .feed bytes => p.feed bytes
    | .nextCapsule => p.nextCapsule

/-- Both calls append what they hand over and parse. -/
theorem machine_step (p : CapsuleParser) (c : Call) :
    machine.step p c = tryParse { p with buf := p.buf ++ c.bytes } := by
  cases c with
  | feed bytes => rfl
  | nextCapsule =>
    change p.tryParse = tryParse { p with buf := p.buf ++ [] }
    rw [List.append_nil]

/-- All bytes handed over by a list of calls. -/
def fed (calls : List Call) : List UInt8 := calls.flatMap Call.bytes

/-- What the calls on a fresh parser return, and the state they leave. -/
def results (limit : ℕ) (calls : List Call) : List (Result (Option Capsule)) :=
  machine.outputs (withMaxLength limit) calls

def stateAfter (limit : ℕ) (calls : List Call) : CapsuleParser :=
  machine.after (withMaxLength limit) calls

/-- The capsules among the results of a run. -/
def yielded (rs : List (Result (Option Capsule))) : List Capsule :=
  rs.filterMap fun r => r.toOption.join

end CapsuleParser

end Masque

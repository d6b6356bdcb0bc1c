import Masque.Capsule.KnownCapsules

/-!
# An abstract stream reader

What the parser is for, without a buffer: `StreamReader` remembers the bytes received and
how many DATAGRAM capsules it has yielded, and answers from the reference. The parser
answers every list of calls as the reader does, and finalizes alike after it
(`parser_answers`), so nothing of how a stream was cut and drained can be seen in what it
answers later (`future_of_history`).
-/

namespace Masque

open Outcome Capsule CapsuleParser

/-- The bytes received, the number of DATAGRAM capsules yielded, and whether the stream may
end after the last call. -/
structure StreamReader where
  received : List UInt8
  yielded : ℕ
  mayEnd : Bool

namespace StreamReader

/-- A reader that has received nothing. -/
def fresh : StreamReader := ⟨[], 0, true⟩

/-- Every call is answered with the next DATAGRAM capsule, if there is one; else with the
error of an oversize header, or with nothing. The stream may end behind a capsule that was
not there one byte earlier, and where nothing is answered and nothing left over. -/
def machine (limit : ℕ) : Mealy StreamReader Call (Result (Option Capsule)) where
  step r c :=
    let received := r.received ++ c.bytes
    match (reference limit received)[r.yielded]? with
    | some capsule =>
      (.ok (some capsule), ⟨received, r.yielded + 1,
        decide ((reference limit received.dropLast).length ≤ r.yielded)⟩)
    | none =>
      if Oversize limit (Capsule.residue limit received) then
        (.err tooLarge, ⟨received, r.yielded, false⟩)
      else
        (.ok none, ⟨received, r.yielded, decide (Capsule.residue limit received = [])⟩)

def finalize (r : StreamReader) : Result Unit :=
  if r.mayEnd then .ok () else .err truncated

variable {limit : ℕ} {r r' : StreamReader} {p : CapsuleParser}

/-- The parser and the reader have received the same bytes and yielded as many capsules, and
end alike. -/
structure Related (limit : ℕ) (p : CapsuleParser) (r : StreamReader) : Prop where
  reached : ∃ ys, ys.length = r.yielded ∧ Reached limit r.received ys p
  finalize_eq : p.finalize = r.finalize

theorem finalize_eq_of_iff (hinv : p.Inv)
    (h : p.window = [] ∧ p.skipRemaining = 0 ↔ r.mayEnd = true) : p.finalize = r.finalize := by
  rw [← finalize_eq_ok_iff hinv] at h
  rw [finalize]
  split_ifs with hend
  · exact h.mpr hend
  · exact finalize_eq_err_iff.mpr fun hok => hend (h.mp hok)

/-- Related states answer a call alike and stay related. -/
theorem step_related (c : Call) (h : Related limit p r) :
    (CapsuleParser.machine.step p c).1 = ((machine limit).step r c).1 ∧
      Related limit (CapsuleParser.machine.step p c).2 ((machine limit).step r c).2 := by
  obtain ⟨ys, hcount, hreached⟩ := h.reached
  obtain ⟨hsettled, hmax⟩ := hreached.step_settled c
  have hnext := hsettled.reached hmax
  have hrefused := hsettled.eq_err_iff
  generalize CapsuleParser.machine.step p c = result at hsettled hnext hrefused
  obtain ⟨answer, q⟩ := result
  dsimp only at hsettled hnext hrefused
  simp only [machine]
  cases hsettled with
  | waiting hinv htracks hstuck =>
    obtain ⟨href, hover, hresidue⟩ := waiting_stop htracks hinv.window_eq_nil hstuck
    have hnone : (reference limit (r.received ++ c.bytes))[r.yielded]? = none := by
      rw [href, ← hcount, List.getElem?_length]
    rw [hnone]
    dsimp only
    rw [if_neg hover]
    refine ⟨rfl, ⟨ys, hcount, by simpa using hnext⟩, finalize_eq_of_iff hinv ?_⟩
    rw [decide_eq_true_iff]
    exact hresidue.symm
  | @yields _ capsule hinv hskip htracks hend =>
    obtain ⟨u, _, hresumes⟩ := htracks
    have hsome : (reference limit (r.received ++ c.bytes))[r.yielded]? = some capsule := by
      rw [hresumes.reference_eq, ← hcount, List.append_assoc,
        List.getElem?_append_right le_rfl, Nat.sub_self]
      rfl
    rw [hsome]
    refine ⟨rfl, ⟨ys ++ [capsule], by simp [hcount], by simpa using hnext⟩,
      finalize_eq_of_iff hinv ?_⟩
    rw [decide_eq_true_iff, and_iff_left hskip, hend, hcount]
  | refused hinv hskip htracks hover =>
    obtain ⟨href, hover'⟩ := hrefused.mp ⟨_, rfl⟩
    have hnone : (reference limit (r.received ++ c.bytes))[r.yielded]? = none := by
      rw [← href, ← hcount, List.getElem?_length]
    rw [hnone]
    dsimp only
    rw [if_pos hover']
    refine ⟨rfl, ⟨ys, hcount, by simpa using hnext⟩, finalize_eq_of_iff hinv ?_⟩
    -- The refused header is left, so the stream may not end.
    refine iff_of_false (fun h => ?_) Bool.false_ne_true
    rw [h.1] at hover
    exact not_oversize_of_eq_none (Framing.next_nil _) hover

theorem related_fresh (limit : ℕ) : Related limit (withMaxLength limit) fresh :=
  ⟨⟨[], rfl, reached_withMaxLength limit⟩, rfl⟩

theorem fed_append (calls more : List Call) : fed (calls ++ more) = fed calls ++ fed more :=
  List.flatMap_append

theorem fed_concat (calls : List Call) (c : Call) : fed (calls ++ [c]) = fed calls ++ c.bytes := by
  rw [fed_append, fed, fed, List.flatMap_singleton]

/-- After a list of calls the parser is related to the reader, and has answered alike. -/
theorem related_after (limit : ℕ) (calls : List Call) :
    results limit calls = (machine limit).outputs fresh calls ∧
      Related limit (stateAfter limit calls) ((machine limit).after fresh calls) :=
  CapsuleParser.machine.run_related (fun _ _ => step_related) (related_fresh limit) calls

/-- What the reader remembers is what it was handed, and what it has yielded. -/
theorem history_after (limit : ℕ) (calls : List Call) :
    ((machine limit).after fresh calls).received = fed calls ∧
      ((machine limit).after fresh calls).yielded =
        (CapsuleParser.yielded (results limit calls)).length := by
  rw [(related_after limit calls).1]
  refine (machine limit).run_history (motive := fun calls results r =>
    r.received = fed calls ∧ r.yielded = (CapsuleParser.yielded results).length) ⟨rfl, rfl⟩ ?_ calls
  intro calls results r c h
  obtain ⟨hreceived, hyielded⟩ := h
  rw [fed_concat, yielded_append, List.length_append, ← hreceived, ← hyielded]
  simp only [machine]
  cases (reference limit (r.received ++ c.bytes))[r.yielded]? with
  | some capsule => exact ⟨rfl, rfl⟩
  | none =>
    dsimp only
    split_ifs <;> exact ⟨rfl, rfl⟩

/-- Whether the stream might have ended plays no part in a call, nor in any later one. -/
theorem outputs_congr (limit : ℕ) (hreceived : r.received = r'.received)
    (hyielded : r.yielded = r'.yielded) (more : List Call) :
    (machine limit).outputs r more = (machine limit).outputs r' more ∧
      (more ≠ [] → (machine limit).after r more = (machine limit).after r' more) := by
  cases more with
  | nil => exact ⟨rfl, fun h => absurd rfl h⟩
  | cons c more =>
    have hstep : (machine limit).step r c = (machine limit).step r' c := by
      simp only [machine, hreceived, hyielded]
    rw [Mealy.outputs_cons, Mealy.outputs_cons, Mealy.after_cons, Mealy.after_cons, hstep]
    exact ⟨rfl, fun _ => rfl⟩

end StreamReader

namespace CapsuleParser

open StreamReader

/-- The parser is the abstract reader: it answers every list of calls alike, with the same
capsules, the same errors and nothing at the same places, and finalizes alike after each. -/
theorem parser_answers (limit : ℕ) (calls : List Call) :
    results limit calls = (StreamReader.machine limit).outputs StreamReader.fresh calls ∧
      (stateAfter limit calls).finalize =
        ((StreamReader.machine limit).after StreamReader.fresh calls).finalize := by
  obtain ⟨hanswers, hrelated⟩ := related_after limit calls
  exact ⟨hanswers, hrelated.finalize_eq⟩

/-- What has been received and how much of it has been yielded decides everything a parser
answers later: how the stream was cut into chunks and when it was drained cannot be seen. -/
theorem future_of_history (limit : ℕ) (calls calls' : List Call) (hfed : fed calls = fed calls')
    (hyielded : (yielded (results limit calls)).length = (yielded (results limit calls')).length)
    (more : List Call) :
    machine.outputs (stateAfter limit calls) more = machine.outputs (stateAfter limit calls') more ∧
      (more ≠ [] → (machine.after (stateAfter limit calls) more).finalize =
        (machine.after (stateAfter limit calls') more).finalize) := by
  obtain ⟨hreceived, hcount⟩ := history_after limit calls
  obtain ⟨hreceived', hcount'⟩ := history_after limit calls'
  obtain ⟨hanswers, hrelated⟩ :=
    machine.run_related (fun _ _ => step_related) (related_after limit calls).2 more
  obtain ⟨hanswers', hrelated'⟩ :=
    machine.run_related (fun _ _ => step_related) (related_after limit calls').2 more
  obtain ⟨hsame, hafter⟩ := outputs_congr limit (hreceived.trans (hfed.trans hreceived'.symm))
    (hcount.trans (hyielded.trans hcount'.symm)) more
  refine ⟨hanswers.trans (hsame.trans hanswers'.symm), fun hmore => ?_⟩
  rw [hrelated.finalize_eq, hrelated'.finalize_eq, hafter hmore]

/-- One capsule, whole or in three pieces, in front of an unknown and an empty one. -/
theorem future_of_history_pieces :
    machine.outputs (stateAfter 65536 [.feed [0x00, 0x02, 0x07, 0x08]])
        [.feed [0x29, 0x02, 0x01], .feed [0x02, 0x00, 0x00]] =
      machine.outputs (stateAfter 65536 [.feed [0x00], .feed [0x02, 0x07], .feed [0x08]])
        [.feed [0x29, 0x02, 0x01], .feed [0x02, 0x00, 0x00]] :=
  (future_of_history 65536 [.feed [0x00, 0x02, 0x07, 0x08]]
    [.feed [0x00], .feed [0x02, 0x07], .feed [0x08]] rfl (by decide +kernel) _).1

end CapsuleParser

end Masque

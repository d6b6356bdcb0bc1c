import Masque.Capsule.StreamReader

/-!
# Parsers with different limits

A parser with a smaller limit answers as one with a larger limit, call by call, until it
meets a DATAGRAM capsule that only the larger limit admits; from there on it refuses every
call (`results_of_limit_le`).
-/

namespace Masque

open Outcome Capsule CapsuleParser

variable {limit limit' : ℕ} {s : List UInt8}

/-! ## The stream under two limits -/

namespace Capsule

theorem Oversize.of_le (hlimit : limit ≤ limit') (h : Oversize limit' s) : Oversize limit s := by
  obtain ⟨l, k, hheader, hlt⟩ := h
  exact ⟨l, k, hheader, hlimit.trans_lt hlt⟩

theorem accepted_restricts (hlimit : limit ≤ limit') (s : List UInt8) (p : Capsule × ℕ)
    (h : (accepted limit).next s = some p) : (accepted limit').next s = some p := by
  change (if Oversize limit s then none else (decode s).toOption) = some p at h
  show (if Oversize limit' s then none else (decode s).toOption) = some p
  split_ifs at h with hover
  rw [if_neg fun h' => hover (h'.of_le hlimit), h]

/-- Under the smaller limit a beginning of the capsules is read. -/
theorem reference_of_limit_le (hlimit : limit ≤ limit') (s : List UInt8) :
    reference limit' s = reference limit s ++ reference limit' (residue limit s) := by
  rw [reference, Framing.frames_of_restricts (accepted_restricts hlimit), List.filter_append]
  rfl

/-- Where the smaller limit does not refuse, both stop at the same place. -/
theorem same_of_not_oversize (hlimit : limit ≤ limit')
    (hover : ¬Oversize limit (residue limit s)) :
    reference limit' s = reference limit s ∧ residue limit' s = residue limit s := by
  have hstop : (accepted limit').next (residue limit s) = none := by
    have hnone := (accepted limit).next_residue s
    change (if Oversize limit (residue limit s) then none
      else (decode (residue limit s)).toOption) = none at hnone
    rw [if_neg hover] at hnone
    change (if Oversize limit' (residue limit s) then none
      else (decode (residue limit s)).toOption) = none
    rw [hnone, ite_self]
  obtain ⟨hnil, hself⟩ := reference_of_none hstop
  refine ⟨by rw [reference_of_limit_le hlimit, hnil, List.append_nil], ?_⟩
  exact (Framing.residue_of_restricts (accepted_restricts hlimit) s).trans hself

/-- A capsule that the smaller limit admits is there one byte earlier under both limits, or
under neither. -/
theorem length_dropLast_le_iff (hlimit : limit ≤ limit') {n : ℕ} {c : Capsule}
    (h : (reference limit s)[n]? = some c) :
    (reference limit s.dropLast).length ≤ n ↔ (reference limit' s.dropLast).length ≤ n := by
  by_cases hover : Oversize limit (residue limit s.dropLast)
  · obtain rfl | ⟨front, b, rfl⟩ := List.eq_nil_or_concat s
    · rw [reference_nil] at h
      cases h
    · -- Behind an oversize header nothing more is read, so the capsule was there before.
      rw [List.concat_eq_append] at h hover ⊢
      rw [List.dropLast_concat] at hover ⊢
      rw [(oversize_append hover [b]).1] at h
      have hlt := (List.getElem?_eq_some_iff.mp h).1
      refine iff_of_false (Nat.not_le.mpr hlt) (Nat.not_le.mpr ?_)
      rw [reference_of_limit_le hlimit, List.length_append]
      omega
  · rw [(same_of_not_oversize hlimit hover).1]

end Capsule

/-! ## Two readers -/

namespace StreamReader

variable {r : StreamReader}

/-- The bytes received behind an oversize header are not read. -/
theorem step_of_oversize {c : Call}
    (hover : Oversize limit (Capsule.residue limit (r.received ++ c.bytes)))
    (hnone : (reference limit (r.received ++ c.bytes))[r.yielded]? = none) :
    (machine limit).step r c = (.err tooLarge, ⟨r.received ++ c.bytes, r.yielded, false⟩) := by
  simp only [machine, hnone, if_pos hover]

/-- A reader in front of an oversize header refuses every call. -/
theorem outputs_of_oversize (hover : Oversize limit (Capsule.residue limit r.received))
    (hnone : (reference limit r.received)[r.yielded]? = none) (calls : List Call) :
    (machine limit).outputs r calls = List.replicate calls.length (.err tooLarge) := by
  induction calls generalizing r with
  | nil => rfl
  | cons c calls ih =>
    obtain ⟨href, _, hover'⟩ := oversize_append hover c.bytes
    have hnone' : (reference limit (r.received ++ c.bytes))[r.yielded]? = none := href ▸ hnone
    rw [Mealy.outputs_cons, step_of_oversize hover' hnone', List.length_cons,
      List.replicate_succ]
    exact congrArg _ (@ih ⟨r.received ++ c.bytes, r.yielded, false⟩ hover' hnone')

/-- From `r` the reader with the limit `limit` answers as the one with `limit'` until it
refuses; if it does not refuse, both are left in one state. -/
def AgreesUntilRefused (limit limit' : ℕ) (r : StreamReader) (calls : List Call) : Prop :=
  ∃ n ≤ calls.length, (machine limit).outputs r calls =
    ((machine limit').outputs r calls).take n ++
      List.replicate (calls.length - n) (.err tooLarge) ∧
    (n = calls.length → (machine limit).after r calls = (machine limit').after r calls)

namespace AgreesUntilRefused

variable {c : Call} {calls : List Call}

theorem nil : AgreesUntilRefused limit limit' r [] := ⟨0, le_rfl, rfl, fun _ => rfl⟩

/-- A call that both answer alike. -/
theorem cons (hstep : (machine limit).step r c = (machine limit').step r c)
    (h : AgreesUntilRefused limit limit' ((machine limit').step r c).2 calls) :
    AgreesUntilRefused limit limit' r (c :: calls) := by
  obtain ⟨n, hn, hrest, hafter⟩ := h
  refine ⟨n + 1, Nat.succ_le_succ hn, ?_, fun hall => ?_⟩
  · rw [Mealy.outputs_cons, Mealy.outputs_cons, hstep, hrest, List.take_succ_cons,
      List.length_cons, Nat.add_sub_add_right, List.cons_append]
  · rw [Mealy.after_cons, Mealy.after_cons, hstep]
    exact hafter (Nat.succ.inj hall)

/-- A call that is refused, and all behind it. -/
theorem refused (hover : Oversize limit (Capsule.residue limit (r.received ++ c.bytes)))
    (hnone : (reference limit (r.received ++ c.bytes))[r.yielded]? = none) :
    AgreesUntilRefused limit limit' r (c :: calls) := by
  refine ⟨0, Nat.zero_le _, ?_, fun hnil => by cases hnil⟩
  rw [Mealy.outputs_cons, step_of_oversize hover hnone, List.take_zero, List.nil_append,
    List.length_cons, Nat.sub_zero, List.replicate_succ]
  exact congrArg _
    (@outputs_of_oversize _ ⟨r.received ++ c.bytes, r.yielded, false⟩ hover hnone calls)

end AgreesUntilRefused

/-- Two readers in one state agree until the one with the smaller limit refuses. -/
theorem agreesUntilRefused (hlimit : limit ≤ limit') (r : StreamReader) (calls : List Call) :
    AgreesUntilRefused limit limit' r calls := by
  induction calls generalizing r with
  | nil => exact .nil
  | cons c calls ih =>
    cases hnext : (reference limit (r.received ++ c.bytes))[r.yielded]? with
    | some capsule =>
      -- What the smaller limit yields is at the same place for the larger one.
      have hnext' : (reference limit' (r.received ++ c.bytes))[r.yielded]? = some capsule := by
        rw [reference_of_limit_le hlimit]
        exact List.getElem?_append_left (List.getElem?_eq_some_iff.mp hnext).1 ▸ hnext
      refine .cons ?_ (ih _)
      simp only [machine, hnext, hnext', length_dropLast_le_iff hlimit hnext]
    | none =>
      by_cases hover : Oversize limit (Capsule.residue limit (r.received ++ c.bytes))
      · exact .refused hover hnext
      · obtain ⟨href, hresidue⟩ := same_of_not_oversize hlimit hover
        have hover' : ¬Oversize limit' (Capsule.residue limit (r.received ++ c.bytes)) :=
          fun h => hover (h.of_le hlimit)
        refine .cons ?_ (ih _)
        simp only [machine, hnext, href ▸ hnext, hresidue, if_neg hover, if_neg hover']

end StreamReader

namespace CapsuleParser

open StreamReader

/-- Lowering the limit changes nothing but refusals: the parser with the smaller limit
answers every call as the one with the larger limit until it refuses, and then refuses for
ever; and if it never refuses, both may end alike. -/
theorem results_of_limit_le (limit limit' : ℕ) (hlimit : limit ≤ limit') (calls : List Call) :
    (∃ n ≤ calls.length, results limit calls =
      (results limit' calls).take n ++ List.replicate (calls.length - n) (.err tooLarge)) ∧
    ((∀ r ∈ results limit calls, r ≠ .err tooLarge) → results limit calls = results limit' calls ∧
      (stateAfter limit calls).finalize = (stateAfter limit' calls).finalize) := by
  obtain ⟨hanswers, hrelated⟩ := related_after limit calls
  obtain ⟨hanswers', hrelated'⟩ := related_after limit' calls
  obtain ⟨n, hn, hresults, hafter⟩ := agreesUntilRefused hlimit fresh calls
  rw [← hanswers, ← hanswers'] at hresults
  refine ⟨⟨n, hn, hresults⟩, fun hnever => ?_⟩
  have hall : n = calls.length := by
    by_contra hne
    refine hnever (.err tooLarge) ?_ rfl
    rw [hresults]
    exact List.mem_append_right _ (List.mem_replicate.mpr ⟨by omega, rfl⟩)
  refine ⟨?_, by rw [hrelated.finalize_eq, hrelated'.finalize_eq, hafter hall]⟩
  have hlength : (results limit' calls).length = calls.length := machine.length_outputs _ _
  rw [hresults, hall, Nat.sub_self, List.replicate_zero, List.append_nil, ← hlength,
    List.take_length]

/-- A value of two bytes is within the default limit, but not within a limit of one. -/
theorem results_of_limit_le_one :
    ∃ n ≤ 2, results 1 [.feed [0x00, 0x01, 0x07], .feed [0x00, 0x02, 0x08, 0x09]] =
      (results 65536 [.feed [0x00, 0x01, 0x07], .feed [0x00, 0x02, 0x08, 0x09]]).take n ++
        List.replicate (2 - n) (.err tooLarge) :=
  (results_of_limit_le 1 65536 (by decide)
    [.feed [0x00, 0x01, 0x07], .feed [0x00, 0x02, 0x08, 0x09]]).1

end CapsuleParser

end Masque

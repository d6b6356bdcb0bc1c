import Masque.Capsule.StreamReader
import Masque.Library.Blank

/-!
# The parser does not look into values

What the parser answers, apart from the values it hands over, is decided by the headers of
the stream: two streams that differ only inside capsule values are skipped, yielded and
refused at the same calls, with the same errors, and may end after the same calls
(`results_blind`).
-/

namespace Masque

open Outcome

namespace Capsule

/-- The stream with every byte of every capsule value set to zero. -/
def blankValues (s : List UInt8) : List UInt8 := header.blank Prod.snd 0 s

/-- What is seen of a capsule without its value. -/
def outline (c : Capsule) : CapsuleType × ℕ := (c.capsuleType, c.value.length)

variable {limit : ℕ} {s : List UInt8}

@[simp] theorem length_blankValues (s : List UInt8) : (blankValues s).length = s.length :=
  Framing.length_blank s

theorem header_blankValues (s : List UInt8) : header.next (blankValues s) = header.next s :=
  Framing.next_blank header_local s

theorem blankValues_take (s : List UInt8) (n : ℕ) :
    blankValues (s.take n) = (blankValues s).take n :=
  Framing.blank_take header_local s n

theorem drop_blankValues {x : ℕ × ℕ} {k : ℕ} (h : header.next s = some (x, k)) :
    (blankValues s).drop (k + x.2) = blankValues (s.drop (k + x.2)) :=
  Framing.drop_blank h

theorem oversize_blankValues : Oversize limit (blankValues s) ↔ Oversize limit s := by
  unfold Oversize
  rw [header_blankValues]

/-- Blanking takes nothing from the reference but the value. -/
theorem accepted_blankValues {c : Capsule} {n : ℕ} (h : (accepted limit).next s = some (c, n)) :
    ∃ c', (accepted limit).next (blankValues s) = some (c', n) ∧ outline c' = outline c ∧
      (blankValues s).drop n = blankValues (s.drop n) := by
  obtain hheader | ⟨t, l, k, hheader⟩ := header_cases s
  · rw [accepted_of_eq_none hheader] at h
    cases h
  · have hblank := hheader
    rw [← header_blankValues] at hblank
    simp only [accepted, decode_of_header hheader, decode_of_header hblank, oversize_blankValues,
      length_blankValues] at h ⊢
    split_ifs at h ⊢ with hover hshort
    · cases h
    · obtain ⟨rfl, rfl⟩ := Prod.mk.inj (Option.some.inj h)
      exact ⟨_, rfl, by simp [outline], drop_blankValues hheader⟩

theorem accepted_blankValues_eq_none :
    (accepted limit).next (blankValues s) = none ↔ (accepted limit).next s = none := by
  obtain hheader | ⟨t, l, k, hheader⟩ := header_cases s
  · have hblank := hheader
    rw [← header_blankValues] at hblank
    exact iff_of_true (accepted_of_eq_none hblank) (accepted_of_eq_none hheader)
  · have hblank := hheader
    rw [← header_blankValues] at hblank
    simp only [accepted, decode_of_header hheader, decode_of_header hblank, oversize_blankValues,
      length_blankValues]
    split_ifs <;> simp

/-- The frames of a blanked stream are those of the stream, but for their values, and they
leave the blanked rest behind. -/
theorem frames_blankValues (s : List UInt8) :
    ((accepted limit).frames (blankValues s)).map outline =
        ((accepted limit).frames s).map outline ∧
      residue limit (blankValues s) = blankValues (residue limit s) := by
  induction s using (accepted limit).stream_induction with
  | stop s h =>
    have hblank := accepted_blankValues_eq_none.mpr h
    obtain ⟨_, hres⟩ := reference_of_none h
    obtain ⟨_, hres'⟩ := reference_of_none hblank
    rw [Framing.frames_of_none _ h, Framing.frames_of_none _ hblank, hres, hres']
    exact ⟨rfl, rfl⟩
  | frame s c n h ih =>
    obtain ⟨c', hblank, houtline, hdrop⟩ := accepted_blankValues h
    rw [← hdrop] at ih
    rw [Framing.frames_of_next _ h, Framing.frames_of_next _ hblank, List.map_cons,
      List.map_cons, houtline, ih.1]
    refine ⟨rfl, ?_⟩
    rw [residue, residue, Framing.residue_of_next _ h, Framing.residue_of_next _ hblank]
    exact ih.2

theorem reference_blankValues (s : List UInt8) :
    (reference limit (blankValues s)).map outline = (reference limit s).map outline := by
  have hfilter (cs : List Capsule) : (cs.filter (·.capsuleType.isDatagram)).map outline =
      (cs.map outline).filter (·.1.isDatagram) := by
    rw [List.filter_map]
    rfl
  rw [reference, reference, hfilter, hfilter, (frames_blankValues s).1]

theorem length_reference_of_blankValues (limit : ℕ) {s' : List UInt8}
    (h : blankValues s = blankValues s') :
    (reference limit s).length = (reference limit s').length := by
  have href := congrArg (fun s => ((reference limit s).map outline).length) h
  simpa only [reference_blankValues, List.length_map] using href

/-- Streams that differ in values only still do so without their last bytes. -/
theorem blankValues_dropLast {s' : List UInt8} (h : blankValues s = blankValues s') :
    blankValues s.dropLast = blankValues s'.dropLast := by
  have hlen := congrArg List.length h
  rw [length_blankValues, length_blankValues] at hlen
  rw [List.dropLast_eq_take, List.dropLast_eq_take, blankValues_take, blankValues_take, h, hlen]

theorem residue_blankValues (s : List UInt8) :
    residue limit (blankValues s) = blankValues (residue limit s) :=
  (frames_blankValues s).2

theorem blankValues_eq_nil : blankValues s = [] ↔ s = [] := by
  rw [← List.length_eq_zero_iff, length_blankValues, List.length_eq_zero_iff]

/-- What is left over, and whether it is refused, is decided by the headers. -/
theorem residue_of_blankValues (limit : ℕ) {s' : List UInt8} (h : blankValues s = blankValues s') :
    (Oversize limit (residue limit s) ↔ Oversize limit (residue limit s')) ∧
      (residue limit s = [] ↔ residue limit s' = []) := by
  have hres := congrArg (residue limit) h
  rw [residue_blankValues, residue_blankValues] at hres
  rw [← oversize_blankValues, ← blankValues_eq_nil, hres, oversize_blankValues,
    blankValues_eq_nil]
  exact ⟨Iff.rfl, Iff.rfl⟩

end Capsule

namespace CapsuleParser

/-- How many bytes a call hands over, if it is a `feed`. -/
def Call.size : Call → Option ℕ
  | .feed bytes => some bytes.length
  | .nextCapsule => none

/-- What is seen of an answer without the value of the capsule. -/
def outlines (r : Result (Option Capsule)) : Result (Option (CapsuleType × ℕ)) :=
  Option.map Capsule.outline <$> r

theorem length_bytes (c : Call) : c.bytes.length = c.size.getD 0 := by
  cases c <;> rfl

theorem length_fed_of_size_eq {calls calls' : List Call}
    (h : calls.map Call.size = calls'.map Call.size) :
    (fed calls).length = (fed calls').length := by
  have hsum (cs : List Call) :
      (fed cs).length = ((cs.map Call.size).map (fun n => n.getD 0)).sum := by
    rw [length_fed, List.map_map]
    exact congrArg List.sum (List.map_congr_left fun c _ => length_bytes c)
  rw [hsum, hsum, h]

end CapsuleParser

namespace StreamReader

open Capsule CapsuleParser

variable {limit : ℕ}

/-- Two readers that differ in nothing but the bytes received. -/
structure Alike (r r' : StreamReader) : Prop where
  yielded : r.yielded = r'.yielded
  mayEnd : r.mayEnd = r'.mayEnd

/-- One call on streams that differ in values only. -/
theorem step_blind (limit : ℕ) {r r' : StreamReader} {c c' : Call}
    (hyielded : r.yielded = r'.yielded)
    (hblank : blankValues (r.received ++ c.bytes) = blankValues (r'.received ++ c'.bytes)) :
    outlines ((machine limit).step r c).1 = outlines ((machine limit).step r' c').1 ∧
      Alike ((machine limit).step r c).2 ((machine limit).step r' c').2 := by
  obtain ⟨hover, hresidue⟩ := residue_of_blankValues limit hblank
  have hearlier := length_reference_of_blankValues limit (blankValues_dropLast hblank)
  have href := congrArg (fun s => (reference limit s).map outline) hblank
  simp only [reference_blankValues] at href
  have hnext := congrArg (·[r.yielded]?) href
  simp only [List.getElem?_map] at hnext
  simp only [machine, ← hyielded, ← hover, ← hearlier, ← hresidue]
  cases hc : (reference limit (r.received ++ c.bytes))[r.yielded]? with
  | none =>
    rw [hc, Option.map_none, eq_comm, Option.map_eq_none_iff] at hnext
    rw [hnext]
    dsimp only
    split_ifs <;> exact ⟨rfl, rfl, rfl⟩
  | some capsule =>
    rw [hc, Option.map_some, eq_comm, Option.map_eq_some_iff] at hnext
    obtain ⟨capsule', hc', houtline⟩ := hnext
    rw [hc']
    refine ⟨?_, rfl, rfl⟩
    simp only [outlines, map_ok, Option.map_some, houtline]

/-- All calls on streams that differ in values only. -/
theorem outputs_blind (limit : ℕ) {calls calls' : List Call}
    (hsize : calls.map Call.size = calls'.map Call.size)
    (hblank : blankValues (fed calls) = blankValues (fed calls')) :
    ((machine limit).outputs fresh calls).map outlines =
        ((machine limit).outputs fresh calls').map outlines ∧
      Alike ((machine limit).after fresh calls) ((machine limit).after fresh calls') := by
  induction calls using List.reverseRecOn generalizing calls' with
  | nil =>
    obtain rfl : calls' = [] := by simpa using hsize.symm
    exact ⟨rfl, rfl, rfl⟩
  | append_singleton calls c ih =>
    obtain rfl | ⟨calls', c', rfl⟩ := List.eq_nil_or_concat calls'
    · simp at hsize
    · rw [List.concat_eq_append] at hsize hblank ⊢
      rw [List.map_append, List.map_append] at hsize
      obtain ⟨hsize, _⟩ := List.append_inj' hsize rfl
      -- The calls before the last have handed over leading parts of equal length.
      have hlen := length_fed_of_size_eq hsize
      have hbefore := congrArg (List.take (fed calls).length) hblank
      rw [fed_concat, fed_concat, ← blankValues_take, List.take_left, hlen, ← blankValues_take,
        List.take_left] at hbefore
      obtain ⟨hout, halike⟩ := ih hsize hbefore
      rw [fed_concat, fed_concat, ← (history_after limit calls).1,
        ← (history_after limit calls').1] at hblank
      have hstep := step_blind limit halike.yielded hblank
      rw [Mealy.outputs_append, Mealy.outputs_append, Mealy.after_append, Mealy.after_append,
        List.map_append, List.map_append, hout]
      exact ⟨congrArg _ (congrArg (fun o => [o]) hstep.1), hstep.2⟩

end StreamReader

namespace CapsuleParser

open Capsule StreamReader

/-- No byte of a value decides anything: of two runs that hand over equally many bytes in
every call, of streams that differ only inside capsule values, the answers differ only in
the values of the capsules, and the streams may end alike. -/
theorem results_blind (limit : ℕ) (calls calls' : List Call)
    (hsize : calls.map Call.size = calls'.map Call.size)
    (hblank : blankValues (fed calls) = blankValues (fed calls')) :
    (results limit calls).map outlines = (results limit calls').map outlines ∧
      (stateAfter limit calls).finalize = (stateAfter limit calls').finalize := by
  obtain ⟨hanswers, hrelated⟩ := related_after limit calls
  obtain ⟨hanswers', hrelated'⟩ := related_after limit calls'
  obtain ⟨hsame, halike⟩ := outputs_blind limit hsize hblank
  rw [hanswers, hanswers', hrelated.finalize_eq, hrelated'.finalize_eq, StreamReader.finalize,
    StreamReader.finalize, halike.mayEnd]
  exact ⟨hsame, rfl⟩

/-- Two streams of an unknown and a DATAGRAM capsule with other values. -/
theorem results_blind_values :
    (results 65536 [.feed [0x29, 0x01, 0x05, 0x00], .feed [0x02, 0x07, 0x08]]).map outlines =
        (results 65536 [.feed [0x29, 0x01, 0xff, 0x00], .feed [0x02, 0x00, 0xc0]]).map outlines ∧
      (stateAfter 65536 [.feed [0x29, 0x01, 0x05, 0x00], .feed [0x02, 0x07, 0x08]]).finalize =
        (stateAfter 65536 [.feed [0x29, 0x01, 0xff, 0x00], .feed [0x02, 0x00, 0xc0]]).finalize :=
  results_blind 65536 [.feed [0x29, 0x01, 0x05, 0x00], .feed [0x02, 0x07, 0x08]]
    [.feed [0x29, 0x01, 0xff, 0x00], .feed [0x02, 0x00, 0xc0]] rfl (by decide +kernel)

end CapsuleParser

end Masque

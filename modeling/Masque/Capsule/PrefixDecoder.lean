import Masque.Capsule.Codec

/-!
# The one-shot decoder as a prefix decoder

What `Capsule.decode` reads from the front of a buffer does not depend on what follows, so
a stream is a sequence of capsules in at most one way. Where it fails, bytes are missing:
of a header varint or of the value.
-/

namespace Masque.Capsule

open Outcome

/-- The bytes `w` are an encoding of `c`, with header varints of any width. -/
def Spells (w : List UInt8) (c : Capsule) : Prop := decode w = .ok (c, w.length)

theorem Spells.next_eq {w : List UInt8} {c : Capsule} (h : Spells w c) :
    framing.next w = some (c, w.length) :=
  toOption_eq_some.mpr h

theorem spells_of_encode {c : Capsule} {e : List UInt8} (hc : c.Built) (h : c.encode = .ok e) :
    Spells e c := by
  have hvalid := built_iff_valid.mp hc
  rw [encode_eq hvalid] at h
  obtain rfl := ok.inj h
  simpa [Spells] using decode_wire_append hvalid []

/-- The two ways in which bytes may be missing. -/
theorem decode_eq_err {buf : List UInt8} {e : Error} (h : decode buf = .err e) :
    (header.next buf = none ∧ e.datagramKind = some .invalidVarint) ∨
      ∃ t l k, header.next buf = some ((t, l), k) ∧ buf.length - k < l ∧
        e.datagramKind = some .truncated := by
  rcases header_cases buf with hnone | ⟨t, l, k, hsome⟩
  · obtain ⟨source, hsource⟩ := decode_of_header_eq_none hnone
    rw [hsource] at h
    exact .inl ⟨hnone, err.inj h ▸ rfl⟩
  · rw [decode_of_header hsome] at h
    have hk := header.next_le hsome
    split_ifs at h with hshort
    exact .inr ⟨_, l, k, hsome, by omega, err.inj h ▸ rfl⟩

theorem decode_ne_panic (buf : List UInt8) : decode buf ≠ .panic := by
  rcases header_cases buf with hnone | ⟨t, l, k, hsome⟩
  · obtain ⟨source, hsource⟩ := decode_of_header_eq_none hnone
    rw [hsource]
    exact nofun
  · rw [decode_of_header hsome]
    split_ifs <;> exact nofun

/-- The missing bytes of a value can be supplied. -/
theorem exists_decode_append {buf : List UInt8} {t l k : ℕ}
    (h : header.next buf = some ((t, l), k)) :
    ∃ ext c n, decode (buf ++ ext) = .ok (c, n) := by
  rcases header_cases buf with hnone | ⟨ty, l, k, hsome⟩
  · rw [hnone] at h
    cases h
  · have hk := header.next_le hsome
    have hdecode := decode_of_header (header.next_append (List.replicate l 0) hsome)
    rw [if_neg (by rw [List.length_append, List.length_replicate]; omega)] at hdecode
    exact ⟨_, _, _, hdecode⟩

/-- Decoding reads a prefix and says why it cannot: what has been read stays read whatever
follows, no part of an encoding is one, a stream has one reading, and an error means that
bytes of a header varint or of the value are missing. -/
theorem decode_prefix :
    (∀ buf c n, decode buf = .ok (c, n) →
      (∀ ext, decode (buf ++ ext) = .ok (c, n)) ∧ ∀ k < n, ∃ e, decode (buf.take k) = .err e) ∧
    (∀ c c' e e', Built c → Built c' → c.encode = .ok e → c'.encode = .ok e' → e <+: e' →
      e = e') ∧
    (∀ w w' c c', Spells w c → Spells w' c' → w <+: w' → w = w') ∧
    (∀ ps qs : List (List UInt8 × Capsule), (∀ p ∈ ps, Spells p.1 p.2) →
      (∀ q ∈ qs, Spells q.1 q.2) → ps.flatMap Prod.fst = qs.flatMap Prod.fst → ps = qs) ∧
    (∀ buf e, decode buf = .err e →
      (e.datagramKind = some .invalidVarint ↔ header.next buf = none) ∧
      (e.datagramKind = some .truncated ↔
        ∃ t l k, header.next buf = some ((t, l), k) ∧ buf.length - k < l) ∧
      (e.datagramKind = some .invalidVarint ∨ e.datagramKind = some .truncated) ∧
      (e.datagramKind = some .truncated → ∃ ext c n, decode (buf ++ ext) = .ok (c, n))) ∧
    ∀ buf, decode buf ≠ .panic := by
  have hfront (w w' : List UInt8) (c c' : Capsule) (h : Spells w c) (h' : Spells w' c') :
      w <+: w' → w = w' :=
    framing.eq_of_prefix h.next_eq h'.next_eq
  refine ⟨fun buf c n h => ⟨fun ext => ?_, fun k hk => ?_⟩, ?_, hfront, ?_, ?_,
    decode_ne_panic⟩
  · exact toOption_eq_some.mp (framing.next_append ext (toOption_eq_some.mpr h))
  · have hnone : (decode (buf.take k)).toOption = none :=
      framing.next_take_eq_none (toOption_eq_some.mpr h) hk
    cases hdecode : decode (buf.take k) with
    | ok r =>
      rw [hdecode] at hnone
      cases hnone
    | err e => exact ⟨e, rfl⟩
    | panic => exact absurd hdecode (decode_ne_panic _)
  · intro c c' e e' hc hc' he he'
    exact hfront e e' c c' (spells_of_encode hc he) (spells_of_encode hc' he')
  · intro ps qs hps hqs
    exact framing.readings_unique (fun p hp => (hps p hp).next_eq) fun q hq => (hqs q hq).next_eq
  · intro buf e h
    rcases decode_eq_err h with ⟨hnone, hkind⟩ | ⟨t, l, k, hsome, hshort, hkind⟩
    · simp [hnone, hkind]
    · have hext := exists_decode_append hsome
      simp [hsome, hkind, hshort, hext]

end Masque.Capsule

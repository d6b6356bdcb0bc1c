import Masque.Capsule.Codec
import Masque.DatagramCapsule

/-!
# The codec of DATAGRAM capsules

`DatagramCapsule` writes its own header, but what it writes and reads is what the generic
codec of capsules does for type 0; so a vector of appended datagrams is read back in order.
-/

namespace Masque.DatagramCapsule

open Outcome

theorem valid_toCapsule {d : HttpDatagram} (h : d.payload.length ≤ 2 ^ 62 - 1) :
    (DatagramCapsule.mk d).toCapsule.Valid := by
  change d.payload.length < 4611686018427387904
  omega

/-- An encoder that fails has appended nothing. -/
theorem encodeInto_of_err {c : DatagramCapsule} {buf : List UInt8} {e : Error}
    (h : (c.encodeInto buf).1 = .err e) : (c.encodeInto buf).2 = buf := by
  unfold encodeInto at h ⊢
  dsimp only at h ⊢
  split
  · next hheader =>
    rw [hheader] at h
    cases h
  · rfl
  · rfl

/-- The reader of the DATAGRAM capsules of one stream. -/
def framing (s : UInt64) : Framing UInt8 DatagramCapsule where
  next buf := (decode buf s).toOption
  next_pos := by
    intro buf c n h
    exact Capsule.framing.next_pos
      (toOption_eq_some.mpr (decode_eq_ok.mp (toOption_eq_some.mp h)).1)
  next_le := by
    intro buf c n h
    exact Capsule.framing.next_le
      (toOption_eq_some.mpr (decode_eq_ok.mp (toOption_eq_some.mp h)).1)
  next_append := by
    intro buf c n t h
    obtain ⟨hcapsule, hstream⟩ := decode_eq_ok.mp (toOption_eq_some.mp h)
    have hmore := Capsule.framing.next_append t (toOption_eq_some.mpr hcapsule)
    exact toOption_eq_some.mpr (decode_eq_ok.mpr ⟨toOption_eq_some.mp hmore, hstream⟩)

/-- Decode from the front again and again, advancing by the consumed count: the datagrams,
and what is left where the decoder fails. -/
def decodeAll (buf : List UInt8) (s : UInt64) : List HttpDatagram × List UInt8 :=
  (((framing s).frames buf).map datagram, (framing s).residue buf)

/-- Append datagrams to one vector with `encode_into`. -/
def appendAll (buf : List UInt8) (ds : List HttpDatagram) : Result (List UInt8) :=
  ds.foldlM (fun buf d =>
    let (result, buf) := (DatagramCapsule.mk d).encodeInto buf
    (fun _ => buf) <$> result) buf

/-- What is appended are the capsules of the datagrams. -/
theorem appendAll_eq {ds : List HttpDatagram} (h : ∀ d ∈ ds, d.payload.length ≤ 2 ^ 62 - 1)
    (buf : List UInt8) :
    appendAll buf ds = .ok (buf ++ ds.flatMap fun d => (DatagramCapsule.mk d).toCapsule.wire) := by
  induction ds generalizing buf with
  | nil => rw [List.flatMap_nil, List.append_nil, appendAll, List.foldlM_nil, pure_eq]
  | cons d ds ih =>
    have hd := encodeInto_eq (valid_toCapsule (h d List.mem_cons_self)) buf
    have hrest := ih (fun d hd => h d (List.mem_cons_of_mem _ hd))
      (buf ++ (DatagramCapsule.mk d).toCapsule.wire)
    unfold appendAll at hrest ⊢
    rw [List.foldlM_cons, hd]
    dsimp only
    rw [map_ok, ok_bind, hrest, List.flatMap_cons, List.append_assoc]

/-- Appended datagrams are read back in order, to the end of the vector. -/
theorem decodeAll_appendAll {s : UInt64} {ds : List HttpDatagram}
    (h : ∀ d ∈ ds, d.streamId = s ∧ d.payload.length ≤ 2 ^ 62 - 1) :
    ∃ buf, appendAll [] ds = .ok buf ∧ decodeAll buf s = (ds, []) := by
  refine ⟨_, appendAll_eq (fun d hd => (h d hd).2) [], ?_⟩
  have hread : ∀ d ∈ ds, ∀ t, (framing s).next ((DatagramCapsule.mk d).toCapsule.wire ++ t) =
      some (⟨d⟩, (DatagramCapsule.mk d).toCapsule.wire.length) := by
    intro d hd t
    obtain ⟨hstream, hlen⟩ := h d hd
    exact toOption_eq_some.mpr
      (decode_eq_ok.mpr ⟨Capsule.decode_wire_append (valid_toCapsule hlen) t, hstream⟩)
  have hframes := (framing s).frames_flatMap_append ds hread []
  have hresidue := (framing s).residue_flatMap_append ds hread []
  rw [List.append_nil] at hframes hresidue
  rw [List.nil_append, decodeAll, hframes, hresidue, Framing.frames_nil, Framing.residue_nil,
    List.append_nil, List.map_map]
  exact congrArg (·, []) (List.map_id ds)

/-- The codec of DATAGRAM capsules agrees with the generic one: it appends the bytes of the
generic capsule or nothing, reads what the generic decoder reads with type 0 on a valid
stream, and reads a vector of appended datagrams back. -/
theorem datagram_codec_agrees :
    (∀ (d : HttpDatagram) (b : List UInt8), d.payload.length ≤ 2 ^ 62 - 1 →
      ∃ c e, Capsule.new .datagram d.payload = .ok c ∧ c.encode = .ok e ∧
        (DatagramCapsule.mk d).encodeInto b = (.ok (), b ++ e) ∧
        (DatagramCapsule.mk d).encode = .ok e) ∧
    (∀ (c : DatagramCapsule) b e, (c.encodeInto b).1 = .err e → (c.encodeInto b).2 = b) ∧
    (∀ buf s n, (∃ x, decode buf s = .ok (x, n)) ↔
      ∃ c, Capsule.decode buf = .ok (c, n) ∧ c.capsuleType.value = 0 ∧ ValidStreamId s) ∧
    (∀ buf s x n, decode buf s = .ok (x, n) → x.datagram.streamId = s ∧
      ∃ c, Capsule.decode buf = .ok (c, n) ∧ x.datagram.payload = c.value) ∧
    ∀ s (ds : List HttpDatagram),
      (∀ d ∈ ds, d.streamId = s ∧ d.payload.length ≤ 2 ^ 62 - 1) →
      ∃ buf, appendAll [] ds = .ok buf ∧ decodeAll buf s = (ds, []) := by
  refine ⟨fun d b h => ?_, fun c b e => encodeInto_of_err, fun buf s n => ⟨?_, ?_⟩,
    fun buf s x n h => ?_, fun s ds => decodeAll_appendAll⟩
  · have hvalid := valid_toCapsule h
    refine ⟨_, _, Capsule.new_eq_ok.mpr ⟨rfl, hvalid⟩, Capsule.encode_eq hvalid,
      encodeInto_eq hvalid b, ?_⟩
    rw [encode, encodeInto_eq hvalid]
    rfl
  · rintro ⟨x, h⟩
    obtain ⟨hcapsule, rfl⟩ := decode_eq_ok.mp h
    exact ⟨_, hcapsule, rfl, x.datagram.valid⟩
  · rintro ⟨⟨⟨t, _⟩, v⟩, hcapsule, rfl, hs⟩
    exact ⟨⟨⟨s, v, hs⟩⟩, decode_eq_ok.mpr ⟨hcapsule, rfl⟩⟩
  · obtain ⟨hcapsule, hstream⟩ := decode_eq_ok.mp h
    exact ⟨hstream, _, hcapsule, rfl⟩

end Masque.DatagramCapsule

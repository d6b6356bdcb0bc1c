import Masque.Capsule.KnownCapsules
import Masque.DatagramCapsule.Codec
import Masque.HttpDatagram.Codec

/-!
# Intermediaries

An intermediary reads the datagrams of a request off one connection and hands them on over
another, each way as HTTP/3 Datagrams or as DATAGRAM capsules, as in the tests of
`datagram_capsule_stream.rs`. Any chain of them hands on the payloads it was given
(`forwarding_transparent`).
-/

namespace Masque.Forwarding

open Outcome Capsule CapsuleParser

/-- How the datagrams of a request arrive: as capsules on its stream, in some chunks, or as
HTTP/3 Datagrams. -/
inductive Leg where
  | capsules (chunks : List (List UInt8))
  | frames (received : List (List UInt8))

/-- `decode_datagram_capsule`, with its assertions. -/
def decodeDatagramCapsule (capsule : Capsule) (streamId : UInt64) : Result HttpDatagram :=
  if capsule.capsuleType.isDatagram then do
    let encoded ← capsule.encode
    let (decoded, consumed) ← DatagramCapsule.decode encoded streamId
    if consumed = encoded.length then .ok decoded.datagram else .panic
  else .panic

/-- The datagrams that arrive for a request with the given stream. -/
def Leg.read (streamId : UInt64) : Leg → Result (List HttpDatagram)
  | .capsules chunks => do
    let known ← parseChunks chunks
    known.mapM (decodeDatagramCapsule · streamId)
  | .frames received => received.mapM HttpDatagram.decodeH3

/-- The datagrams as they go out on the stream of another connection. -/
def readdress (streamId : UInt64) (ds : List HttpDatagram) : Result (List HttpDatagram) :=
  ds.mapM fun d => HttpDatagram.new streamId d.payload

/-- What goes out for a list of datagrams; a stream may be cut anywhere. -/
inductive Leg.WrittenFor (ds : List HttpDatagram) : Leg → Prop
  | capsules {chunks : List (List UInt8)}
      (h : DatagramCapsule.appendAll [] ds = .ok chunks.flatten) : WrittenFor ds (.capsules chunks)
  | frames {sent : List (List UInt8)} (h : ds.mapM HttpDatagram.encodeH3 = .ok sent) :
      WrittenFor ds (.frames sent)

/-- One intermediary, with the stream it reads from and the stream it writes to. -/
def Hop (i o : UInt64 × Leg) : Prop :=
  ∃ ds ds', i.2.read i.1 = .ok ds ∧ readdress o.1 ds = .ok ds' ∧ o.2.WrittenFor ds'

/-- A leg on a stream carries payloads when they are read off it there. -/
def Carries (i : UInt64 × Leg) (payloads : List (List UInt8)) : Prop :=
  ∃ ds, i.2.read i.1 = .ok ds ∧ ds.map HttpDatagram.payload = payloads

variable {s : UInt64} {payloads : List (List UInt8)}

/-- The datagrams with the given payloads on a valid stream. -/
def datagrams (hs : ValidStreamId s) (payloads : List (List UInt8)) : List HttpDatagram :=
  payloads.map fun p => ⟨s, p, hs⟩

theorem payload_datagrams (hs : ValidStreamId s) (payloads : List (List UInt8)) :
    (datagrams hs payloads).map HttpDatagram.payload = payloads := by
  rw [datagrams, List.map_map]
  exact List.map_id payloads

theorem readdress_eq (hs : ValidStreamId s) (ds : List HttpDatagram) :
    readdress s ds = .ok (datagrams hs (ds.map HttpDatagram.payload)) := by
  rw [datagrams, List.map_map]
  exact mapM_eq_ok fun d _ => HttpDatagram.new_eq_ok.mpr ⟨rfl, rfl⟩

/-- A stream is valid when something has been addressed to it. -/
theorem readdress_valid {ds ds' : List HttpDatagram} (h : readdress s ds = .ok ds') :
    ds = [] ∧ ds' = [] ∨ ValidStreamId s := by
  cases ds with
  | nil => exact .inl ⟨rfl, (ok.inj h).symm⟩
  | cons d ds =>
    rw [readdress, List.mapM_cons] at h
    obtain ⟨d', hd, _⟩ := bind_eq_ok.mp h
    obtain ⟨rfl, _⟩ := HttpDatagram.new_eq_ok.mp hd
    exact .inr d'.valid

section Reading

/-- The reference holds DATAGRAM capsules that the encoder takes. -/
theorem of_mem_reference {limit : ℕ} {bytes : List UInt8} {c : Capsule}
    (h : c ∈ reference limit bytes) : c.capsuleType = .datagram ∧ c.Valid := by
  obtain ⟨hframe, htype⟩ := List.mem_filter.mp h
  refine ⟨?_, ?_⟩
  · obtain ⟨⟨t, ht⟩, v⟩ := c
    obtain rfl : t = 0 := beq_iff_eq.mp htype
    rfl
  · clear htype h
    induction bytes using (accepted limit).stream_induction with
    | stop bytes hnone =>
      rw [Framing.frames_of_none _ hnone] at hframe
      cases hframe
    | frame bytes x n hnext ih =>
      rw [Framing.frames_of_next _ hnext] at hframe
      obtain rfl | hrest := List.mem_cons.mp hframe
      · simp only [accepted] at hnext
        split_ifs at hnext
        exact valid_of_decode (toOption_eq_some.mp hnext)
      · exact ih hrest

theorem decodeDatagramCapsule_eq (hs : ValidStreamId s) {c : Capsule}
    (htype : c.capsuleType = .datagram) (hvalid : c.Valid) :
    decodeDatagramCapsule c s = .ok ⟨s, c.value, hs⟩ := by
  have hwire := decode_wire_append hvalid []
  rw [List.append_nil] at hwire
  have hdecode : DatagramCapsule.decode c.wire s = .ok (⟨⟨s, c.value, hs⟩⟩, c.wire.length) := by
    refine DatagramCapsule.decode_eq_ok.mpr ⟨?_, rfl⟩
    rw [hwire, DatagramCapsule.toCapsule, ← htype]
  have hdatagram : c.capsuleType.isDatagram = true := by rw [htype]; rfl
  rw [decodeDatagramCapsule, if_pos hdatagram, encode_eq hvalid, ok_bind, hdecode]
  simp only [ok_bind, if_true]

/-- A stream of whole capsules, of any types and with headers of any width, carries the
values of its DATAGRAM capsules. -/
theorem read_capsules (hs : ValidStreamId s) {chunks : List (List UInt8)}
    (h : residue defaultMaxCapsuleLength chunks.flatten = []) :
    (Leg.capsules chunks).read s = .ok (datagrams hs
      ((reference defaultMaxCapsuleLength chunks.flatten).map Capsule.value)) := by
  rw [Leg.read, parseChunks_eq h, ok_bind, datagrams, List.map_map]
  refine mapM_eq_ok fun c hc => ?_
  obtain ⟨htype, hvalid⟩ := of_mem_reference hc
  exact decodeDatagramCapsule_eq hs htype hvalid

end Reading

section Writing

variable {leg : Leg}

/-- The stream that a list of datagrams is appended to is the one of their capsules. -/
theorem flatten_of_appendAll {hs : ValidStreamId s} {chunks : List (List UInt8)}
    (hlen : ∀ p ∈ payloads, p.length ≤ 2 ^ 62 - 1)
    (h : DatagramCapsule.appendAll [] (datagrams hs payloads) = .ok chunks.flatten) :
    chunks.flatten = (payloads.map (Capsule.mk .datagram)).flatMap wire := by
  have hpayload : ∀ d ∈ datagrams hs payloads, d.payload.length ≤ 2 ^ 62 - 1 := by
    intro d hd
    obtain ⟨p, hp, rfl⟩ := List.mem_map.mp hd
    exact hlen p hp
  rw [DatagramCapsule.appendAll_eq hpayload] at h
  rw [← ok.inj h, List.nil_append, datagrams, List.flatMap_map, List.flatMap_map]
  rfl

theorem valid_of_payload {c : Capsule} (hlen : ∀ p ∈ payloads, p.length ≤ 65536)
    (hc : c ∈ payloads.map (Capsule.mk .datagram)) :
    c.Valid ∧ c.value.length ≤ defaultMaxCapsuleLength := by
  obtain ⟨p, hp, rfl⟩ := List.mem_map.mp hc
  have hbound := hlen p hp
  refine ⟨?_, hbound⟩
  show p.length < 4611686018427387904
  omega

/-- What goes out is read back as it was written, whichever carrier it goes out on. -/
theorem read_written (hs : ValidStreamId s) (hlen : ∀ p ∈ payloads, p.length ≤ 65536)
    (h : leg.WrittenFor (datagrams hs payloads)) : leg.read s = .ok (datagrams hs payloads) := by
  cases h with
  | @capsules chunks happend =>
    have hflatten := flatten_of_appendAll (fun p hp => (hlen p hp).trans (by decide)) happend
    obtain ⟨href, hresidue⟩ := reference_flatMap_wire defaultMaxCapsuleLength
      (fun c hc => (valid_of_payload hlen hc).1) (fun c hc _ => (valid_of_payload hlen hc).2)
    rw [← hflatten] at href hresidue
    rw [read_capsules hs hresidue, href, List.filter_eq_self.mpr, List.map_map]
    · exact congrArg (fun ps => ok (datagrams hs ps)) (List.map_id payloads)
    · intro c hc
      obtain ⟨p, _, rfl⟩ := List.mem_map.mp hc
      rfl
  | @frames sent hencode =>
    rw [mapM_eq_ok fun d _ => HttpDatagram.encodeH3_eq d] at hencode
    rw [← ok.inj hencode, Leg.read, List.mapM_map]
    have hread : ∀ d ∈ datagrams hs payloads, HttpDatagram.decodeH3
        (TaggedInt.canonical (d.streamId.toNat / 4) ++ d.payload) = .ok (id d) := by
      intro d _
      obtain ⟨bytes, hbytes, hdecode⟩ := HttpDatagram.decodeH3_encodeH3 d
      rw [HttpDatagram.encodeH3_eq] at hbytes
      rwa [ok.inj hbytes]
    exact (mapM_eq_ok hread).trans (by rw [List.map_id])

/-- When nothing went out, nothing is read, whatever the stream ID. -/
theorem read_nil (h : leg.WrittenFor []) (s : UInt64) : leg.read s = .ok [] := by
  cases h with
  | @capsules chunks happend =>
    have hnil : chunks.flatten = [] := (ok.inj happend).symm
    rw [Leg.read, parseChunks_eq (by rw [hnil, residue_nil]), hnil, reference_nil]
    rfl
  | @frames sent hencode =>
    obtain rfl : [] = sent := ok.inj hencode
    rfl

/-- A stream of capsules stops in front of the first payload over the limit. -/
theorem oversize_payloads (hlen : ∀ p ∈ payloads, p.length ≤ 2 ^ 62 - 1)
    (hlong : ∃ p ∈ payloads, 65536 < p.length) :
    Oversize defaultMaxCapsuleLength (residue defaultMaxCapsuleLength
      ((payloads.map (Capsule.mk .datagram)).flatMap wire)) := by
  induction payloads with
  | nil =>
    obtain ⟨_, hmem, _⟩ := hlong
    cases hmem
  | cons p payloads ih =>
    rw [List.map_cons, List.flatMap_cons]
    by_cases hp : 65536 < p.length
    · have hvalid : (Capsule.mk .datagram p).Valid := by
        have hbound := hlen p List.mem_cons_self
        show p.length < 4611686018427387904
        omega
      have hover : Oversize defaultMaxCapsuleLength (wire ⟨.datagram, p⟩) := by
        have hheader := header_wire_append hvalid []
        rw [List.append_nil] at hheader
        exact (oversize_iff_of_header hheader).mpr ⟨rfl, hp⟩
      have hall := hover.append ((payloads.map (Capsule.mk .datagram)).flatMap wire)
      rw [(reference_of_none (accepted_of_oversize hall)).2]
      exact hall
    · have hone : ∀ q ∈ [p], q.length ≤ 65536 := by
        intro q hq
        rw [List.mem_singleton.mp hq]
        exact Nat.not_lt.mp hp
      have hresidue := (reference_flatMap_wire defaultMaxCapsuleLength
        (fun c hc => (valid_of_payload hone hc).1)
        (fun c hc _ => (valid_of_payload hone hc).2)).2
      rw [List.map_singleton, List.flatMap_singleton] at hresidue
      rw [residue_append, hresidue, List.nil_append]
      refine ih (fun q hq => hlen q (List.mem_cons_of_mem p hq)) ?_
      obtain ⟨q, hq, hlt⟩ := hlong
      obtain rfl | hq := List.mem_cons.mp hq
      · exact absurd hlt hp
      · exact ⟨q, hq, hlt⟩

/-- Both carriers take every payload whose length is a varint. -/
theorem exists_written (ds : List HttpDatagram)
    (hlen : ∀ d ∈ ds, d.payload.length ≤ 2 ^ 62 - 1) :
    (∃ bytes, ∀ chunks : List (List UInt8), chunks.flatten = bytes →
      (Leg.capsules chunks).WrittenFor ds) ∧ ∃ sent, (Leg.frames sent).WrittenFor ds := by
  constructor
  · refine ⟨ds.flatMap fun d => (DatagramCapsule.mk d).toCapsule.wire, fun chunks h => ?_⟩
    exact .capsules (by rw [DatagramCapsule.appendAll_eq hlen, List.nil_append, h])
  · exact ⟨_, .frames (mapM_eq_ok fun d _ => HttpDatagram.encodeH3_eq d)⟩

end Writing

section Chains

variable {i o : UInt64 × Leg}

/-- One intermediary hands on the payloads it reads. -/
theorem Hop.carries (h : Hop i o) (hlen : ∀ p ∈ payloads, p.length ≤ 65536)
    (hi : Carries i payloads) : Carries o payloads := by
  obtain ⟨ds, ds', hread, hreaddress, hwritten⟩ := h
  obtain ⟨ds₀, hread₀, rfl⟩ := hi
  obtain rfl := ok.inj (hread.symm.trans hread₀)
  obtain ⟨s, leg⟩ := o
  obtain ⟨rfl, rfl⟩ | hs := readdress_valid hreaddress
  · -- Nothing is written, so the stream ID is never looked at.
    exact ⟨[], read_nil hwritten s, rfl⟩
  · rw [readdress_eq hs] at hreaddress
    obtain rfl := ok.inj hreaddress
    exact ⟨_, read_written hs hlen hwritten, payload_datagrams hs _⟩

theorem Carries.of_chain (hi : Carries i payloads) (hlen : ∀ p ∈ payloads, p.length ≤ 65536)
    (h : Relation.ReflTransGen Hop i o) : Carries o payloads := by
  induction h with
  | refl => exact hi
  | tail _ hlast ih => exact hlast.carries hlen ih

/-- Any datagrams that are read off a leg can be handed on to a valid stream, over either
carrier and with the capsules cut anywhere. -/
theorem exists_hop (hi : Carries i payloads) (hlen : ∀ p ∈ payloads, p.length ≤ 65536)
    (hs : ValidStreamId s) :
    (∃ bytes, ∀ chunks : List (List UInt8), chunks.flatten = bytes →
      Hop i (s, .capsules chunks)) ∧ ∃ sent, Hop i (s, .frames sent) := by
  obtain ⟨ds, hread, rfl⟩ := hi
  have hpayload : ∀ d ∈ datagrams hs (ds.map HttpDatagram.payload),
      d.payload.length ≤ 2 ^ 62 - 1 := by
    intro d hd
    obtain ⟨p, hp, rfl⟩ := List.mem_map.mp hd
    exact (hlen p hp).trans (by decide)
  obtain ⟨⟨bytes, hcapsules⟩, sent, hframes⟩ := exists_written _ hpayload
  exact ⟨⟨bytes, fun chunks h => ⟨ds, _, hread, readdress_eq hs ds, hcapsules chunks h⟩⟩,
    sent, ds, _, hread, readdress_eq hs ds, hframes⟩

/-- The stream an intermediary writes depends on the payloads alone. -/
theorem flatten_of_hop {chunks : List (List UInt8)} (h : Hop i (s, .capsules chunks))
    (hi : Carries i payloads) (hlen : ∀ p ∈ payloads, p.length ≤ 2 ^ 62 - 1) :
    chunks.flatten = (payloads.map (Capsule.mk .datagram)).flatMap wire := by
  obtain ⟨ds, ds', hread, hreaddress, hwritten⟩ := h
  obtain ⟨ds₀, hread₀, rfl⟩ := hi
  obtain rfl := ok.inj (hread.symm.trans hread₀)
  cases hwritten with
  | capsules happend =>
    obtain ⟨rfl, rfl⟩ | hs := readdress_valid hreaddress
    · exact (ok.inj happend).symm
    · rw [readdress_eq hs] at hreaddress
      obtain rfl := ok.inj hreaddress
      exact flatten_of_appendAll hlen happend

/-- A payload that only fits an HTTP/3 Datagram makes the reader of the stream fail. -/
theorem read_of_long {chunks : List (List UInt8)} (h : Hop i (s, .capsules chunks))
    (hi : Carries i payloads) (hlen : ∀ p ∈ payloads, p.length ≤ 2 ^ 62 - 1)
    (hlong : ∃ p ∈ payloads, 65536 < p.length) :
    (Leg.capsules chunks).read s = .err tooLarge := by
  have hover := oversize_payloads hlen hlong
  rw [← flatten_of_hop h hi hlen] at hover
  rw [Leg.read, parseChunks_eq_receives, receives, if_pos hover, err_bind]

/-- Intermediaries are transparent. A stream of whole capsules, foreign ones among them,
carries the values of its DATAGRAM capsules; any chain of intermediaries, over any carriers
and any cuts of the streams, hands those payloads on in order and can always be extended; and
what it puts on a stream is determined by the payloads, to the byte. Only a payload over the
limit of the reader stops it. -/
theorem forwarding_transparent :
    (∀ s chunks, ValidStreamId s → residue defaultMaxCapsuleLength chunks.flatten = [] →
      Carries (s, .capsules chunks)
        ((reference defaultMaxCapsuleLength chunks.flatten).map Capsule.value)) ∧
    (∀ i payloads, Carries i payloads → (∀ p ∈ payloads, p.length ≤ 65536) →
      (∀ o, Relation.ReflTransGen Hop i o → Carries o payloads) ∧
      ∀ s, ValidStreamId s →
        (∃ bytes, ∀ chunks : List (List UInt8), chunks.flatten = bytes →
          Hop i (s, .capsules chunks)) ∧ ∃ sent, Hop i (s, .frames sent)) ∧
    ∀ i s payloads chunks, Carries i payloads → (∀ p ∈ payloads, p.length ≤ 2 ^ 62 - 1) →
      Hop i (s, .capsules chunks) →
      chunks.flatten = (payloads.map (Capsule.mk .datagram)).flatMap wire ∧
        ((Leg.capsules chunks).read s = .err tooLarge ↔ ∃ p ∈ payloads, 65536 < p.length) := by
  refine ⟨fun s chunks hs h => ⟨_, read_capsules hs h, payload_datagrams hs _⟩,
    fun i payloads hi hlen => ⟨fun o h => hi.of_chain hlen h, fun s hs => exists_hop hi hlen hs⟩,
    fun i s payloads chunks hi hlen h => ⟨flatten_of_hop h hi hlen, ?_, read_of_long h hi hlen⟩⟩
  intro herr
  by_contra hshort
  push Not at hshort
  obtain ⟨ds, hread, _⟩ := h.carries hshort hi
  rw [hread] at herr
  cases herr

end Chains

end Masque.Forwarding

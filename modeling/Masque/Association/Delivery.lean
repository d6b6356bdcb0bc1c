import Masque.Association.Framing
import Masque.Capsule.KnownCapsules

/-!
# Delivery over the capsule stream

From a payload at one association to the same payload at the other: framed by `a`, perhaps
re-framed by intermediaries, appended to the request stream among foreign capsules, cut
into chunks, parsed, decoded and unframed by `b` (`capsule_stream_delivers`).
-/

namespace Masque.UdpAssociation

open Outcome Capsule CapsuleParser

/-- An intermediary reads an HTTP/3 Datagram off the wire and hands it on. -/
def Hop (d d' : HttpDatagram) : Prop :=
  ∃ bytes, d.encodeH3 = .ok bytes ∧ HttpDatagram.decodeH3 bytes = .ok d'

/-- The datagram that reaches the stream for a payload that `a` accepts on its carrier. -/
inductive Sent (a : UdpAssociation) (p : List UInt8) : HttpDatagram → Prop
  | h3Datagram {d d' : HttpDatagram} (henabled : a.session.isH3DatagramEnabled = true)
      (hencode : a.encodeH3Datagram p = .ok d) (hhops : Relation.ReflTransGen Hop d d') :
      Sent a p d'
  | datagramCapsule {c : DatagramCapsule}
      (henabled : a.session.isDatagramCapsuleEnabled = true)
      (hencode : a.encodeDatagramCapsule p = .ok c) : Sent a p c.datagram

/-- What is appended to the stream: a payload in its datagram, or a foreign capsule. -/
inductive Item where
  | udp (payload : List UInt8) (datagram : HttpDatagram)
  | foreign (capsule : Capsule)

/-- The items `a` and others may append. -/
def Item.SentBy (a : UdpAssociation) : Item → Prop
  | .udp payload datagram => Sent a payload datagram
  | .foreign capsule => capsule.Built ∧ capsule.capsuleType.isUnknown = true

/-- The payloads among the items. -/
def payloads (items : List Item) : List (List UInt8) :=
  items.filterMap fun
    | .udp payload _ => some payload
    | .foreign _ => none

/-- Append one item to the buffer of the stream. -/
def appendItem (buf : List UInt8) : Item → Result (List UInt8)
  | .udp _ datagram => do
    let (result, buf) := (DatagramCapsule.mk datagram).encodeInto buf
    result
    return buf
  | .foreign capsule => do
    let bytes ← capsule.encode
    return buf ++ bytes

/-- Re-encode a capsule, decode it as a DATAGRAM capsule of the stream and hand it to `b`. -/
def receiveCapsule (b : UdpAssociation) (capsule : Capsule) : Result (List UInt8) := do
  let bytes ← capsule.encode
  let (datagramCapsule, _) ← DatagramCapsule.decode bytes b.streamId
  b.decodeDatagramCapsule datagramCapsule

/-- The receiving end: collect the capsules of the stream and receive each. -/
def receiveStream (b : UdpAssociation) (chunks : List (List UInt8)) :
    Result (List (List UInt8)) := do
  let known ← parseChunks chunks
  known.mapM b.receiveCapsule

variable {a b : UdpAssociation}

theorem Hop.eq {d d' : HttpDatagram} (h : Hop d d') : d' = d := by
  obtain ⟨bytes, hencode, hdecode⟩ := h
  obtain ⟨bytes', hencode', hdecode'⟩ := d.decodeH3_encodeH3
  obtain rfl : bytes' = bytes := ok.inj (hencode'.symm.trans hencode)
  exact ok.inj (hdecode.symm.trans hdecode')

/-- What reaches the stream carries the payload. -/
theorem Sent.carries {p : List UInt8} {d : HttpDatagram} (h : Sent a p d) : Carries a d p := by
  cases h with
  | h3Datagram henabled hencode hhops =>
    have hcarries := (encodeH3Datagram_eq_ok henabled).mp hencode
    induction hhops with
    | refl => exact hcarries
    | tail _ hop ih => exact hop.eq ▸ ih
  | datagramCapsule henabled hencode =>
    exact (encodeDatagramCapsule_eq_ok henabled).mp hencode

/-- The capsule an item is on the wire. -/
def Item.capsule : Item → Capsule
  | .udp _ datagram => (DatagramCapsule.mk datagram).toCapsule
  | .foreign capsule => capsule

/-- Every item is a capsule the parser takes: valid, and within the limit if it is a
DATAGRAM capsule. -/
theorem Item.SentBy.fits {i : Item} (h : i.SentBy a) :
    i.capsule.Valid ∧ (i.capsule.capsuleType.isDatagram →
      i.capsule.value.length ≤ defaultMaxCapsuleLength) := by
  cases i with
  | foreign c =>
    refine ⟨built_iff_valid.mp h.1, fun ht => ?_⟩
    have hunknown := h.2
    rw [CapsuleType.isUnknown_eq_not] at hunknown
    simp [Item.capsule] at ht
    simp [ht] at hunknown
  | udp p d =>
    obtain ⟨_, hpayload, hle⟩ := Sent.carries h
    have hmax := maxPayloadForAddr_le a.target
    have hlen : (Item.udp p d).capsule.value.length = p.length + 1 := by
      change d.payload.length = _
      rw [hpayload, List.length_cons]
    refine ⟨?_, fun _ => ?_⟩
    · rw [Valid, hlen, TaggedInt.capacity_three]
      omega
    · rw [hlen, defaultMaxCapsuleLength]
      omega

/-- Appending an item appends its capsule. -/
theorem appendItem_eq {i : Item} (h : i.capsule.Valid) (buf : List UInt8) :
    appendItem buf i = .ok (buf ++ i.capsule.wire) := by
  cases i with
  | udp p d =>
    rw [appendItem, DatagramCapsule.encodeInto_eq h]
    rfl
  | foreign c =>
    rw [appendItem, encode_eq (c := c) h]
    rfl

theorem appendItems_eq {items : List Item} (h : ∀ i ∈ items, i.capsule.Valid)
    (buf : List UInt8) :
    items.foldlM appendItem buf = .ok (buf ++ (items.map Item.capsule).flatMap wire) := by
  induction items generalizing buf with
  | nil => simp
  | cons i items ih =>
    rw [List.foldlM_cons, appendItem_eq (h i List.mem_cons_self), ok_bind,
      ih (fun j hj => h j (List.mem_cons_of_mem i hj))]
    simp

/-- The capsule of a payload that `a` sent is received as that payload. -/
theorem receiveCapsule_of_sent {p : List UInt8} {d : HttpDatagram} (h : Sent a p d)
    (hstream : a.streamId = b.streamId) (hb : b.session.isDatagramCapsuleEnabled = true)
    (hmax : maxPayloadForAddr a.target ≤ maxPayloadForAddr b.target) :
    b.receiveCapsule (Item.udp p d).capsule = .ok p := by
  obtain ⟨hd, hpayload, hle⟩ := h.carries
  have hvalid : (Item.udp p d).capsule.Valid := (Item.SentBy.fits (i := .udp p d) h).1
  have hdecode : DatagramCapsule.decode (Item.udp p d).capsule.wire b.streamId =
      .ok (⟨d⟩, (Item.udp p d).capsule.wire.length) := by
    have hwire := decode_wire_append hvalid []
    rw [List.append_nil] at hwire
    rw [← hstream, ← hd]
    exact DatagramCapsule.decode_eq_ok.mpr ⟨hwire, rfl⟩
  have hreceive : b.decodeDatagramCapsule ⟨d⟩ = .ok p :=
    (decodeDatagramCapsule_eq_ok hb).mpr ⟨hd.trans hstream, hpayload, hle.trans hmax⟩
  rw [receiveCapsule, encode_eq hvalid, ok_bind, hdecode]
  exact hreceive

/-- The receiving end gets back the payload of every DATAGRAM capsule, and nothing else. -/
theorem mapM_receiveCapsule (hstream : a.streamId = b.streamId)
    (hb : b.session.isDatagramCapsuleEnabled = true)
    (hmax : maxPayloadForAddr a.target ≤ maxPayloadForAddr b.target) {items : List Item}
    (h : ∀ i ∈ items, i.SentBy a) :
    ((items.map Item.capsule).filter (·.capsuleType.isDatagram)).mapM b.receiveCapsule =
      .ok (payloads items) := by
  induction items with
  | nil => rfl
  | cons i items ih =>
    have hrest := ih fun j hj => h j (List.mem_cons_of_mem i hj)
    have hi := h i List.mem_cons_self
    rw [List.map_cons]
    cases i with
    | udp p d =>
      rw [List.filter_cons, if_pos (by rfl), List.mapM_cons,
        receiveCapsule_of_sent hi hstream hb hmax, ok_bind, hrest, ok_bind]
      rfl
    | foreign c =>
      have hunknown : c.capsuleType.isDatagram = false := by
        have := hi.2
        rwa [CapsuleType.isUnknown_eq_not, Bool.not_eq_true'] at this
      rw [List.filter_cons, if_neg (by simp [Item.capsule, hunknown]), hrest]
      rfl

/-- Payloads accepted by `a` on either carrier come out at `b` in order, none lost,
duplicated or altered, whatever capsules of other types lie between them and however the
stream is divided into chunks. -/
theorem capsule_stream_delivers (a b : UdpAssociation) (hstream : a.streamId = b.streamId)
    (hb : b.session.isDatagramCapsuleEnabled = true)
    (hmax : maxPayloadForAddr a.target ≤ maxPayloadForAddr b.target) (items : List Item)
    (h : ∀ i ∈ items, i.SentBy a) :
    ∃ buf, items.foldlM appendItem [] = .ok buf ∧
      ∀ chunks : List (List UInt8), chunks.flatten = buf →
        b.receiveStream chunks = .ok (payloads items) := by
  have hfits (c : Capsule) (hc : c ∈ items.map Item.capsule) : c.Valid ∧
      (c.capsuleType.isDatagram → c.value.length ≤ defaultMaxCapsuleLength) := by
    obtain ⟨i, hi, rfl⟩ := List.mem_map.mp hc
    exact (h i hi).fits
  refine ⟨_, appendItems_eq (fun i hi => (h i hi).fits.1) [], fun chunks hchunks => ?_⟩
  rw [List.nil_append] at hchunks
  obtain ⟨href, hres⟩ := reference_flatMap_wire defaultMaxCapsuleLength
    (fun c hc => (hfits c hc).1) (fun c hc => (hfits c hc).2)
  -- What the chunks are does not matter: the parser sees their concatenation.
  rw [← hchunks] at href hres
  rw [receiveStream, parseChunks_eq hres, ok_bind, href]
  exact mapM_receiveCapsule hstream hb hmax h

/-- An IPv4 target over HTTP/3 Datagrams. -/
def h3Association : UdpAssociation where
  target := .v4 ⟨#v[192, 0, 2, 1]⟩ 443
  session := ⟨.connectUdp, ⟨some .enabled, some .enabled, none, none⟩⟩
  id := ⟨0, UInt64.zero_le⟩
  streamId := 4
  connectUdp := rfl
  valid := ⟨by decide, rfl⟩

/-- An IPv6 target over DATAGRAM capsules on the same stream. -/
def capsuleAssociation : UdpAssociation where
  target := .v6 ⟨#v[0x2001, 0xdb8, 0, 0, 0, 0, 0, 1]⟩ 443 0 0
  session := ⟨.connectUdp, ⟨some .enabled, some .disabled, some true, some true⟩⟩
  id := ⟨0, UInt64.zero_le⟩
  streamId := 4
  connectUdp := rfl
  valid := ⟨by decide, rfl⟩

theorem h3_to_capsule_delivers :
    ∃ buf, [Item.foreign ⟨⟨0x2bad, by decide⟩, [1, 2, 3]⟩,
        .udp [7, 8] ⟨4, [0x00, 7, 8], ⟨by decide, rfl⟩⟩].foldlM appendItem [] = .ok buf ∧
      ∀ chunks : List (List UInt8), chunks.flatten = buf →
        capsuleAssociation.receiveStream chunks = .ok [[7, 8]] := by
  refine capsule_stream_delivers h3Association capsuleAssociation rfl rfl (by decide) _ ?_
  intro i hi
  rcases List.mem_cons.mp hi with rfl | hi
  · exact ⟨.new (t := ⟨0x2bad, by decide⟩) (v := [1, 2, 3]) rfl, rfl⟩
  · obtain rfl := List.mem_singleton.mp hi
    exact .h3Datagram rfl ((encodeH3Datagram_eq_ok rfl).mpr ⟨rfl, rfl, by decide⟩) .refl

end Masque.UdpAssociation

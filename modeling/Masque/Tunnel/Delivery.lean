import Masque.Tunnel.Actions

/-!
# What arrives through a tunnel

Whatever the ends do, and whatever the transport does within its promises, an end receives
over capsules a beginning of what the other end sent, in order, and over HTTP/3 Datagrams
nothing that the other end did not send (`tunnel_delivers`).
-/

namespace Masque

open Outcome Capsule CapsuleParser

namespace TunnelEnd

open Session UdpAssociation Endpoints

variable {streamId : UInt64} {e e' w w' r r' other : TunnelEnd}

/-- A frame that carries a payload on the stream of the tunnel. -/
def FrameOf (streamId : UInt64) (frame p : List UInt8) : Prop :=
  ∃ d, HttpDatagram.decodeH3 frame = .ok d ∧ d.streamId = streamId ∧ d.payload = 0x00 :: p

/-- What holds of an end by itself: its association is on the stream of the tunnel and keeps
what had been recorded when it was opened, and what it has handed to the transport are the
payloads sent, on the carrier that this selects, and foreign capsules. -/
structure Inv (streamId : UInt64) (e : TunnelEnd) : Prop where
  protocol : e.session.protocol = .connectUdp
  opened : ∀ a, e.association = some a →
    a.streamId = streamId ∧ a.session.caps.Extends e.session.caps
  sent : ∀ k, ∀ p ∈ e.sent k, ∃ a, e.association = some a ∧ Selects a.session.caps k ∧
    p.length ≤ maxPayloadForAddr a.target
  frames : List.Forall₂ (FrameOf streamId) e.frames (e.sent .h3Datagram)
  reference : reference defaultMaxCapsuleLength e.stream = (e.sent .datagramCapsule).map framed
  residue : residue defaultMaxCapsuleLength e.stream = []

/-- What holds between the end that writes and the end that reads. -/
structure Arrives (w r : TunnelEnd) : Prop where
  linked : Linked r.session w.session
  delivered_le : r.delivered ≤ w.stream.length
  drained : Drained defaultMaxCapsuleLength (w.stream.take r.delivered) r.parser
  closed : r.association = none → r.delivered = 0 ∧ ∀ k, r.received k = []
  capsules : ∀ a, r.association = some a → r.received .datagramCapsule =
    (Capsule.reference defaultMaxCapsuleLength (w.stream.take r.delivered)).map
      fun c => a.outcome .datagramCapsule c.value.tail
  frames : ∀ a, r.association = some a → ∀ x ∈ r.received .h3Datagram,
    ∃ p ∈ w.sent .h3Datagram, x = a.outcome .h3Datagram p

/-- What the other end sees of an end only grows. -/
structure Grows (e e' : TunnelEnd) : Prop where
  caps : e.session.caps.Extends e'.session.caps
  stream : e.stream <+: e'.stream
  sent : ∀ p ∈ e.sent .h3Datagram, p ∈ e'.sent .h3Datagram

theorem inv_new : Inv streamId new where
  protocol := rfl
  opened := by simp [new]
  sent := by simp [new]
  frames := .nil
  reference := reference_nil
  residue := residue_nil

theorem arrives_new : Arrives new new where
  linked := ⟨by simp [new, Session.new], by simp [new, Session.new]⟩
  delivered_le := Nat.zero_le _
  drained := drained_new
  closed := fun _ => ⟨rfl, fun _ => rfl⟩
  capsules := by simp [new]
  frames := by simp [new]

theorem Acts.grows (h : Acts streamId e other e') : Grows e e' := by
  cases h with
  | idle => exact ⟨.rfl, List.prefix_rfl, fun _ => id⟩
  | session h => exact ⟨h.extends, List.prefix_rfl, fun _ => id⟩
  | opens => exact ⟨.rfl, List.prefix_rfl, fun _ => id⟩
  | sendsFrame => exact ⟨.rfl, List.prefix_rfl, fun _ hp => mem_sent_logSent.mpr (.inl hp)⟩
  | sendsCapsule =>
    exact ⟨.rfl, List.prefix_append _ _, fun _ hp => mem_sent_logSent.mpr (.inl hp)⟩
  | sendsForeign => exact ⟨.rfl, List.prefix_append _ _, fun _ => id⟩
  | receivesBytes => exact ⟨.rfl, List.prefix_rfl, fun _ => id⟩
  | receivesFrame => exact ⟨.rfl, List.prefix_rfl, fun _ => id⟩

/-- More from the writer changes nothing of what has arrived. -/
theorem Arrives.grow (h : Arrives w r) (hgrows : Grows w w') : Arrives w' r := by
  obtain ⟨bytes, hbytes⟩ := hgrows.stream
  have htake : w'.stream.take r.delivered = w.stream.take r.delivered := by
    rw [← hbytes, List.take_append_of_le_length h.delivered_le]
  refine ⟨⟨fun v hv => hgrows.caps.localH3 v (h.linked.h3 v hv),
    fun b hb => hgrows.caps.localCapsule b (h.linked.capsule b hb)⟩,
    h.delivered_le.trans hgrows.stream.length_le, htake ▸ h.drained, h.closed, ?_, ?_⟩
  · rw [htake]
    exact h.capsules
  · intro a ha x hx
    obtain ⟨p, hp, rfl⟩ := h.frames a ha x hx
    exact ⟨p, hgrows.sent p hp, rfl⟩

section Stream

variable {s : List UInt8} {limit : ℕ}

/-- One more capsule at the end of a stream of whole capsules. -/
theorem reference_append_wire (hresidue : Capsule.residue limit s = []) {c : Capsule}
    (hvalid : c.Valid) (hlimit : c.capsuleType.isDatagram → c.value.length ≤ limit) :
    Capsule.reference limit (s ++ c.wire) =
        Capsule.reference limit s ++ [c].filter (·.capsuleType.isDatagram) ∧
      Capsule.residue limit (s ++ c.wire) = [] := by
  have hone := @reference_flatMap_wire limit [c] (by simpa using hvalid) (by simpa using hlimit)
  rw [List.flatMap_singleton] at hone
  rw [reference_append, residue_append, hresidue, List.nil_append]
  exact ⟨congrArg _ hone.1, hone.2⟩

/-- No beginning of a stream of whole capsules ends in an oversize header. -/
theorem fits_front {front : List UInt8} (h : front <+: s)
    (hresidue : Capsule.residue limit s = []) :
    ¬Oversize limit (Capsule.residue limit front) := by
  obtain ⟨bytes, rfl⟩ := h
  intro hover
  have hall := (oversize_append hover bytes).2.2
  rw [hresidue] at hall
  exact not_oversize_of_eq_none (Framing.next_nil _) hall

end Stream

/-- Every action keeps what holds of an end by itself. -/
theorem Acts.inv (h : Acts streamId e other e') (he : e.Inv streamId) : e'.Inv streamId := by
  cases h with
  | idle => exact he
  | session hrecords =>
    refine ⟨hrecords.protocol_eq.trans he.protocol, fun a ha => ?_, he.sent, he.frames,
      he.reference, he.residue⟩
    obtain ⟨hstream, hext⟩ := he.opened a ha
    exact ⟨hstream, hext.trans hrecords.extends⟩
  | @opens a hnone hsession hstream =>
    refine ⟨he.protocol, fun a' ha => ?_, fun k p hp => ?_, he.frames, he.reference, he.residue⟩
    · obtain rfl := Option.some.inj ha
      rw [hsession]
      exact ⟨hstream, .rfl⟩
    · -- Nothing can have been sent before.
      obtain ⟨b, hb, _⟩ := he.sent k p hp
      rw [hnone] at hb
      cases hb
  | @sendsFrame a d p frame ha hselects hcarries hframe =>
    refine ⟨he.protocol, he.opened, fun k q hq => ?_, ?_, he.reference, he.residue⟩
    · obtain hq | ⟨rfl, rfl⟩ := mem_sent_logSent.mp hq
      · exact he.sent k q hq
      · exact ⟨a, ha, hselects, hcarries.length_le⟩
    · obtain ⟨bytes, hbytes, hdecode⟩ := d.decodeH3_encodeH3
      obtain rfl := ok.inj (hframe.symm.trans hbytes)
      rw [sent_logSent_self]
      exact List.rel_append he.frames (.cons ⟨d, hdecode,
        hcarries.streamId_eq.trans (he.opened a ha).1, hcarries.payload_eq⟩ .nil)
  | @sendsCapsule a p ha hselects hp =>
    have hlen := hp.trans (maxPayloadForAddr_le a.target)
    obtain ⟨hvalid, hlimit⟩ := fits_framed hlen
    obtain ⟨href, hresidue⟩ := reference_append_wire he.residue hvalid (fun _ => hlimit)
    refine ⟨he.protocol, he.opened, fun k q hq => ?_, he.frames, ?_, hresidue⟩
    · obtain hq | ⟨rfl, rfl⟩ := mem_sent_logSent.mp hq
      · exact he.sent k q hq
      · exact ⟨a, ha, hselects, hp⟩
    · refine href.trans ?_
      rw [he.reference, sent_logSent_self, List.map_append]
      rfl
  | @sendsForeign c hvalid hc =>
    obtain ⟨href, hresidue⟩ := reference_append_wire he.residue hvalid (by simp [hc])
    refine ⟨he.protocol, he.opened, he.sent, he.frames, ?_, hresidue⟩
    rw [href, he.reference, List.filter_cons_of_neg (by simp [hc]), List.filter_nil,
      List.append_nil]
  | receivesBytes => exact ⟨he.protocol, he.opened, he.sent, he.frames, he.reference, he.residue⟩
  | receivesFrame => exact ⟨he.protocol, he.opened, he.sent, he.frames, he.reference, he.residue⟩

/-- A peer value that is recorded is one the other end has recorded as its own. -/
theorem linked_of_records {s s' t : Session} {c : Session.Call} (h : Records s c s')
    (hlinked : Linked s t)
    (hpeer : ∀ v, c = .negotiatePeerH3Datagram v → t.caps.localH3Datagram = some v)
    (hcapsule : ∀ b, c = .negotiatePeerCapsuleProtocol b →
      t.caps.localCapsuleProtocol = some b) : Linked s' t := by
  cases h with
  | localH3 => exact ⟨hlinked.h3, hlinked.capsule⟩
  | peerH3 => exact ⟨fun v hv => hpeer v (congrArg _ (Option.some.inj hv)), hlinked.capsule⟩
  | localCapsule => exact ⟨hlinked.h3, hlinked.capsule⟩
  | peerCapsule => exact ⟨hlinked.h3, fun b hb => hcapsule b (congrArg _ (Option.some.inj hb))⟩

/-- What one end has sent went out on the carrier of the association at the other end, if
that has one. -/
theorem carrier_of_sent {k k' : UdpCarrier} {p : List UInt8} {a : UdpAssociation}
    (hw : w.Inv streamId) (hr : r.Inv streamId) (hlinked : Linked r.session w.session)
    (hlinked' : Linked w.session r.session) (hp : p ∈ w.sent k) (ha : r.association = some a)
    (hselects : Selects a.session.caps k') : k' = k := by
  obtain ⟨b, hb, hselects', _⟩ := hw.sent k p hp
  exact carrier_agree hlinked hlinked' (hselects.mono (hr.opened a ha).2)
    (hselects'.mono (hw.opened b hb).2)

/-- The capsules of a beginning of the stream are the first of those that were sent. -/
theorem prefix_of_take (hw : w.Inv streamId) (n : ℕ) :
    Capsule.reference defaultMaxCapsuleLength (w.stream.take n) <+:
      (w.sent .datagramCapsule).map framed := by
  rw [← hw.reference]
  nth_rewrite 2 [← List.take_append_drop n w.stream]
  rw [reference_append]
  exact List.prefix_append _ _

/-- A chunk is taken from where the last one ended. -/
theorem take_append_chunk {α : Type} (xs : List α) (n count : ℕ) :
    xs.take n ++ (xs.drop n).take count =
      xs.take (n + ((xs.drop n).take count).length) := by
  rw [List.take_add, ← List.prefix_iff_eq_take.mp (List.take_prefix count (xs.drop n))]

/-- The next bytes of the stream are taken by the parser, which yields what they complete. -/
theorem feedChunk_of_arrives (hw : w.Inv streamId) (h : Arrives w r) (count : ℕ) :
    ∃ known q, r.parser.feedChunk ((w.stream.drop r.delivered).take count) = (.ok known, q) ∧
      Capsule.reference defaultMaxCapsuleLength
          (w.stream.take (r.delivered + ((w.stream.drop r.delivered).take count).length)) =
        Capsule.reference defaultMaxCapsuleLength (w.stream.take r.delivered) ++ known ∧
      Drained defaultMaxCapsuleLength
        (w.stream.take (r.delivered + ((w.stream.drop r.delivered).take count).length)) q := by
  rw [← take_append_chunk]
  refine h.drained.feedChunk (fits_front ?_ hw.residue)
  rw [take_append_chunk]
  exact List.take_prefix _ _

/-- A capsule that arrives is the one of a payload that was sent, and is received so. -/
theorem receiveCapsule_of_arrives {n : ℕ} {c : Capsule} (a : UdpAssociation)
    (hw : w.Inv streamId)
    (hc : c ∈ Capsule.reference defaultMaxCapsuleLength (w.stream.take n)) :
    a.receiveCapsule c = a.outcome .datagramCapsule c.value.tail := by
  obtain ⟨p, hp, rfl⟩ := List.mem_map.mp ((prefix_of_take hw n).subset hc)
  obtain ⟨b, _, _, hlen⟩ := hw.sent _ p hp
  exact receiveCapsule_framed a (hlen.trans (maxPayloadForAddr_le b.target))

theorem exists_of_forall₂ {α β : Type} {R : α → β → Prop} {xs : List α} {ys : List β}
    (h : List.Forall₂ R xs ys) {i : ℕ} {x : α} (hx : xs[i]? = some x) :
    ∃ y, ys[i]? = some y ∧ R x y := by
  induction h generalizing i with
  | nil => cases hx
  | cons hxy _ ih =>
    cases i with
    | zero => exact ⟨_, rfl, Option.some.inj hx ▸ hxy⟩
    | succ i => exact ih hx

/-- The frame of a payload is received as that payload, at the end of the stream. -/
theorem decode_of_frame {i : ℕ} {frame : List UInt8} {a : UdpAssociation}
    (hw : w.Inv streamId) (hr : r.Inv streamId) (ha : r.association = some a)
    (hframe : w.frames[i]? = some frame) :
    ∃ p, (w.sent .h3Datagram)[i]? = some p ∧
      (HttpDatagram.decodeH3 frame >>= a.decodeH3Datagram) = a.outcome .h3Datagram p := by
  obtain ⟨p, hp, d, hdecode, hstream, hpayload⟩ := exists_of_forall₂ hw.frames hframe
  refine ⟨p, hp, ?_⟩
  rw [hdecode, ok_bind]
  exact decodeH3Datagram_framed (hstream.trans (hr.opened a ha).1.symm) hpayload

theorem Acts.arrives (h : Acts streamId r w r') (hw : w.Inv streamId) (hr : r.Inv streamId)
    (harrives : Arrives w r) : Arrives w r' := by
  cases h with
  | idle => exact harrives
  | session hrecords hpeer hcapsule =>
    exact ⟨linked_of_records hrecords harrives.linked hpeer hcapsule, harrives.delivered_le,
      harrives.drained, harrives.closed, harrives.capsules, harrives.frames⟩
  | opens hnone =>
    obtain ⟨hzero, hnil⟩ := harrives.closed hnone
    refine ⟨harrives.linked, harrives.delivered_le, harrives.drained, (fun hnone => by cases hnone),
      fun a _ => ?_, fun a _ x hx => ?_⟩
    · show r.received _ = _
      rw [hnil, hzero, List.take_zero, reference_nil, List.map_nil]
    · change x ∈ r.received _ at hx
      rw [hnil] at hx
      cases hx
  | sendsFrame => exact ⟨harrives.linked, harrives.delivered_le, harrives.drained,
      harrives.closed, harrives.capsules, harrives.frames⟩
  | sendsCapsule => exact ⟨harrives.linked, harrives.delivered_le, harrives.drained,
      harrives.closed, harrives.capsules, harrives.frames⟩
  | sendsForeign => exact ⟨harrives.linked, harrives.delivered_le, harrives.drained,
      harrives.closed, harrives.capsules, harrives.frames⟩
  | @receivesBytes a known q count ha hfeed =>
    obtain ⟨known', q', hfeed', href, hdrained⟩ := feedChunk_of_arrives hw harrives count
    obtain ⟨hknown, rfl⟩ := Prod.mk.inj (hfeed.symm.trans hfeed')
    obtain rfl := ok.inj hknown
    refine ⟨harrives.linked, ?_, hdrained,
      fun hnone => absurd (ha.symm.trans hnone) (Option.some_ne_none a),
      fun b hb => ?_, fun b hb x hx => ?_⟩
    · show r.delivered + _ ≤ _
      have hle := harrives.delivered_le
      rw [List.length_take, List.length_drop]
      omega
    · obtain rfl : b = a := Option.some.inj (hb.symm.trans ha)
      rw [received_logReceived_self]
      show r.received _ ++ _ = List.map _ (Capsule.reference _ (w.stream.take (r.delivered + _)))
      rw [href, List.map_append, harrives.capsules b ha]
      congr 1
      refine List.map_congr_left fun c hc => ?_
      exact receiveCapsule_of_arrives b hw (href ▸ List.mem_append_right _ hc)
    · rw [received_logReceived_of_ne (by decide)] at hx
      exact harrives.frames b hb x hx
  | @receivesFrame a i frame ha hframe =>
    refine ⟨harrives.linked, harrives.delivered_le, harrives.drained,
      fun hnone => absurd (ha.symm.trans hnone) (Option.some_ne_none a),
      fun b hb => ?_, fun b hb x hx => ?_⟩
    · rw [received_logReceived_of_ne (by decide)]
      exact harrives.capsules b hb
    · obtain rfl : b = a := Option.some.inj (hb.symm.trans ha)
      rw [received_logReceived_self] at hx
      obtain hx | hx := List.mem_append.mp hx
      · exact harrives.frames b hb x hx
      · obtain ⟨p, hp, houtcome⟩ := decode_of_frame hw hr ha hframe
        exact ⟨p, List.mem_of_getElem? hp, (List.mem_singleton.mp hx).trans houtcome⟩

/-- An open association with a carrier sends exactly the payloads within its limit, and one
without a carrier sends nothing. -/
theorem send_ok_iff {a : UdpAssociation} {p : List UInt8} (ha : e.association = some a) :
    (∃ e', e.send p = .ok e') ↔ (∃ k, a.session.selectUdpCarrier = .ok k) ∧
      p.length ≤ maxPayloadForAddr a.target := by
  constructor
  · rintro ⟨e', h⟩
    simp only [send, ha] at h
    obtain ⟨k, hcarrier, h⟩ := bind_eq_ok.mp h
    refine ⟨⟨k, hcarrier⟩, ?_⟩
    have hselects := (selectUdpCarrier_eq_ok.mp hcarrier).2
    cases k with
    | h3Datagram =>
      obtain ⟨d, hd, _⟩ := bind_eq_ok.mp h
      exact ((encodeH3Datagram_eq_ok hselects.gates.1).mp hd).length_le
    | datagramCapsule =>
      obtain ⟨c, hc, _⟩ := bind_eq_ok.mp h
      exact ((encodeDatagramCapsule_eq_ok hselects.gates.2).mp hc).length_le
  · rintro ⟨⟨k, hcarrier⟩, hp⟩
    have hselects := (selectUdpCarrier_eq_ok.mp hcarrier).2
    obtain ⟨d, _, hcarries⟩ := exists_carries hp
    simp only [send, ha, hcarrier, ok_bind]
    cases k with
    | h3Datagram =>
      obtain ⟨frame, hframe, _⟩ := d.decodeH3_encodeH3
      simp only [(encodeH3Datagram_eq_ok hselects.gates.1).mpr hcarries, ok_bind, hframe]
      exact ⟨_, rfl⟩
    | datagramCapsule =>
      have hvalid : (DatagramCapsule.mk d).toCapsule.Valid := by
        have hlen := hp.trans (maxPayloadForAddr_le a.target)
        rw [DatagramCapsule.toCapsule, hcarries.payload_eq]
        exact (fits_framed hlen).1
      have hencode := (encodeDatagramCapsule_eq_ok hselects.gates.2 (c := ⟨d⟩)).mpr hcarries
      simp only [hencode, ok_bind, DatagramCapsule.encodeInto_eq hvalid]
      exact ⟨_, rfl⟩

end TunnelEnd

namespace Tunnel

open TunnelEnd

variable {streamId : UInt64} {t : Tunnel}

/-- What holds of both ends, and in both directions. -/
structure Inv (streamId : UInt64) (t : Tunnel) : Prop where
  ends : ∀ side, (t side).Inv streamId
  arrives : ∀ side : Side, (t side.other).Arrives (t side)

theorem Inv.back (h : Inv streamId t) (side : Side) : (t side).Arrives (t side.other) := by
  have hback := h.arrives side.other
  rwa [show side.other.other = side by cases side <;> rfl] at hback

theorem inv_fresh : Inv streamId fresh := ⟨fun _ => inv_new, fun _ => arrives_new⟩

/-- The end that acts keeps what it has, and the other one sees it grow. -/
theorem Inv.update {actor : Side} {e : TunnelEnd} (h : Inv streamId t)
    (hacts : Acts streamId (t actor) (t actor.other) e) :
    Inv streamId (Function.update t actor e) := by
  have hne : actor.other ≠ actor := by cases actor <;> decide
  refine ⟨fun side => ?_, fun side => ?_⟩
  · by_cases hside : side = actor
    · subst hside
      rw [Function.update_self]
      exact hacts.inv (h.ends side)
    · rw [Function.update_of_ne hside]
      exact h.ends side
  · by_cases hside : side = actor
    · subst hside
      rw [Function.update_self, Function.update_of_ne hne]
      exact hacts.arrives (h.ends side.other) (h.ends side) (h.arrives side)
    · obtain rfl : side = actor.other := by cases side <;> cases actor <;> trivial
      rw [Function.update_of_ne hne, show actor.other.other = actor by cases actor <;> rfl,
        Function.update_self]
      exact (h.back actor).grow hacts.grows

/-- A step is an action that succeeds, or changes nothing. -/
theorem step_cases (t : Tunnel) (i : Side × TunnelAction) :
    (∃ e, (t i.1).act streamId (t i.1.other) i.2 = .ok e ∧
      (machine streamId).step t i = (.ok (), Function.update t i.1 e)) ∨
    (∀ e, (t i.1).act streamId (t i.1.other) i.2 ≠ .ok e) ∧
      (∀ u, ((machine streamId).step t i).1 ≠ .ok u) ∧ ((machine streamId).step t i).2 = t := by
  rw [machine]
  cases hact : (t i.1).act streamId (t i.1.other) i.2 with
  | ok e => exact .inl ⟨e, rfl, by simp only [hact]⟩
  | err error => exact .inr ⟨by simp, by simp [hact], by simp only [hact]⟩
  | panic => exact .inr ⟨by simp, by simp [hact], by simp only [hact]⟩

theorem Inv.step (h : Inv streamId t) (i : Side × TunnelAction) :
    Inv streamId ((machine streamId).step t i).2 := by
  obtain ⟨e, hact, hstep⟩ | ⟨_, _, hsame⟩ := step_cases t i
  · rw [hstep]
    exact h.update (acts_of_act hact)
  · rw [hsame]
    exact h

/-- An action is answered with success exactly when it succeeds. -/
theorem step_ok_iff (t : Tunnel) (side : Side) (action : TunnelAction) :
    ((machine streamId).step t (side, action)).1 = .ok () ↔
      ∃ e, (t side).act streamId (t side.other) action = .ok e := by
  obtain ⟨e, hact, hstep⟩ | ⟨hnone, herr, _⟩ := step_cases t (side, action)
  · rw [hstep]
    exact ⟨fun _ => ⟨e, hact⟩, fun _ => rfl⟩
  · exact ⟨fun h => absurd h (herr ()), fun ⟨e, he⟩ => absurd he (hnone e)⟩

theorem inv_after (streamId : UInt64) (inputs : List (Side × TunnelAction)) :
    Inv streamId ((machine streamId).after fresh inputs) :=
  (machine streamId).after_invariant (P := Inv streamId) (fun _ i h => h.step i) inv_fresh inputs

/-- Reading the stream never fails. -/
theorem Inv.receiveBytes_ok (h : Inv streamId t) (side : Side) (count : ℕ) :
    ((machine streamId).step t (side, .receiveBytes count)).1 = .ok () := by
  rw [step_ok_iff]
  show ∃ e, (t side).receiveBytes (t side.other) count = .ok e
  rw [receiveBytes]
  split
  · exact ⟨_, rfl⟩
  · obtain ⟨known, q, hfeed, _⟩ := feedChunk_of_arrives (h.ends side.other) (h.arrives side) count
    dsimp only
    rw [hfeed]
    exact ⟨_, rfl⟩

/-- Both ends send on one carrier. -/
theorem Inv.carrier_eq (h : Inv streamId t) {side side' : Side} {k k' : UdpCarrier}
    {p p' : List UInt8} (hp : p ∈ (t side).sent k) (hp' : p' ∈ (t side').sent k') : k = k' := by
  obtain ⟨a, ha, hselects, _⟩ := (h.ends side).sent k p hp
  by_cases hside : side' = side
  · subst hside
    obtain ⟨b, hb, hselects', _⟩ := (h.ends side').sent k' p' hp'
    obtain rfl : a = b := Option.some.inj (ha.symm.trans hb)
    have hk := Session.selectUdpCarrier_eq_ok.mpr ⟨a.connectUdp, hselects⟩
    have hk' := Session.selectUdpCarrier_eq_ok.mpr ⟨a.connectUdp, hselects'⟩
    exact ok.inj (hk.symm.trans hk')
  · obtain rfl : side' = side.other := by cases side <;> cases side' <;> trivial
    exact carrier_of_sent (h.ends _) (h.ends side) (h.arrives side).linked (h.back side).linked
      hp' ha hselects

/-- What arrives over capsules is a beginning of what was sent, to the end when all bytes
are there. -/
theorem Inv.received_capsules (h : Inv streamId t) {side : Side} {a : UdpAssociation}
    (ha : (t side).association = some a) :
    ∃ got rest, (t side.other).sent .datagramCapsule = got ++ rest ∧
      (t side).received .datagramCapsule = got.map (a.outcome .datagramCapsule) ∧
      ((t side).delivered = (t side.other).stream.length →
        rest = [] ∧ (t side).parser.finalize = .ok ()) := by
  have hw := h.ends side.other
  have harrives := h.arrives side
  obtain ⟨more, hmore⟩ := prefix_of_take hw (t side).delivered
  obtain ⟨got, rest, hsent, hgot, hrest⟩ := List.map_eq_append_iff.mp hmore.symm
  refine ⟨got, rest, hsent, ?_, fun hall => ?_⟩
  · rw [harrives.capsules a ha, ← hgot, List.map_map]
    rfl
  · have hdrained := harrives.drained
    rw [hall, List.take_length] at hdrained hmore
    rw [hw.reference, List.append_right_eq_self, ← hrest, List.map_eq_nil_iff] at hmore
    exact ⟨hmore, hdrained.finalize_eq.mpr hw.residue⟩

/-- The next frame of the other end that arrives is received as its payload was. -/
theorem Inv.receiveFrame_eq (h : Inv streamId t) {side : Side} {a : UdpAssociation} {i : ℕ}
    {p : List UInt8} (ha : (t side).association = some a)
    (hp : ((t side.other).sent .h3Datagram)[i]? = some p) :
    (((machine streamId).step t (side, .receiveFrame i)).2 side).received .h3Datagram =
      (t side).received .h3Datagram ++ [a.outcome .h3Datagram p] := by
  obtain ⟨frame, hframe, _⟩ := exists_of_forall₂ (h.ends side.other).frames.flip hp
  obtain ⟨q, hq, houtcome⟩ := decode_of_frame (h.ends side.other) (h.ends side) ha hframe
  obtain rfl : q = p := Option.some.inj (hq.symm.trans hp)
  have hact : (t side).act streamId (t side.other) (.receiveFrame i) =
      .ok ((t side).logReceived .h3Datagram [a.outcome .h3Datagram q]) := by
    simp only [act, receiveFrame, ha, hframe, houtcome]
  simp only [machine, hact, Function.update_self]
  exact received_logReceived_self _ _ _

/-- What the other end has sent is accepted by an association with a carrier unless it is over
the limit of the own target, which it is not where both targets are of one family. -/
theorem Inv.outcome_of_sent (h : Inv streamId t) {side : Side} {a : UdpAssociation}
    {j k : UdpCarrier} {p : List UInt8} (ha : (t side).association = some a)
    (hcarrier : a.session.selectUdpCarrier = .ok j) (hp : p ∈ (t side.other).sent k) :
    (a.outcome k p = .ok p ↔ p.length ≤ maxPayloadForAddr a.target) ∧
      ∀ b, (t side.other).association = some b → a.target.SameFamily b.target →
        a.outcome k p = .ok p := by
  have hselects := (Session.selectUdpCarrier_eq_ok.mp hcarrier).2
  obtain rfl := carrier_of_sent (h.ends side.other) (h.ends side) (h.arrives side).linked
    (h.back side).linked hp ha hselects
  refine ⟨UdpAssociation.outcome_eq_ok hselects, fun b hb hfamily => ?_⟩
  obtain ⟨b', hb', _, hlen⟩ := (h.ends side.other).sent j p hp
  obtain rfl : b = b' := Option.some.inj (hb.symm.trans hb')
  rw [UdpAssociation.outcome_eq_ok hselects, maxPayloadForAddr_of_sameFamily hfamily]
  exact hlen

/-- Whatever the ends do and whatever the transport delivers when, both ends send on one
carrier. An open end receives, over capsules, the outcomes of the first of the payloads the
other end sent, in order, and of all of them once all bytes have arrived, when the stream also
ends cleanly; over HTTP/3 Datagrams each frame that arrives gives the outcome of the payload it
was sent for. If it was opened with a carrier, the outcome of a payload is the payload itself
unless that is over the limit of its own target, so always where both targets are of one
family. Receiving never fails, and an open end sends exactly what is within its limit, if it
was opened with a carrier. -/
theorem tunnel_delivers (streamId : UInt64) (inputs : List (Side × TunnelAction)) (side : Side) :
    let t := (machine streamId).after fresh inputs
    (∀ side' k k', (t side).sent k ≠ [] → (t side').sent k' ≠ [] → k = k') ∧
    (∀ count, ((machine streamId).step t (side, .receiveBytes count)).1 = .ok ()) ∧
    ((t side).association = none → ∀ k, (t side).sent k = [] ∧ (t side).received k = []) ∧
    ∀ a, (t side).association = some a →
      (∃ got rest, (t side.other).sent .datagramCapsule = got ++ rest ∧
        (t side).received .datagramCapsule = got.map (a.outcome .datagramCapsule) ∧
        ((t side).delivered = (t side.other).stream.length →
          rest = [] ∧ (t side).parser.finalize = .ok ())) ∧
      (∀ x ∈ (t side).received .h3Datagram, ∃ p ∈ (t side.other).sent .h3Datagram,
        x = a.outcome .h3Datagram p) ∧
      (∀ i p, ((t side.other).sent .h3Datagram)[i]? = some p →
        (((machine streamId).step t (side, .receiveFrame i)).2 side).received .h3Datagram =
          (t side).received .h3Datagram ++ [a.outcome .h3Datagram p]) ∧
      (∀ j, a.session.selectUdpCarrier = .ok j → ∀ k, ∀ p ∈ (t side.other).sent k,
        (a.outcome k p = .ok p ↔ p.length ≤ maxPayloadForAddr a.target) ∧
        ∀ b, (t side.other).association = some b → a.target.SameFamily b.target →
          a.outcome k p = .ok p) ∧
      ∀ p, ((machine streamId).step t (side, .send p)).1 = .ok () ↔
        (∃ j, a.session.selectUdpCarrier = .ok j) ∧ p.length ≤ maxPayloadForAddr a.target := by
  have hinv := inv_after streamId inputs
  refine ⟨fun side' k k' hk hk' => ?_, hinv.receiveBytes_ok side,
    fun hnone k => ⟨?_, ((hinv.arrives side).closed hnone).2 k⟩, fun a ha =>
      ⟨hinv.received_capsules ha, (hinv.arrives side).frames a ha,
        fun i p hp => hinv.receiveFrame_eq ha hp,
        fun j hj k p hp => hinv.outcome_of_sent ha hj hp, fun p => ?_⟩⟩
  · obtain ⟨p, hp⟩ := List.exists_mem_of_ne_nil _ hk
    obtain ⟨p', hp'⟩ := List.exists_mem_of_ne_nil _ hk'
    exact hinv.carrier_eq hp hp'
  · by_contra hsome
    obtain ⟨p, hp⟩ := List.exists_mem_of_ne_nil _ hsome
    obtain ⟨a, ha, _⟩ := (hinv.ends side).sent k p hp
    exact absurd (ha.symm.trans hnone) (Option.some_ne_none a)
  · rw [step_ok_iff]
    exact send_ok_iff ha

-- Capsules are negotiated; the client opens its association and sends, the proxy reads byte
-- by byte.
example : (((machine 4).after fresh
    [(.client, .setLocalH3Datagram .enabled), (.proxy, .setLocalH3Datagram .disabled),
      (.client, .setLocalCapsuleProtocol true), (.proxy, .setLocalCapsuleProtocol true),
      (.client, .receiveSettings), (.proxy, .receiveHeader), (.client, .receiveHeader),
      (.proxy, .receiveSettings),
      (.client, .bind ⟨fun _ => true, fun _ _ => true⟩ (.v4 ⟨#v[0, 0, 0, 0]⟩ 0)
        (.v4 ⟨#v[192, 0, 2, 1]⟩ 443) ⟨0, UInt64.zero_le⟩),
      (.proxy, .bind ⟨fun _ => true, fun _ _ => true⟩ (.v4 ⟨#v[0, 0, 0, 0]⟩ 0)
        (.v4 ⟨#v[192, 0, 2, 1]⟩ 443) ⟨0, UInt64.zero_le⟩),
      (.client, .sendForeign ⟨0x29, by decide⟩ [1, 2]), (.client, .send [7, 8]),
      (.proxy, .receiveBytes 6), (.client, .send []), (.proxy, .receiveBytes 4)]
    .proxy).received .datagramCapsule).map Outcome.toOption = [some [7, 8]] := by
  decide +kernel

end Tunnel

end Masque

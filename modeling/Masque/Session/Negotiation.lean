import Masque.Association.Framing

/-!
# Carrier negotiation

Two endpoints negotiate by recording their own values and those the transport delivers from
the other side. `Extends` orders what a session has recorded, `Linked` says that a peer
value is the other side's own; from these the selected carrier is stable and common.
-/

namespace Masque

open Outcome

section Recording

/-- Everything recorded in `c` is recorded in `c'`. -/
structure NegotiatedCaps.Extends (c c' : NegotiatedCaps) : Prop where
  localH3 : ∀ v, c.localH3Datagram = some v → c'.localH3Datagram = some v
  peerH3 : ∀ v, c.peerH3Datagram = some v → c'.peerH3Datagram = some v
  localCapsule : ∀ v, c.localCapsuleProtocol = some v → c'.localCapsuleProtocol = some v
  peerCapsule : ∀ v, c.peerCapsuleProtocol = some v → c'.peerCapsuleProtocol = some v

namespace NegotiatedCaps.Extends

variable {c c' c'' : NegotiatedCaps}

theorem rfl : c.Extends c :=
  ⟨fun _ => id, fun _ => id, fun _ => id, fun _ => id⟩

theorem trans (h : c.Extends c') (h' : c'.Extends c'') : c.Extends c'' :=
  ⟨fun v hv => h'.localH3 v (h.localH3 v hv), fun v hv => h'.peerH3 v (h.peerH3 v hv),
    fun v hv => h'.localCapsule v (h.localCapsule v hv),
    fun v hv => h'.peerCapsule v (h.peerCapsule v hv)⟩

end NegotiatedCaps.Extends

namespace Session

/-- What a call that is not a conflict records: its value, in its own empty slot. -/
inductive Records (s : Session) : Call → Session → Prop
  | localH3 {v : H3DatagramSettingValue} (h : s.caps.localH3Datagram = none) :
      Records s (.setLocalH3Datagram v) { s with caps.localH3Datagram := some v }
  | peerH3 {v : H3DatagramSettingValue} (h : s.caps.peerH3Datagram = none) :
      Records s (.negotiatePeerH3Datagram v) { s with caps.peerH3Datagram := some v }
  | localCapsule {v : Bool} (h : s.caps.localCapsuleProtocol = none) :
      Records s (.setLocalCapsuleProtocol v) { s with caps.localCapsuleProtocol := some v }
  | peerCapsule {v : Bool} (h : s.caps.peerCapsuleProtocol = none) :
      Records s (.negotiatePeerCapsuleProtocol v) { s with caps.peerCapsuleProtocol := some v }

theorem recordOnce_of_none {α : Type} {s t : Session} {slot : Option α} {f : α → Error}
    (h : slot = none) : s.recordOnce slot f t = (.ok (), t) := by
  rw [h]
  rfl

theorem recordOnce_of_some {α : Type} {s t : Session} {slot : Option α} {f : α → Error}
    {v : α} (h : slot = some v) : s.recordOnce slot f t = (.err (f v), s) := by
  rw [h]
  rfl

/-- A call is a conflict and leaves the session as it is, or records its value. -/
theorem step_cases (s : Session) (c : Call) :
    (∃ e, machine.step s c = (.err e, s)) ∨
      ∃ s', machine.step s c = (.ok (), s') ∧ Records s c s' := by
  cases c with
  | setLocalH3Datagram v =>
    cases h : s.caps.localH3Datagram with
    | none => exact .inr ⟨_, recordOnce_of_none h, .localH3 h⟩
    | some previous => exact .inl ⟨_, recordOnce_of_some h⟩
  | negotiatePeerH3Datagram v =>
    cases h : s.caps.peerH3Datagram with
    | none => exact .inr ⟨_, recordOnce_of_none h, .peerH3 h⟩
    | some previous => exact .inl ⟨_, recordOnce_of_some h⟩
  | setLocalCapsuleProtocol v =>
    cases h : s.caps.localCapsuleProtocol with
    | none => exact .inr ⟨_, recordOnce_of_none h, .localCapsule h⟩
    | some previous => exact .inl ⟨_, recordOnce_of_some h⟩
  | negotiatePeerCapsuleProtocol v =>
    cases h : s.caps.peerCapsuleProtocol with
    | none => exact .inr ⟨_, recordOnce_of_none h, .peerCapsule h⟩
    | some previous => exact .inl ⟨_, recordOnce_of_some h⟩

variable {s s' : Session} {c : Call}

theorem Records.protocol_eq (h : Records s c s') : s'.protocol = s.protocol := by
  cases h <;> rfl

theorem Records.extends (h : Records s c s') : s.caps.Extends s'.caps := by
  cases h with
  | localH3 h => exact ⟨by simp [h], fun _ => id, fun _ => id, fun _ => id⟩
  | peerH3 h => exact ⟨fun _ => id, by simp [h], fun _ => id, fun _ => id⟩
  | localCapsule h => exact ⟨fun _ => id, fun _ => id, by simp [h], fun _ => id⟩
  | peerCapsule h => exact ⟨fun _ => id, fun _ => id, fun _ => id, by simp [h]⟩

/-- A step keeps the protocol and everything recorded. -/
theorem step_extends (s : Session) (c : Call) :
    (machine.step s c).2.protocol = s.protocol ∧
      s.caps.Extends (machine.step s c).2.caps := by
  rcases step_cases s c with ⟨e, h⟩ | ⟨s', h, hrecords⟩
  · rw [h]
    exact ⟨rfl, .rfl⟩
  · rw [h]
    exact ⟨hrecords.protocol_eq, hrecords.extends⟩

/-- A peer value that is there after a step was there before it, or was delivered by it. -/
theorem peerH3_of_step {v : H3DatagramSettingValue}
    (h : (machine.step s c).2.caps.peerH3Datagram = some v) :
    s.caps.peerH3Datagram = some v ∨ c = .negotiatePeerH3Datagram v := by
  rcases step_cases s c with ⟨e, hstep⟩ | ⟨s', hstep, hrecords⟩
  · rw [hstep] at h
    exact .inl h
  · rw [hstep] at h
    cases hrecords with
    | peerH3 _ => exact .inr (congrArg _ (Option.some.inj h))
    | localH3 _ => exact .inl h
    | localCapsule _ => exact .inl h
    | peerCapsule _ => exact .inl h

theorem peerCapsule_of_step {v : Bool}
    (h : (machine.step s c).2.caps.peerCapsuleProtocol = some v) :
    s.caps.peerCapsuleProtocol = some v ∨ c = .negotiatePeerCapsuleProtocol v := by
  rcases step_cases s c with ⟨e, hstep⟩ | ⟨s', hstep, hrecords⟩
  · rw [hstep] at h
    exact .inl h
  · rw [hstep] at h
    cases hrecords with
    | peerCapsule _ => exact .inr (congrArg _ (Option.some.inj h))
    | localH3 _ => exact .inl h
    | localCapsule _ => exact .inl h
    | peerH3 _ => exact .inl h

/-- An own value set with success is recorded. -/
theorem localH3_of_step {v : H3DatagramSettingValue}
    (h : (machine.step s (.setLocalH3Datagram v)).1 = .ok ()) :
    (machine.step s (.setLocalH3Datagram v)).2.caps.localH3Datagram = some v := by
  rcases step_cases s (.setLocalH3Datagram v) with ⟨e, hstep⟩ | ⟨s', hstep, hrecords⟩
  · simp [hstep] at h
  · rw [hstep]
    cases hrecords with
    | localH3 _ => rfl

theorem localCapsule_of_step {v : Bool}
    (h : (machine.step s (.setLocalCapsuleProtocol v)).1 = .ok ()) :
    (machine.step s (.setLocalCapsuleProtocol v)).2.caps.localCapsuleProtocol = some v := by
  rcases step_cases s (.setLocalCapsuleProtocol v) with ⟨e, hstep⟩ | ⟨s', hstep, hrecords⟩
  · simp [hstep] at h
  · rw [hstep]
    cases hrecords with
    | localCapsule _ => rfl

end Session

end Recording

section Selection

namespace Session

variable {s s' : Session} {k : UdpCarrier}

/-- The carrier selected by two finalized settings and the capsule values. -/
inductive Selects (c : NegotiatedCaps) : UdpCarrier → Prop
  | h3Datagram {own peer : H3DatagramSettingValue} (hown : c.localH3Datagram = some own)
      (hpeer : c.peerH3Datagram = some peer)
      (henabled : (own.isEnabled && peer.isEnabled) = true) : Selects c .h3Datagram
  | datagramCapsule {own peer : H3DatagramSettingValue} (hown : c.localH3Datagram = some own)
      (hpeer : c.peerH3Datagram = some peer)
      (hdisabled : (own.isEnabled && peer.isEnabled) = false)
      (hlocal : c.localCapsuleProtocol = some true)
      (hremote : c.peerCapsuleProtocol = some true) : Selects c .datagramCapsule

/-- The gates of the two carriers follow the selection. -/
theorem Selects.gates (h : Selects s.caps k) :
    s.isH3DatagramEnabled = decide (k = .h3Datagram) ∧
      s.isDatagramCapsuleEnabled = decide (k = .datagramCapsule) := by
  cases h with
  | h3Datagram hown hpeer henabled =>
    simp [isH3DatagramEnabled, isDatagramCapsuleEnabled, hown, hpeer, henabled]
  | datagramCapsule hown hpeer hdisabled hlocal hremote =>
    simp [isH3DatagramEnabled, isDatagramCapsuleEnabled, hown, hpeer, hdisabled, hlocal, hremote]

theorem selects_of_isH3DatagramEnabled (h : s.isH3DatagramEnabled = true) :
    Selects s.caps .h3Datagram := by
  unfold isH3DatagramEnabled at h
  split at h
  · next own peer hown hpeer => exact .h3Datagram hown hpeer h
  · cases h

theorem selects_of_isDatagramCapsuleEnabled (h : s.isDatagramCapsuleEnabled = true) :
    Selects s.caps .datagramCapsule := by
  simp only [isDatagramCapsuleEnabled, Bool.and_eq_true, Option.isSome_iff_exists,
    Bool.not_eq_true'] at h
  obtain ⟨⟨⟨⟨own, hown⟩, peer, hpeer⟩, hdisabled⟩, hcapsule⟩ := h
  split at hcapsule
  · next hlocal hremote =>
    refine .datagramCapsule hown hpeer ?_ hlocal hremote
    simpa [isH3DatagramEnabled, hown, hpeer] using hdisabled
  · cases hcapsule

/-- A carrier is returned exactly when it is the one selected by what is recorded. -/
theorem selectUdpCarrier_eq_ok :
    s.selectUdpCarrier = .ok k ↔ s.protocol = .connectUdp ∧ Selects s.caps k := by
  unfold selectUdpCarrier
  constructor
  · intro h
    split_ifs at h with hprotocol hh3 hcapsule
    · obtain rfl := ok.inj h
      exact ⟨not_not.mp hprotocol, selects_of_isH3DatagramEnabled hh3⟩
    · obtain rfl := ok.inj h
      exact ⟨not_not.mp hprotocol, selects_of_isDatagramCapsuleEnabled hcapsule⟩
  · rintro ⟨hprotocol, hselects⟩
    obtain ⟨hh3, hcapsule⟩ := hselects.gates
    rw [if_neg (not_not.mpr hprotocol), hh3, hcapsule]
    cases k <;> rfl

theorem Selects.mono {c c' : NegotiatedCaps} (h : Selects c k) (hext : c.Extends c') :
    Selects c' k := by
  cases h with
  | h3Datagram hown hpeer henabled =>
    exact .h3Datagram (hext.localH3 _ hown) (hext.peerH3 _ hpeer) henabled
  | datagramCapsule hown hpeer hdisabled hlocal hremote =>
    exact .datagramCapsule (hext.localH3 _ hown) (hext.peerH3 _ hpeer) hdisabled
      (hext.localCapsule _ hlocal) (hext.peerCapsule _ hremote)

end Session

end Selection

/-- The two ends of a request. -/
inductive Side where
  | client
  | proxy
  deriving DecidableEq, Repr

def Side.other : Side → Side
  | .client => .proxy
  | .proxy => .client

/-- The sessions of the two ends. -/
abbrev Endpoints := Side → Session

namespace Endpoints

open Session (Call)

/-- Two new sessions for CONNECT-UDP. -/
def fresh : Endpoints := fun _ => .new .connectUdp

/-- Each call goes to one end and leaves the other as it is. -/
def machine : Mealy Endpoints (Side × Call) (Result Unit) where
  step e i :=
    let r := Session.machine.step (e i.1) i.2
    (r.1, Function.update e i.1 r.2)

/-- A call of a run with its answer. -/
abbrev Event := (Side × Call) × Result Unit

/-- A peer value is one that the other side has recorded as its own, in a call that was
answered with success. -/
def Delivered (past : List Event) : Side × Call → Prop
  | (side, .negotiatePeerH3Datagram v) =>
    ((side.other, .setLocalH3Datagram v), .ok ()) ∈ past
  | (side, .negotiatePeerCapsuleProtocol v) =>
    ((side.other, .setLocalCapsuleProtocol v), .ok ()) ∈ past
  | _ => True

/-- The transport delivers settings and headers faithfully, in any order and any number of
times. -/
def Faithful (calls : List (Side × Call)) : Prop :=
  ∀ front i rest, calls = front ++ i :: rest →
    Delivered (front.zip (machine.outputs fresh front)) i

theorem faithful_nil : Faithful [] := by
  intro front i rest h
  simp at h

/-- A faithful run goes on faithfully with a delivered call. -/
theorem Faithful.concat {calls : List (Side × Call)} {i : Side × Call} (h : Faithful calls)
    (hi : Delivered (calls.zip (machine.outputs fresh calls)) i) : Faithful (calls ++ [i]) := by
  intro front j rest heq
  rcases List.eq_nil_or_concat rest with rfl | ⟨rest, k, rfl⟩
  · obtain ⟨rfl, rfl⟩ : calls = front ∧ i = j := by simpa using heq
    exact hi
  · refine h front j rest ?_
    rw [List.concat_eq_append, ← List.cons_append, ← List.append_assoc] at heq
    exact (List.append_inj' heq rfl).1

/-- The peer values of `s` are the own values of `t`. -/
structure Linked (s t : Session) : Prop where
  h3 : ∀ v, s.caps.peerH3Datagram = some v → t.caps.localH3Datagram = some v
  capsule : ∀ v, s.caps.peerCapsuleProtocol = some v → t.caps.localCapsuleProtocol = some v

/-- What holds along a faithful run: both sessions are for CONNECT-UDP, what a side has
recorded of its own is still there, and the peer values are the other side's. -/
structure Inv (past : List Event) (e : Endpoints) : Prop where
  protocol : ∀ side, (e side).protocol = .connectUdp
  ownH3 : ∀ side v, ((side, .setLocalH3Datagram v), .ok ()) ∈ past →
    (e side).caps.localH3Datagram = some v
  ownCapsule : ∀ side v, ((side, .setLocalCapsuleProtocol v), .ok ()) ∈ past →
    (e side).caps.localCapsuleProtocol = some v
  linked : ∀ side, Linked (e side) (e side.other)

theorem inv_fresh : Inv [] fresh :=
  ⟨fun _ => rfl, by simp, by simp,
    fun _ => ⟨by simp [fresh, Session.new], by simp [fresh, Session.new]⟩⟩

/-- No step takes back what an end has recorded. -/
theorem step_extends (e : Endpoints) (i : Side × Call) (side : Side) :
    ((machine.step e i).2 side).protocol = (e side).protocol ∧
      (e side).caps.Extends ((machine.step e i).2 side).caps := by
  by_cases h : side = i.1
  · subst h
    simpa [machine] using Session.step_extends (e i.1) i.2
  · simpa [machine, Function.update_of_ne h] using NegotiatedCaps.Extends.rfl

theorem after_extends (e : Endpoints) (more : List (Side × Call)) (side : Side) :
    ((machine.after e more) side).protocol = (e side).protocol ∧
      (e side).caps.Extends ((machine.after e more) side).caps := by
  refine machine.after_invariant
    (P := fun e' => (e' side).protocol = (e side).protocol ∧
      (e side).caps.Extends (e' side).caps) ?_ ⟨rfl, .rfl⟩ more
  rintro e' i ⟨hprotocol, hext⟩
  obtain ⟨hprotocol', hext'⟩ := step_extends e' i side
  exact ⟨hprotocol'.trans hprotocol, hext.trans hext'⟩

/-- A call that is answered with an error changes neither session. -/
theorem step_of_err {e : Endpoints} {i : Side × Call} {err : Error}
    (h : (machine.step e i).1 = .err err) : (machine.step e i).2 = e := by
  rcases Session.step_cases (e i.1) i.2 with ⟨e', h'⟩ | ⟨s', h', _⟩
  · simp [machine, h']
  · simp [machine, h'] at h

theorem step_apply_self (e : Endpoints) (side : Side) (c : Call) :
    (machine.step e (side, c)).2 side = (Session.machine.step (e side) c).2 :=
  Function.update_self _ _ _

/-- What a side has after a step, it had before, or the step was a call on it. -/
theorem step_apply (e : Endpoints) (i : Side × Call) (side : Side) :
    (machine.step e i).2 side = e side ∨
      side = i.1 ∧ (machine.step e i).2 side = (Session.machine.step (e side) i.2).2 := by
  by_cases h : side = i.1
  · subst h
    exact .inr ⟨rfl, step_apply_self e i.1 i.2⟩
  · exact .inl (Function.update_of_ne h _ _)

/-- A delivered call keeps the invariant. -/
theorem Inv.step {past : List Event} {e : Endpoints} (h : Inv past e) {i : Side × Call}
    (hdelivered : Delivered past i) :
    Inv (past ++ [(i, (machine.step e i).1)]) (machine.step e i).2 := by
  have hext (side : Side) := (step_extends e i side).2
  refine ⟨fun side => ?_, fun side v hv => ?_, fun side v hv => ?_, fun side => ⟨?_, ?_⟩⟩
  · exact (step_extends e i side).1.trans (h.protocol side)
  -- What a side has sent is a setting of its own; nothing ever takes it back.
  · rcases List.mem_append.mp hv with hv | hv
    · exact (hext side).localH3 v (h.ownH3 side v hv)
    · obtain ⟨rfl, hok⟩ := Prod.ext_iff.mp (List.mem_singleton.mp hv)
      rw [step_apply_self]
      exact Session.localH3_of_step hok.symm
  · rcases List.mem_append.mp hv with hv | hv
    · exact (hext side).localCapsule v (h.ownCapsule side v hv)
    · obtain ⟨rfl, hok⟩ := Prod.ext_iff.mp (List.mem_singleton.mp hv)
      rw [step_apply_self]
      exact Session.localCapsule_of_step hok.symm
  -- What a side has received, the other side had sent when the call was made.
  · intro v hv
    refine (hext side.other).localH3 v ?_
    rcases step_apply e i side with hsame | ⟨rfl, hcall⟩
    · exact (h.linked side).h3 v (hsame ▸ hv)
    · rw [hcall] at hv
      obtain ⟨side, call⟩ := i
      rcases Session.peerH3_of_step hv with hold | rfl
      · exact (h.linked side).h3 v hold
      · exact h.ownH3 side.other v hdelivered
  · intro v hv
    refine (hext side.other).localCapsule v ?_
    rcases step_apply e i side with hsame | ⟨rfl, hcall⟩
    · exact (h.linked side).capsule v (hsame ▸ hv)
    · rw [hcall] at hv
      obtain ⟨side, call⟩ := i
      rcases Session.peerCapsule_of_step hv with hold | rfl
      · exact (h.linked side).capsule v hold
      · exact h.ownCapsule side.other v hdelivered

/-- Every faithful run leads to a state with the invariant. -/
theorem inv_of_faithful {calls : List (Side × Call)} (h : Faithful calls) :
    Inv (calls.zip (machine.outputs fresh calls)) (machine.after fresh calls) := by
  induction calls using List.reverseRecOn with
  | nil => exact inv_fresh
  | append_singleton calls i ih =>
    have hfront : Faithful calls := by
      intro front j rest hcalls
      exact h front j (rest ++ [i]) (by rw [hcalls]; simp)
    have hstep := (ih hfront).step (h calls i [] rfl)
    rw [Mealy.outputs_append, Mealy.after_append,
      List.zip_append (machine.length_outputs fresh calls).symm]
    exact hstep

/-- Linked sessions select the same carrier. -/
theorem carrier_agree {s t : Session} {k k' : UdpCarrier} (hst : Linked s t)
    (hts : Linked t s) (hk : Session.Selects s.caps k) (hk' : Session.Selects t.caps k') :
    k = k' := by
  -- Both selections read the same pair of settings, each in its own order.
  obtain ⟨own, peer, hown, hpeer, hflag⟩ : ∃ own peer, s.caps.localH3Datagram = some own ∧
      s.caps.peerH3Datagram = some peer ∧
      (own.isEnabled && peer.isEnabled) = decide (k = .h3Datagram) := by
    cases hk with
    | h3Datagram hown hpeer henabled => exact ⟨_, _, hown, hpeer, henabled⟩
    | datagramCapsule hown hpeer hdisabled _ _ => exact ⟨_, _, hown, hpeer, hdisabled⟩
  have hown' := hst.h3 _ hpeer
  have hflag' : (peer.isEnabled && own.isEnabled) = decide (k' = .h3Datagram) := by
    cases hk' with
    | h3Datagram hlocal hremote henabled =>
      have hremote' := hts.h3 _ hremote
      rw [hown'] at hlocal
      rw [hown] at hremote'
      rw [Option.some.inj hlocal, Option.some.inj hremote', henabled]
      rfl
    | datagramCapsule hlocal hremote hdisabled _ _ =>
      have hremote' := hts.h3 _ hremote
      rw [hown'] at hlocal
      rw [hown] at hremote'
      rw [Option.some.inj hlocal, Option.some.inj hremote', hdisabled]
      rfl
  rw [Bool.and_comm, hflag] at hflag'
  cases k <;> cases k' <;> simp_all

section Delivery

open UdpAssociation

/-- A payload sent by `a` on a carrier and received by `b`. -/
def Delivers (a b : UdpAssociation) (p : List UInt8) : UdpCarrier → Prop
  | .h3Datagram => ∃ d, a.encodeH3Datagram p = .ok d ∧ b.decodeH3Datagram d = .ok p
  | .datagramCapsule =>
    ∃ c, a.encodeDatagramCapsule p = .ok c ∧ b.decodeDatagramCapsule c = .ok p

/-- The methods of the carrier that was not selected refuse everything as not negotiated. -/
def RefusesOther (a : UdpAssociation) : UdpCarrier → Prop
  | .h3Datagram => ∃ e, e.datagramKind = some .notNegotiated ∧
      (∀ p, a.encodeDatagramCapsule p = .err e) ∧ ∀ c, a.decodeDatagramCapsule c = .err e
  | .datagramCapsule => ∃ e, e.datagramKind = some .notNegotiated ∧
      (∀ p, a.encodeH3Datagram p = .err e) ∧ ∀ d, a.decodeH3Datagram d = .err e

variable {a b : UdpAssociation} {k : UdpCarrier}

/-- Associations with one carrier, one stream and one limit deliver every payload within
the limit. -/
theorem delivers_of_selects (ha : Session.Selects a.session.caps k)
    (hb : Session.Selects b.session.caps k) (hstream : a.streamId = b.streamId)
    (hfamily : a.target.SameFamily b.target) {p : List UInt8}
    (hp : p.length ≤ maxPayloadForAddr a.target) : Delivers a b p k := by
  obtain ⟨d, _, hcarries⟩ := exists_carries hp
  have hcarries' : Carries b d p :=
    ⟨hcarries.streamId_eq.trans hstream, hcarries.payload_eq,
      maxPayloadForAddr_of_sameFamily hfamily ▸ hp⟩
  cases k with
  | h3Datagram =>
    exact ⟨d, (encodeH3Datagram_eq_ok ha.gates.1).mpr hcarries,
      (decodeH3Datagram_eq_ok hb.gates.1).mpr hcarries'⟩
  | datagramCapsule =>
    exact ⟨⟨d⟩, (encodeDatagramCapsule_eq_ok ha.gates.2).mpr hcarries,
      (decodeDatagramCapsule_eq_ok hb.gates.2).mpr hcarries'⟩

theorem refusesOther_of_selects (ha : Session.Selects a.session.caps k) :
    RefusesOther a k := by
  cases k with
  | h3Datagram => exact refuses_of_not_datagramCapsule ha.gates.2
  | datagramCapsule => exact refuses_of_not_h3Datagram ha.gates.1

end Delivery

/-- Negotiation is stable, and the two ends agree: a conflict changes nothing, nothing
recorded is replaced, a selected carrier stays selected, both ends select the same one, and
associations bound with these sessions deliver on it and refuse the other. -/
theorem negotiation_agrees (calls : List (Side × Call)) (h : Faithful calls) :
    (∀ i err, (machine.step (machine.after fresh calls) i).1 = .err err →
      (machine.step (machine.after fresh calls) i).2 = machine.after fresh calls) ∧
    (∀ side more, (machine.after fresh calls side).caps.Extends
      (machine.after fresh (calls ++ more) side).caps) ∧
    (∀ side k more, (machine.after fresh calls side).selectUdpCarrier = .ok k →
      (machine.after fresh (calls ++ more) side).selectUdpCarrier = .ok k) ∧
    (∀ side k k', (machine.after fresh calls side).selectUdpCarrier = .ok k →
      (machine.after fresh calls side.other).selectUdpCarrier = .ok k' →
      k = k' ∧
      ∀ a b : UdpAssociation, a.session = machine.after fresh calls side →
        b.session = machine.after fresh calls side.other → a.streamId = b.streamId →
        a.target.SameFamily b.target →
        RefusesOther a k ∧ RefusesOther b k ∧
          ∀ p, p.length ≤ maxPayloadForAddr a.target → Delivers a b p k) := by
  have hinv := inv_of_faithful h
  refine ⟨fun i err => step_of_err, fun side more => ?_, fun side k more hk => ?_,
    fun side k k' hk hk' => ?_⟩
  · rw [Mealy.after_append]
    exact (after_extends _ more side).2
  · obtain ⟨hprotocol, hselects⟩ := Session.selectUdpCarrier_eq_ok.mp hk
    obtain ⟨hprotocol', hext⟩ := after_extends (machine.after fresh calls) more side
    rw [Mealy.after_append]
    exact Session.selectUdpCarrier_eq_ok.mpr
      ⟨hprotocol'.trans hprotocol, hselects.mono hext⟩
  · obtain ⟨_, hselects⟩ := Session.selectUdpCarrier_eq_ok.mp hk
    obtain ⟨_, hselects'⟩ := Session.selectUdpCarrier_eq_ok.mp hk'
    have hother : side.other.other = side := by cases side <;> rfl
    have hback := hinv.linked side.other
    rw [hother] at hback
    obtain rfl := carrier_agree (hinv.linked side) hback hselects hselects'
    refine ⟨rfl, fun a b ha hb hstream hfamily => ?_⟩
    rw [← ha] at hselects
    rw [← hb] at hselects'
    exact ⟨refusesOther_of_selects hselects, refusesOther_of_selects hselects',
      fun p => delivers_of_selects hselects hselects' hstream hfamily⟩

/-- Both ends enable HTTP/3 Datagrams; the settings of the proxy arrive twice. -/
def settingsExchange : List (Side × Call) :=
  [(.client, .setLocalH3Datagram .enabled), (.proxy, .setLocalH3Datagram .enabled),
    (.proxy, .negotiatePeerH3Datagram .enabled), (.client, .negotiatePeerH3Datagram .enabled),
    (.client, .negotiatePeerH3Datagram .enabled)]

theorem settingsExchange_agrees :
    (∃ e, (machine.step (machine.after fresh settingsExchange)
      (.proxy, .setLocalH3Datagram .disabled)).1 = .err e) ∧
    (machine.step (machine.after fresh settingsExchange)
      (.proxy, .setLocalH3Datagram .disabled)).2 = machine.after fresh settingsExchange ∧
    (machine.after fresh settingsExchange .client).selectUdpCarrier = .ok .h3Datagram ∧
    ∀ more, (machine.after fresh (settingsExchange ++ more) .client).selectUdpCarrier =
      .ok .h3Datagram := by
  have hagrees := negotiation_agrees settingsExchange
    (((((faithful_nil.concat (i := (.client, .setLocalH3Datagram .enabled)) trivial).concat
      (i := (.proxy, .setLocalH3Datagram .enabled)) trivial).concat
      (i := (.proxy, .negotiatePeerH3Datagram .enabled)) (.head _)).concat
      (i := (.client, .negotiatePeerH3Datagram .enabled)) (.tail _ (.head _))).concat
      (i := (.client, .negotiatePeerH3Datagram .enabled)) (.tail _ (.head _)))
  exact ⟨⟨_, rfl⟩, hagrees.1 _ _ rfl, rfl, fun more => hagrees.2.2.1 .client .h3Datagram more rfl⟩

end Endpoints

end Masque

import Masque.Library.WriteOnce
import Masque.Session.Negotiation

/-!
# What a session records

A session is four slots that are written once: each holds the value of the first call for it,
and every later call for it is answered with a conflict of the two values
(`session_records`). When both ends have all four, the negotiation is over and decided by
what the ends advertised first (`exchange_decides`).
-/

namespace Masque

open Outcome

namespace Session

/-- The slots of `NegotiatedCaps`. -/
inductive Slot where
  | localH3Datagram
  | peerH3Datagram
  | localCapsuleProtocol
  | peerCapsuleProtocol
  deriving DecidableEq

/-- The slot that a call is for. -/
def Call.slot : Call → Slot
  | .setLocalH3Datagram _ => .localH3Datagram
  | .negotiatePeerH3Datagram _ => .peerH3Datagram
  | .setLocalCapsuleProtocol _ => .localCapsuleProtocol
  | .negotiatePeerCapsuleProtocol _ => .peerCapsuleProtocol

/-- The calls whose values a session holds. -/
def recorded (s : Session) : Slot → Option Call
  | .localH3Datagram => s.caps.localH3Datagram.map .setLocalH3Datagram
  | .peerH3Datagram => s.caps.peerH3Datagram.map .negotiatePeerH3Datagram
  | .localCapsuleProtocol => s.caps.localCapsuleProtocol.map .setLocalCapsuleProtocol
  | .peerCapsuleProtocol => s.caps.peerCapsuleProtocol.map .negotiatePeerCapsuleProtocol

/-- The error of two calls for one slot. -/
inductive Conflict : Call → Call → Error → Prop
  | localH3 (previous received : H3DatagramSettingValue) :
      Conflict (.setLocalH3Datagram previous) (.setLocalH3Datagram received)
        (.h3SettingsConflict settingsH3Datagram previous.get received.get)
  | peerH3 (previous received : H3DatagramSettingValue) :
      Conflict (.negotiatePeerH3Datagram previous) (.negotiatePeerH3Datagram received)
        (.h3SettingsConflict settingsH3Datagram previous.get received.get)
  | localCapsule (previous received : Bool) :
      Conflict (.setLocalCapsuleProtocol previous) (.setLocalCapsuleProtocol received)
        (.capsuleProtocolConflict previous received)
  | peerCapsule (previous received : Bool) :
      Conflict (.negotiatePeerCapsuleProtocol previous) (.negotiatePeerCapsuleProtocol received)
        (.capsuleProtocolConflict previous received)

/-- The answer to a call, given what its slot holds. -/
inductive Answers : Option Call → Call → Result Unit → Prop
  | recorded (c : Call) : Answers none c (.ok ())
  | conflict {previous c : Call} {e : Error} (h : Conflict previous c e) :
      Answers (some previous) c (.err e)

variable {s t : Session} {c : Call}

/-- A session is its protocol and what it has recorded. -/
theorem ext_recorded (hprotocol : s.protocol = t.protocol) (h : s.recorded = t.recorded) :
    s = t := by
  have hlocalH3 := Option.map_injective (fun _ _ => Call.setLocalH3Datagram.inj)
    (congrFun h .localH3Datagram)
  have hpeerH3 := Option.map_injective (fun _ _ => Call.negotiatePeerH3Datagram.inj)
    (congrFun h .peerH3Datagram)
  have hlocalCapsule := Option.map_injective (fun _ _ => Call.setLocalCapsuleProtocol.inj)
    (congrFun h .localCapsuleProtocol)
  have hpeerCapsule := Option.map_injective (fun _ _ => Call.negotiatePeerCapsuleProtocol.inj)
    (congrFun h .peerCapsuleProtocol)
  obtain ⟨protocol, caps⟩ := s
  obtain ⟨protocol', caps'⟩ := t
  obtain rfl : protocol = protocol' := hprotocol
  obtain ⟨a, b, c, d⟩ := caps
  obtain ⟨a', b', c', d'⟩ := caps'
  obtain rfl : a = a' := hlocalH3
  obtain rfl : b = b' := hpeerH3
  obtain rfl : c = c' := hlocalCapsule
  obtain rfl : d = d' := hpeerCapsule
  rfl

theorem Records.recorded_eq {s' : Session} (h : Records s c s') :
    s'.recorded = Function.update s.recorded c.slot (some c) := by
  cases h <;> funext slot <;> cases slot <;> rfl

/-- A call for a full slot is a conflict with what the slot holds. -/
theorem step_of_full {previous : Call} (h : s.recorded c.slot = some previous) :
    ∃ e, Conflict previous c e ∧ machine.step s c = (.err e, s) := by
  cases c with
  | setLocalH3Datagram v =>
    obtain ⟨w, hw, rfl⟩ := Option.map_eq_some_iff.mp h
    exact ⟨_, .localH3 w v, recordOnce_of_some hw⟩
  | negotiatePeerH3Datagram v =>
    obtain ⟨w, hw, rfl⟩ := Option.map_eq_some_iff.mp h
    exact ⟨_, .peerH3 w v, recordOnce_of_some hw⟩
  | setLocalCapsuleProtocol v =>
    obtain ⟨w, hw, rfl⟩ := Option.map_eq_some_iff.mp h
    exact ⟨_, .localCapsule w v, recordOnce_of_some hw⟩
  | negotiatePeerCapsuleProtocol v =>
    obtain ⟨w, hw, rfl⟩ := Option.map_eq_some_iff.mp h
    exact ⟨_, .peerCapsule w v, recordOnce_of_some hw⟩

/-- A call for an empty slot succeeds and fills it. -/
theorem step_of_empty (h : s.recorded c.slot = none) :
    ∃ s', machine.step s c = (.ok (), s') ∧ Records s c s' := by
  cases c with
  | setLocalH3Datagram v =>
    have hnone := Option.map_eq_none_iff.mp h
    exact ⟨_, recordOnce_of_none hnone, .localH3 hnone⟩
  | negotiatePeerH3Datagram v =>
    have hnone := Option.map_eq_none_iff.mp h
    exact ⟨_, recordOnce_of_none hnone, .peerH3 hnone⟩
  | setLocalCapsuleProtocol v =>
    have hnone := Option.map_eq_none_iff.mp h
    exact ⟨_, recordOnce_of_none hnone, .localCapsule hnone⟩
  | negotiatePeerCapsuleProtocol v =>
    have hnone := Option.map_eq_none_iff.mp h
    exact ⟨_, recordOnce_of_none hnone, .peerCapsule hnone⟩

/-- One call is one write to the slots, answered by what was there. -/
theorem step_recorded (s : Session) (c : Call) :
    Answers (s.recorded c.slot) c (machine.step s c).1 ∧
      (machine.step s c).2.recorded = ((WriteOnce.machine Call.slot).step s.recorded c).2 := by
  cases h : s.recorded c.slot with
  | none =>
    obtain ⟨s', hstep, hrecords⟩ := step_of_empty h
    rw [hstep]
    refine ⟨.recorded c, hrecords.recorded_eq.trans ?_⟩
    show _ = Function.update s.recorded c.slot ((s.recorded c.slot).or (some c))
    rw [h, Option.none_or]
  | some previous =>
    obtain ⟨e, hconflict, hstep⟩ := step_of_full h
    rw [hstep]
    refine ⟨.conflict hconflict, ?_⟩
    show s.recorded = Function.update s.recorded c.slot ((s.recorded c.slot).or (some c))
    rw [h, Option.some_or, ← h, Function.update_eq_self]

/-- After any calls each slot holds the first call for it. -/
theorem recorded_after (protocol : Protocol) (calls : List Call) :
    (machine.after (new protocol) calls).recorded = WriteOnce.first Call.slot calls := by
  have hstart : (new protocol).recorded = fun _ => none := by
    funext slot
    cases slot <;> rfl
  rw [← WriteOnce.after_empty, ← hstart]
  generalize new protocol = s
  induction calls generalizing s with
  | nil => rfl
  | cons c calls ih =>
    rw [Mealy.after_cons, Mealy.after_cons, ih, (step_recorded s c).2]

theorem protocol_after (s : Session) (calls : List Call) :
    (machine.after s calls).protocol = s.protocol :=
  machine.after_invariant (P := fun t => t.protocol = s.protocol)
    (fun t c h => (step_extends t c).1.trans h) rfl calls

/-- A session holds the first value of every slot and nothing else: a call is answered with
success when it is the first for its slot and else with the conflict of the first value and
its own, and sessions with the same calls for each slot are equal, in whatever order the
slots were served. -/
theorem session_records (protocol : Protocol) (calls : List Call) :
    (machine.after (new protocol) calls).recorded = WriteOnce.first Call.slot calls ∧
    (∀ c, Answers (WriteOnce.first Call.slot calls c.slot) c
      (machine.step (machine.after (new protocol) calls) c).1) ∧
    ∀ calls' : List Call, (∀ slot, calls.filter (·.slot = slot) = calls'.filter (·.slot = slot)) →
      machine.after (new protocol) calls = machine.after (new protocol) calls' := by
  refine ⟨recorded_after protocol calls, fun c => ?_, fun calls' h => ?_⟩
  · rw [← recorded_after protocol]
    exact (step_recorded _ c).1
  · apply ext_recorded
    · rw [protocol_after, protocol_after]
    · rw [recorded_after, recorded_after, WriteOnce.first_of_filter_eq Call.slot h]

/-- A session with four full slots. -/
def Complete (s : Session) : Prop := ∀ slot, (s.recorded slot).isSome

/-- The four values of a complete session. -/
theorem Complete.values (h : s.Complete) : ∃ own peer ownCapsule peerCapsule,
    s.caps.localH3Datagram = some own ∧ s.caps.peerH3Datagram = some peer ∧
      s.caps.localCapsuleProtocol = some ownCapsule ∧
      s.caps.peerCapsuleProtocol = some peerCapsule := by
  have hvalue {α : Type} {o : Option α} {f : α → Call} (hf : (o.map f).isSome) :
      ∃ v, o = some v := Option.isSome_iff_exists.mp (Option.isSome_map.symm.trans hf)
  obtain ⟨own, hown⟩ := hvalue (h .localH3Datagram)
  obtain ⟨peer, hpeer⟩ := hvalue (h .peerH3Datagram)
  obtain ⟨ownCapsule, hownCapsule⟩ := hvalue (h .localCapsuleProtocol)
  obtain ⟨peerCapsule, hpeerCapsule⟩ := hvalue (h .peerCapsuleProtocol)
  exact ⟨own, peer, ownCapsule, peerCapsule, hown, hpeer, hownCapsule, hpeerCapsule⟩

/-- Nothing changes a complete session. -/
theorem Complete.step_eq (h : s.Complete) (c : Call) : (machine.step s c).2 = s := by
  obtain ⟨previous, hprevious⟩ := Option.isSome_iff_exists.mp (h c.slot)
  obtain ⟨e, _, hstep⟩ := step_of_full hprevious
  rw [hstep]

end Session

namespace Endpoints

open Session

/-- The carrier for what both ends want: HTTP/3 Datagrams, or else DATAGRAM capsules. -/
def decided (h3Datagram capsuleProtocol : Bool) : Result UdpCarrier :=
  if h3Datagram then .ok .h3Datagram
  else if capsuleProtocol then .ok .datagramCapsule
  else .err (.h3Datagram .notNegotiated "no UDP transport carrier is negotiated for this session")

theorem selectUdpCarrier_eq {s : Session} {own peer : H3DatagramSettingValue}
    {ownCapsule peerCapsule : Bool} (hprotocol : s.protocol = .connectUdp)
    (hown : s.caps.localH3Datagram = some own) (hpeer : s.caps.peerH3Datagram = some peer)
    (hownCapsule : s.caps.localCapsuleProtocol = some ownCapsule)
    (hpeerCapsule : s.caps.peerCapsuleProtocol = some peerCapsule) :
    s.selectUdpCarrier =
      decided (own.isEnabled && peer.isEnabled) (ownCapsule && peerCapsule) := by
  have hgate : s.isH3DatagramEnabled = (own.isEnabled && peer.isEnabled) := by
    rw [isH3DatagramEnabled, hown, hpeer]
  rw [selectUdpCarrier, if_neg (not_not.mpr hprotocol), isDatagramCapsuleEnabled, hgate, hown,
    hpeer, hownCapsule, hpeerCapsule, decided]
  cases own.isEnabled && peer.isEnabled <;> cases ownCapsule <;> cases peerCapsule <;> rfl

/-- The ends are two sessions side by side. -/
theorem machine_eq : machine = Mealy.product fun _ => Session.machine := rfl

/-- Two complete ends ignore every further call. -/
theorem after_complete {e : Endpoints} (h : ∀ side, (e side).Complete)
    (more : List (Side × Call)) : machine.after e more = e := by
  refine machine.after_invariant (P := fun e' => e' = e) ?_ rfl more
  rintro _ i rfl
  exact (congrArg (Function.update _ i.1) ((h i.1).step_eq i.2)).trans
    (Function.update_eq_self _ _)

/-- A complete negotiation is over: no further call changes an end, and both ends answer
alike, with HTTP/3 Datagrams when both first enabled them, else with DATAGRAM capsules when
both first enabled those, else with the error that nothing is negotiated. -/
theorem exchange_decides (calls : List (Side × Call)) (h : Faithful calls)
    (hcomplete : ∀ side, (machine.after fresh calls side).Complete) :
    ∃ (setting : Side → H3DatagramSettingValue) (capsule : Side → Bool),
      (∀ side, WriteOnce.first Call.slot (Mealy.inputsOf side calls) .localH3Datagram =
          some (.setLocalH3Datagram (setting side)) ∧
        WriteOnce.first Call.slot (Mealy.inputsOf side calls) .localCapsuleProtocol =
          some (.setLocalCapsuleProtocol (capsule side))) ∧
      ∀ more, machine.after fresh (calls ++ more) = machine.after fresh calls ∧
        ∀ side, (machine.after fresh (calls ++ more) side).selectUdpCarrier =
          decided ((setting .client).isEnabled && (setting .proxy).isEnabled)
            (capsule .client && capsule .proxy) := by
  have hinv := inv_of_faithful h
  choose setting peer capsule peerCapsule hsetting hpeer hcapsule hpeerCapsule using
    fun side => (hcomplete side).values
  -- What a side has of its peer is what the other side has of its own.
  have hlinked (side : Side) : peer side = setting side.other :=
    Option.some.inj (((hinv.linked side).h3 _ (hpeer side)).symm.trans (hsetting side.other))
  have hlinkedCapsule (side : Side) : peerCapsule side = capsule side.other :=
    Option.some.inj
      (((hinv.linked side).capsule _ (hpeerCapsule side)).symm.trans (hcapsule side.other))
  refine ⟨setting, capsule, fun side => ?_, fun more => ?_⟩
  · rw [← recorded_after .connectUdp]
    have hafter := Mealy.product_after (fun _ => Session.machine) fresh calls side
    rw [← machine_eq] at hafter
    rw [← show fresh side = Session.new .connectUdp from rfl, ← hafter]
    exact ⟨congrArg (Option.map _) (hsetting side), congrArg (Option.map _) (hcapsule side)⟩
  · rw [Mealy.after_append, after_complete hcomplete]
    refine ⟨rfl, fun side => ?_⟩
    rw [selectUdpCarrier_eq (hinv.protocol side) (hsetting side) (hpeer side) (hcapsule side)
      (hpeerCapsule side), hlinked, hlinkedCapsule]
    cases side with
    | client => rfl
    | proxy => exact congrArg₂ decided (Bool.and_comm _ _) (Bool.and_comm _ _)

/-- Both ends disable HTTP/3 Datagrams and want capsules; the client changes its mind in
vain. -/
def capsuleExchange : List (Side × Call) :=
  [(.client, .setLocalH3Datagram .disabled), (.proxy, .setLocalH3Datagram .enabled),
    (.client, .setLocalCapsuleProtocol true), (.proxy, .setLocalCapsuleProtocol true),
    (.client, .setLocalH3Datagram .enabled), (.proxy, .negotiatePeerH3Datagram .disabled),
    (.client, .negotiatePeerH3Datagram .enabled), (.client, .negotiatePeerCapsuleProtocol true),
    (.proxy, .negotiatePeerCapsuleProtocol true)]

theorem exchange_decides_capsules :
    (machine.after fresh capsuleExchange .client).selectUdpCarrier = .ok .datagramCapsule ∧
      ∀ more, machine.after fresh (capsuleExchange ++ more) =
        machine.after fresh capsuleExchange := by
  have hfaithful : Faithful capsuleExchange :=
    ((((((((faithful_nil.concat (i := (.client, .setLocalH3Datagram .disabled)) trivial).concat
      (i := (.proxy, .setLocalH3Datagram .enabled)) trivial).concat
      (i := (.client, .setLocalCapsuleProtocol true)) trivial).concat
      (i := (.proxy, .setLocalCapsuleProtocol true)) trivial).concat
      (i := (.client, .setLocalH3Datagram .enabled)) trivial).concat
      (i := (.proxy, .negotiatePeerH3Datagram .disabled)) (.head _)).concat
      (i := (.client, .negotiatePeerH3Datagram .enabled)) (.tail _ (.head _))).concat
      (i := (.client, .negotiatePeerCapsuleProtocol true))
        (.tail _ (.tail _ (.tail _ (.head _))))).concat
      (i := (.proxy, .negotiatePeerCapsuleProtocol true)) (.tail _ (.tail _ (.head _)))
  have hcomplete : ∀ side, (machine.after fresh capsuleExchange side).Complete := by
    rintro (_ | _) (_ | _ | _ | _) <;> rfl
  obtain ⟨_, _, _, hdecided⟩ := exchange_decides capsuleExchange hfaithful hcomplete
  exact ⟨rfl, fun more => (hdecided more).1⟩

end Endpoints

end Masque

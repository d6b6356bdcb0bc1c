import Masque.Association.Faults
import Masque.Capsule.InPlace
import Masque.Capsule.ParserRuns
import Masque.CapsuleProtocol.Acceptance
import Masque.Config
import Masque.ConnectUdp.Faults
import Masque.QuicVarint.EntryPoints

/-!
# Panics

The calls of the crate's interface as one type, the methods of a bound socket and of a
connection and those that only read a field aside, and the one among them that panics: every
index, slice and subtraction of the others is within its bounds, whatever a peer has sent and
whatever the arguments are.
-/

namespace Masque

open Outcome

/-! ## Calls without an error of their own -/

namespace QuicVarint

theorem encode_eq_panic {value : UInt64} : encode value = .panic ↔ maxVarint < value := by
  by_cases hv : value ≤ maxVarint
  · rw [encode_eq hv]
    exact iff_of_false (ok_ne_panic _) (UInt64.not_lt.mpr hv)
  · rw [encode, if_neg hv]
    exact iff_of_true rfl (UInt64.not_le.mp hv)

theorem tryEncode_total (value : UInt64) : tryEncode value ≠ .panic := by
  by_cases hv : value ≤ maxVarint
  · rw [tryEncode_eq hv]
    exact ok_ne_panic _
  · rw [tryEncode, ensureValid, if_pos (UInt64.not_le.mp hv)]
    exact err_ne_panic _

theorem encodeIntoAt_total (value : UInt64) (buf : List UInt8) (offset : ℕ) :
    (encodeIntoAt value buf offset).1 ≠ .panic := by
  obtain ⟨-, -, -, h⟩ | ⟨kind, message, h, -⟩ := encodeIntoAt_cases value buf offset
  · rw [h]
    exact ok_ne_panic _
  · rw [h]
    exact err_ne_panic _

theorem decode_ne_panic (buf : List UInt8) : decode buf ≠ .panic := by
  obtain ⟨v, n, h, -⟩ | ⟨e, h⟩ := decode_total buf
  · rw [h]
    exact ok_ne_panic _
  · rw [h]
    exact err_ne_panic e

theorem decodeAt_ne_panic (buf : List UInt8) (offset : ℕ) : decodeAt buf offset ≠ .panic := by
  rw [decodeAt]
  split_ifs with hempty hlen
  · exact err_ne_panic _
  · exact err_ne_panic _
  · rw [sliceFrom_eq_ok (by omega), ok_bind, ← decode_eq_decodeInner]
    exact decode_ne_panic _

end QuicVarint

theorem CapsuleType.new_total (value : UInt64) : CapsuleType.new value ≠ .panic := by
  rw [CapsuleType.new]
  split_ifs
  · exact ok_ne_panic _
  · exact err_ne_panic _

namespace Capsule

theorem new_total (t : CapsuleType) (value : List UInt8) : new t value ≠ .panic := by
  rw [new, validateLength]
  refine bind_ne_panic ?_ fun _ _ => ok_ne_panic _
  cases Usize.toU64 value.length with
  | none => exact err_ne_panic _
  | some len =>
    dsimp only
    split_ifs
    · exact err_ne_panic _
    · exact ok_ne_panic _

theorem encode_total {c : Capsule} (h : c.Built) : c.encode ≠ .panic := by
  rw [encode_eq (built_iff_valid.mp h)]
  exact ok_ne_panic _

theorem encodeInto_total {c : Capsule} (h : c.Built) (buf : List UInt8) :
    (c.encodeInto buf).1 ≠ .panic := by
  have hvalid := built_iff_valid.mp h
  have htotal := checkedAdd_length_wire hvalid
  by_cases hfit : c.wire.length ≤ buf.length
  · obtain ⟨n, m, buf₁, buf₂, htype, hlength, hvalue⟩ := writes_of_le hvalid hfit
    have hroom : ¬buf.length < c.wire.length := not_lt.mpr hfit
    simp only [encodeInto, htotal, htype, Nat.zero_add, hlength, hvalue, if_neg hroom]
    exact ok_ne_panic _
  · have hshort : buf.length < c.wire.length := not_le.mp hfit
    simp only [encodeInto, htotal, if_pos hshort]
    exact err_ne_panic _

end Capsule

theorem CapsuleParser.finalize_total (p : CapsuleParser) : p.finalize ≠ .panic := by
  rw [finalize]
  split_ifs
  · exact ok_ne_panic _
  · exact err_ne_panic _

namespace HttpDatagram

theorem new_total (streamId : UInt64) (payload : List UInt8) : new streamId payload ≠ .panic := by
  rw [new, validateStreamId]
  split_ifs
  · exact err_ne_panic _
  · exact err_ne_panic _
  · exact ok_ne_panic _

theorem encodeH3_total (d : HttpDatagram) : d.encodeH3 ≠ .panic := by
  rw [encodeH3_eq]
  exact ok_ne_panic _

theorem decodeH3_total (buf : List UInt8) : decodeH3 buf ≠ .panic := by
  rw [decodeH3]
  obtain ⟨v, n, h, hle⟩ | ⟨e, h⟩ := QuicVarint.decode_total buf
  · rw [h, mapErr_ok, ok_bind]
    dsimp only
    split_ifs
    · exact err_ne_panic _
    · rw [sliceFrom_eq_ok hle]
      exact ok_ne_panic _
  · rw [h]
    exact err_ne_panic _

end HttpDatagram

namespace DatagramCapsule

/-- A payload whose length is no varint is refused by the varint encoder. -/
theorem encodeInto_total (c : DatagramCapsule) (buf : List UInt8) :
    (c.encodeInto buf).1 ≠ .panic := by
  by_cases hlen : UInt64.ofNat c.datagram.payload.length ≤ QuicVarint.maxVarint
  · simp only [encodeInto, QuicVarint.encodeInto_zeros CapsuleType.datagram.value_le,
      QuicVarint.encodeInto_zeros hlen, ok_bind]
    rw [slice_zero_append _ _ (TaggedInt.length_canonical _).symm, ok_bind,
      slice_zero_append _ _ (TaggedInt.length_canonical _).symm, ok_bind]
    exact ok_ne_panic ()
  · obtain ⟨message, h⟩ := QuicVarint.encodeIntoAt_of_lt (List.replicate 8 0) 0
      (UInt64.not_le.mp hlen)
    simp only [encodeInto, QuicVarint.encodeInto_zeros CapsuleType.datagram.value_le, ok_bind]
    rw [QuicVarint.encodeInto, h]
    exact err_ne_panic _

theorem encode_total (c : DatagramCapsule) : c.encode ≠ .panic := by
  rw [encode]
  exact bind_ne_panic (c.encodeInto_total []) fun _ _ => ok_ne_panic _

theorem decode_total (buf : List UInt8) (streamId : UInt64) : decode buf streamId ≠ .panic := by
  rw [decode]
  refine bind_ne_panic (Capsule.decode_ne_panic buf) fun r _ => ?_
  dsimp only
  split_ifs
  · exact bind_ne_panic (HttpDatagram.new_total _ _) fun _ _ => ok_ne_panic _
  · exact err_ne_panic _

end DatagramCapsule

theorem CapsuleProtocol.parse_total (value : String) : parseCapsuleProtocol value ≠ .panic := by
  by_cases hempty : Utf8.bytes (trimSp value) = []
  · rw [parse_of_empty hempty]
    exact err_ne_panic _
  by_cases hflag : IsFlag (Utf8.bytes (trimSp value))
  · obtain ⟨flag, rest, hvalue⟩ := hflag
    obtain ⟨-, h⟩ | ⟨-, -, -, h⟩ | ⟨-, -, h⟩ := parse_of_flag_cases hvalue
    · rw [h]
      exact ok_ne_panic _
    · rw [h]
      exact err_ne_panic _
    · rw [h]
      exact err_ne_panic _
  · rw [parse_of_not_flag hempty hflag]
    exact err_ne_panic _

theorem H3DatagramSettingValue.new_total (value : UInt64) : new value ≠ .panic := by
  rw [new]
  split_ifs
  · exact ok_ne_panic _
  · exact err_ne_panic _

theorem validateH3DatagramSettingValue_total (value : UInt64) :
    validateH3DatagramSettingValue value ≠ .panic :=
  bind_ne_panic (H3DatagramSettingValue.new_total value) fun _ _ => ok_ne_panic _

theorem Config.new_total (fromStr : String → Except String SocketAddr)
    (bindAddr peerAddr : String) : new fromStr bindAddr peerAddr ≠ .panic := by
  rw [new]
  refine bind_ne_panic (parseAddress_within bindAddr "bind_addr").ne_panic fun _ _ => ?_
  exact bind_ne_panic (parseAddress_within peerAddr "peer_addr").ne_panic fun _ _ => ok_ne_panic _

namespace Session

theorem recordOnce_total {α : Type} (s : Session) (slot : Option α) (conflict : α → Error)
    (recorded : Session) : (s.recordOnce slot conflict recorded).1 ≠ .panic := by
  cases slot with
  | none => exact ok_ne_panic ()
  | some previous => exact err_ne_panic _

theorem step_total (s : Session) (c : Call) : (machine.step s c).1 ≠ .panic := by
  cases c <;> exact recordOnce_total _ _ _ _

theorem selectUdpCarrier_total (s : Session) : s.selectUdpCarrier ≠ .panic := by
  rw [selectUdpCarrier]
  split_ifs
  · exact err_ne_panic _
  · exact ok_ne_panic _
  · exact ok_ne_panic _
  · exact err_ne_panic _

end Session

theorem AssociationId.new_total (value : UInt64) : new value ≠ .panic := by
  rw [new]
  split_ifs
  · exact err_ne_panic _
  · exact ok_ne_panic _

namespace UdpAssociation

theorem bind_total (os : Sockets) (loc target : SocketAddr) (session : Session)
    (id : AssociationId) (streamId : UInt64) : bind os loc target session id streamId ≠ .panic := by
  rw [bind]
  split_ifs
  all_goals first | exact err_ne_panic _ | exact ok_ne_panic _

variable (a : UdpAssociation)

theorem send_total (tooLarge : String → Error) (p : List UInt8) : a.send tooLarge p ≠ .panic := by
  rw [send]
  split_ifs
  · exact err_ne_panic _
  · exact HttpDatagram.new_total _ _

theorem receive_total (mismatch : String) (d : HttpDatagram) : a.receive mismatch d ≠ .panic := by
  obtain ⟨p, hp⟩ | ⟨kind, hfault⟩ := a.carries_or_fault d
  · rw [receive_eq_ok.mpr hp]
    exact ok_ne_panic p
  · exact (hfault.blames mismatch (fun _ => rfl) nofun).ne_panic

theorem encodeH3Datagram_total (p : List UInt8) : a.encodeH3Datagram p ≠ .panic := by
  cases henabled : a.session.isH3DatagramEnabled with
  | true =>
    rw [encodeH3Datagram_of_enabled henabled]
    exact a.send_total _ p
  | false =>
    obtain ⟨e, -, he, -⟩ := refuses_of_not_h3Datagram henabled
    rw [he]
    exact err_ne_panic e

theorem decodeH3Datagram_total (d : HttpDatagram) : a.decodeH3Datagram d ≠ .panic := by
  cases henabled : a.session.isH3DatagramEnabled with
  | true =>
    rw [decodeH3Datagram_of_enabled henabled]
    exact a.receive_total _ d
  | false =>
    obtain ⟨e, -, -, he⟩ := refuses_of_not_h3Datagram henabled
    rw [he]
    exact err_ne_panic e

theorem encodeDatagramCapsule_total (p : List UInt8) : a.encodeDatagramCapsule p ≠ .panic := by
  cases henabled : a.session.isDatagramCapsuleEnabled with
  | true =>
    rw [encodeDatagramCapsule_of_enabled henabled]
    exact bind_ne_panic (a.send_total _ p) fun _ _ => ok_ne_panic _
  | false =>
    obtain ⟨e, -, he, -⟩ := refuses_of_not_datagramCapsule henabled
    rw [he]
    exact err_ne_panic e

theorem decodeDatagramCapsule_total (c : DatagramCapsule) :
    a.decodeDatagramCapsule c ≠ .panic := by
  cases henabled : a.session.isDatagramCapsuleEnabled with
  | true =>
    rw [decodeDatagramCapsule_of_enabled henabled]
    exact a.receive_total _ c.datagram
  | false =>
    obtain ⟨e, -, -, he⟩ := refuses_of_not_datagramCapsule henabled
    rw [he]
    exact err_ne_panic e

end UdpAssociation

/-! ## The interface -/

/-- A call of the interface, but for those on a bound socket or a connection and those that
only read a field. Capsules come from a constructor, as everywhere outside the crate; a parser
is called again and again. -/
inductive ApiCall where
  | varintEncode (value : UInt64)
  | varintTryEncode (value : UInt64)
  | varintEncodeInto (value : UInt64) (buf : List UInt8)
  | varintEncodeIntoAt (value : UInt64) (buf : List UInt8) (offset : ℕ)
  | varintDecode (buf : List UInt8)
  | varintDecodeAt (buf : List UInt8) (offset : ℕ)
  | capsuleTypeNew (value : UInt64)
  | capsuleNew (capsuleType : CapsuleType) (value : List UInt8)
  | capsuleEncode (c : Capsule) (h : c.Built)
  | capsuleEncodeInto (c : Capsule) (h : c.Built) (buf : List UInt8)
  | capsuleDecode (buf : List UInt8)
  | capsuleParser (limit : ℕ) (calls : List CapsuleParser.Call)
  | httpDatagramNew (streamId : UInt64) (payload : List UInt8)
  | encodeH3 (d : HttpDatagram)
  | decodeH3 (buf : List UInt8)
  | datagramCapsuleEncode (c : DatagramCapsule)
  | datagramCapsuleEncodeInto (c : DatagramCapsule) (buf : List UInt8)
  | datagramCapsuleDecode (buf : List UInt8) (streamId : UInt64)
  | parseCapsuleProtocol (value : String)
  | settingValueNew (value : UInt64)
  | validateSettingValue (value : UInt64)
  | configNew (fromStr : String → Except String SocketAddr) (bindAddr peerAddr : String)
  | session (s : Session) (c : Session.Call)
  | selectUdpCarrier (s : Session)
  | associationIdNew (value : UInt64)
  | bind (os : Sockets) (loc target : SocketAddr) (session : Session) (id : AssociationId)
      (streamId : UInt64)
  | encodeH3Datagram (a : UdpAssociation) (payload : List UInt8)
  | decodeH3Datagram (a : UdpAssociation) (d : HttpDatagram)
  | encodeDatagramCapsule (a : UdpAssociation) (payload : List UInt8)
  | decodeDatagramCapsule (a : UdpAssociation) (c : DatagramCapsule)
  | connectUdpNew (ip : IpFromStr) (host : String) (port : UInt16) (config : Option String)
  | fromUri (ip : IpFromStr) (uri : String)
  | toUri (ip : IpFromStr) (request : ConnectUdpRequest) (authority : String)

/-- The call panics; a parser does when one of its calls or `finalize` behind them does. -/
def ApiCall.Panics : ApiCall → Prop
  | .varintEncode value => QuicVarint.encode value = .panic
  | .varintTryEncode value => QuicVarint.tryEncode value = .panic
  | .varintEncodeInto value buf => (QuicVarint.encodeInto value buf).1 = .panic
  | .varintEncodeIntoAt value buf offset => (QuicVarint.encodeIntoAt value buf offset).1 = .panic
  | .varintDecode buf => QuicVarint.decode buf = .panic
  | .varintDecodeAt buf offset => QuicVarint.decodeAt buf offset = .panic
  | .capsuleTypeNew value => CapsuleType.new value = .panic
  | .capsuleNew capsuleType value => Capsule.new capsuleType value = .panic
  | .capsuleEncode c _ => c.encode = .panic
  | .capsuleEncodeInto c _ buf => (c.encodeInto buf).1 = .panic
  | .capsuleDecode buf => Capsule.decode buf = .panic
  | .capsuleParser limit calls => .panic ∈ CapsuleParser.results limit calls ∨
      (CapsuleParser.stateAfter limit calls).finalize = .panic
  | .httpDatagramNew streamId payload => HttpDatagram.new streamId payload = .panic
  | .encodeH3 d => d.encodeH3 = .panic
  | .decodeH3 buf => HttpDatagram.decodeH3 buf = .panic
  | .datagramCapsuleEncode c => c.encode = .panic
  | .datagramCapsuleEncodeInto c buf => (c.encodeInto buf).1 = .panic
  | .datagramCapsuleDecode buf streamId => DatagramCapsule.decode buf streamId = .panic
  | .parseCapsuleProtocol value => CapsuleProtocol.parseCapsuleProtocol value = .panic
  | .settingValueNew value => H3DatagramSettingValue.new value = .panic
  | .validateSettingValue value => validateH3DatagramSettingValue value = .panic
  | .configNew fromStr bindAddr peerAddr => Config.new fromStr bindAddr peerAddr = .panic
  | .session s c => (Session.machine.step s c).1 = .panic
  | .selectUdpCarrier s => s.selectUdpCarrier = .panic
  | .associationIdNew value => AssociationId.new value = .panic
  | .bind os loc target s id streamId =>
      UdpAssociation.bind os loc target s id streamId = .panic
  | .encodeH3Datagram a payload => a.encodeH3Datagram payload = .panic
  | .decodeH3Datagram a d => a.decodeH3Datagram d = .panic
  | .encodeDatagramCapsule a payload => a.encodeDatagramCapsule payload = .panic
  | .decodeDatagramCapsule a c => a.decodeDatagramCapsule c = .panic
  | .connectUdpNew ip host port config => ConnectUdpRequest.new ip host port config = .panic
  | .fromUri ip uri => ConnectUdpRequest.fromUri ip uri = .panic
  | .toUri ip request authority => ConnectUdpRequest.toUri ip request authority = .panic

/-- The only call that panics is the varint encoder without an error, for a value that is no
varint. -/
theorem panics_iff (call : ApiCall) :
    call.Panics ↔ ∃ value, call = .varintEncode value ∧ QuicVarint.maxVarint < value := by
  have hnot {call : ApiCall} (hpanics : ¬call.Panics)
      (hcall : ∀ value, call ≠ .varintEncode value) :
      call.Panics ↔ ∃ value, call = .varintEncode value ∧ QuicVarint.maxVarint < value :=
    iff_of_false hpanics fun ⟨value, h, _⟩ => hcall value h
  cases call with
  | varintEncode value =>
    refine QuicVarint.encode_eq_panic.trans ⟨fun h => ⟨value, rfl, h⟩, ?_⟩
    intro h
    obtain ⟨value', heq, hlt⟩ := h
    obtain rfl := ApiCall.varintEncode.inj heq
    exact hlt
  | varintTryEncode value => exact hnot (QuicVarint.tryEncode_total value) nofun
  | varintEncodeInto value buf => exact hnot (QuicVarint.encodeIntoAt_total value buf 0) nofun
  | varintEncodeIntoAt value buf offset =>
    exact hnot (QuicVarint.encodeIntoAt_total value buf offset) nofun
  | varintDecode buf => exact hnot (QuicVarint.decode_ne_panic buf) nofun
  | varintDecodeAt buf offset => exact hnot (QuicVarint.decodeAt_ne_panic buf offset) nofun
  | capsuleTypeNew value => exact hnot (CapsuleType.new_total value) nofun
  | capsuleNew capsuleType value => exact hnot (Capsule.new_total capsuleType value) nofun
  | capsuleEncode c h => exact hnot (Capsule.encode_total h) nofun
  | capsuleEncodeInto c h buf => exact hnot (Capsule.encodeInto_total h buf) nofun
  | capsuleDecode buf => exact hnot (Capsule.decode_ne_panic buf) nofun
  | capsuleParser limit calls =>
    refine hnot (fun h => ?_) nofun
    obtain h | h := h
    · exact CapsuleParser.results_ne_panic limit calls _ h rfl
    · exact CapsuleParser.finalize_total _ h
  | httpDatagramNew streamId payload =>
    exact hnot (HttpDatagram.new_total streamId payload) nofun
  | encodeH3 d => exact hnot d.encodeH3_total nofun
  | decodeH3 buf => exact hnot (HttpDatagram.decodeH3_total buf) nofun
  | datagramCapsuleEncode c => exact hnot c.encode_total nofun
  | datagramCapsuleEncodeInto c buf => exact hnot (c.encodeInto_total buf) nofun
  | datagramCapsuleDecode buf streamId =>
    exact hnot (DatagramCapsule.decode_total buf streamId) nofun
  | parseCapsuleProtocol value => exact hnot (CapsuleProtocol.parse_total value) nofun
  | settingValueNew value => exact hnot (H3DatagramSettingValue.new_total value) nofun
  | validateSettingValue value =>
    exact hnot (validateH3DatagramSettingValue_total value) nofun
  | configNew fromStr bindAddr peerAddr =>
    exact hnot (Config.new_total fromStr bindAddr peerAddr) nofun
  | session s c => exact hnot (s.step_total c) nofun
  | selectUdpCarrier s => exact hnot s.selectUdpCarrier_total nofun
  | associationIdNew value => exact hnot (AssociationId.new_total value) nofun
  | bind os loc target session id streamId =>
    exact hnot (UdpAssociation.bind_total os loc target session id streamId) nofun
  | encodeH3Datagram a payload => exact hnot (a.encodeH3Datagram_total payload) nofun
  | decodeH3Datagram a d => exact hnot (a.decodeH3Datagram_total d) nofun
  | encodeDatagramCapsule a payload => exact hnot (a.encodeDatagramCapsule_total payload) nofun
  | decodeDatagramCapsule a c => exact hnot (a.decodeDatagramCapsule_total c) nofun
  | connectUdpNew ip host port config =>
    exact hnot (ConnectUdpRequest.new_total host port config) nofun
  | fromUri ip uri => exact hnot (ConnectUdpRequest.fromUri_total uri) nofun
  | toUri ip request authority =>
    exact hnot (ConnectUdpRequest.toUri_total request authority) nofun

end Masque

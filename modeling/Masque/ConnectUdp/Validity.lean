import Masque.ConnectUdp.Uri

/-!
# The validity of requests

A request satisfies one invariant however it was constructed: `fromUri` fills the fields in
its own loop, yet `new` makes the same request of them. The invariant is also stated by
rules about characters and bytes only, which are all that `new` asks of its arguments.
-/

namespace Masque.ConnectUdpRequest

open Outcome Utf8

/-- The requests that the constructors return. -/
def Constructed (ip : IpFromStr) (request : ConnectUdpRequest) : Prop :=
  (∃ host port config, new ip host port config = .ok request) ∨
    ∃ uri, fromUri ip uri = .ok request

/-- The invariant of requests. -/
structure Valid (ip : IpFromStr) (request : ConnectUdpRequest) : Prop where
  host : TargetHost ip request.targetHost
  port : request.targetPort ≠ 0
  config : ∀ config ∈ request.udpProxyConfig, UdpProxyConfig config

variable {ip : IpFromStr} {request : ConnectUdpRequest}

/-- `new` accepts the fields of valid requests, the host up to the space around it. -/
theorem new_eq_ok {host : String} {port : UInt16} {config : Option String} :
    new ip host port config = .ok request ↔
      request = ⟨Str.trim host, port, config⟩ ∧ Valid ip request := by
  constructor
  · intro h
    obtain ⟨host', hhost, h₁⟩ := bind_eq_ok.mp h
    obtain ⟨u, hport, h₂⟩ := bind_eq_ok.mp h₁
    obtain ⟨rfl, hhost⟩ := validateTargetHost_eq_ok.mp hhost
    have hport := validateTargetPort_eq_ok.mp hport
    cases config with
    | none =>
      obtain rfl := ok.inj h₂
      exact ⟨rfl, hhost, hport, nofun⟩
    | some config =>
      obtain ⟨config', hconfig, h₃⟩ := bind_eq_ok.mp h₂
      obtain rfl := ok.inj h₃
      obtain ⟨t, ht, rfl⟩ := map_eq_ok.mp hconfig
      obtain ⟨rfl, hvalid⟩ := validateUdpProxyConfig_eq_ok.mp ht
      refine ⟨rfl, hhost, hport, ?_⟩
      rintro c ⟨⟩
      exact hvalid
  · rintro ⟨rfl, hhost, hport, hconfig⟩
    rw [new, validateTargetHost_eq_ok.mpr ⟨rfl, hhost⟩, ok_bind,
      validateTargetPort_eq_ok.mpr hport, ok_bind]
    cases config with
    | none => rfl
    | some config =>
      have hvalid := validateUdpProxyConfig_eq_ok.mpr ⟨rfl, hconfig config rfl⟩
      dsimp only
      rw [hvalid]
      rfl

theorem valid_of_fromUri {uri : String} (h : fromUri ip uri = .ok request) :
    Valid ip request := by
  obtain ⟨-, -, -, -, -, -, query, -, -, -, -, -, -, -, hquery⟩ := fromUri_sound h
  obtain ⟨-, -, configs, -, ⟨_, -, -, hhost⟩, ⟨_, -, hport⟩, hconfig⟩ := hquery
  refine ⟨(validateTargetHost_eq_ok.mp hhost).2, hport.2.2.2, ?_⟩
  intro config hc
  rcases hconfig with ⟨-, hnone⟩ | ⟨_, config', -, ⟨-, hvalid⟩, hsome⟩
  · rw [hnone] at hc
    cases hc
  · rw [hsome] at hc
    obtain rfl := Option.some.inj hc
    exact (validateUdpProxyConfig_eq_ok.mp hvalid).2

/-- Both constructors keep the invariant. -/
theorem Constructed.valid (h : Constructed ip request) : Valid ip request := by
  rcases h with ⟨_, _, _, h⟩ | ⟨_, h⟩
  · exact (new_eq_ok.mp h).2
  · exact valid_of_fromUri h

/-- `new` makes a valid request of the fields of one. -/
theorem Valid.new_eq (h : Valid ip request) :
    new ip request.targetHost request.targetPort request.udpProxyConfig = .ok request := by
  refine new_eq_ok.mpr ⟨?_, h⟩
  rw [h.host.trimmed]

/-! ## The rules -/

/-- No control byte, those of the C0 controls and of `DEL`. -/
def Printable (s : String) : Prop := ∀ b ∈ bytes s, 0x20 ≤ b ∧ b ≠ 0x7F

/-- The rules for a target host. -/
structure HostRules (ip : IpFromStr) (host : String) : Prop where
  nonempty : host ≠ ""
  length : Str.len host ≤ 253
  leading : ∀ c ∈ host.toList.head?, Str.isWhitespace c = false
  trailing : ∀ c ∈ host.toList.getLast?, Str.isWhitespace c = false
  printable : Printable host
  form : (∃ x, host = "[" ++ x ++ "]" ∧ ip.ipv6 x = true) ∨
    ∀ c ∈ host.toList, Unreserved c ∨ SubDelim c

/-- The rules for the fields of a request. -/
structure Rules (ip : IpFromStr) (host : String) (port : UInt16) (config : Option String) :
    Prop where
  host : HostRules ip host
  port : 1 ≤ port.toNat ∧ port.toNat ≤ 65535
  config : ∀ text ∈ config, Str.len text ≤ 4096 ∧ Printable text

theorem hasControlCharacter_eq_false {s : String} :
    hasControlCharacter s = false ↔ Printable s := by
  rw [hasControlCharacter, List.any_eq_false]
  refine forall₂_congr fun b _ => ?_
  rw [Bool.or_eq_true, not_or, decide_eq_true_eq, beq_iff_eq, UInt8.not_lt]

/-- A text needs no trimming when no space stands at its ends. -/
theorem trim_eq_self {s : String} :
    Str.trim s = s ↔ (∀ c ∈ s.toList.head?, Str.isWhitespace c = false) ∧
      ∀ c ∈ s.toList.getLast?, Str.isWhitespace c = false := by
  rw [Str.trim_eq_iff, ← List.head?_reverse]
  constructor
  · rintro ⟨-, hhead, hlast⟩
    exact ⟨hhead, hlast⟩
  · rintro ⟨hhead, hlast⟩
    exact ⟨⟨[], [], by simp, nofun, nofun⟩, hhead, hlast⟩

theorem targetHost_iff {host : String} : TargetHost ip host ↔ HostRules ip host := by
  constructor
  · rintro ⟨htrim, hne, hlen, hprintable, hform⟩
    obtain ⟨hleading, htrailing⟩ := trim_eq_self.mp htrim
    exact ⟨hne, hlen, hleading, htrailing, hasControlCharacter_eq_false.mp hprintable,
      hform.imp_right regName_iff.mp⟩
  · rintro ⟨hne, hlen, hleading, htrailing, hprintable, hform⟩
    exact ⟨trim_eq_self.mpr ⟨hleading, htrailing⟩, hne, hlen,
      hasControlCharacter_eq_false.mpr hprintable, hform.imp_right regName_iff.mpr⟩

/-- A port number is not zero. -/
theorem port_ne_zero_iff {port : UInt16} :
    port ≠ 0 ↔ 1 ≤ port.toNat ∧ port.toNat ≤ 65535 := by
  have hlt := port.toNat_lt
  rw [ne_eq, ← UInt16.toNat_inj, UInt16.toNat_zero]
  omega

/-- The invariant is the rules. -/
theorem valid_iff_rules :
    Valid ip request ↔ Rules ip request.targetHost request.targetPort request.udpProxyConfig := by
  constructor
  · rintro ⟨hhost, hport, hconfig⟩
    refine ⟨targetHost_iff.mp hhost, port_ne_zero_iff.mp hport, ?_⟩
    intro text htext
    obtain ⟨hlen, hprintable⟩ := hconfig text htext
    exact ⟨hlen, hasControlCharacter_eq_false.mp hprintable⟩
  · rintro ⟨hhost, hport, hconfig⟩
    refine ⟨targetHost_iff.mpr hhost, port_ne_zero_iff.mpr hport, ?_⟩
    intro text htext
    obtain ⟨hlen, hprintable⟩ := hconfig text htext
    exact ⟨hlen, hasControlCharacter_eq_false.mpr hprintable⟩

/-- Which texts are IPv4 addresses makes no difference to `new`. -/
theorem new_ipv4 (ip : IpFromStr) (ipv4 : String → Bool) (host : String) (port : UInt16)
    (config : Option String) :
    new { ip with ipv4 := ipv4 } host port config = new ip host port config := by
  have hhost : validateTargetHost { ip with ipv4 := ipv4 } host = validateTargetHost ip host := by
    rw [validateTargetHost, validateTargetHost, validateHost_ipv4]
  rw [new, new, hhost]

/-- Every constructed request obeys the rules and is what `new` makes of its own fields;
`new` accepts whatever obeys the rules after trimming; and whether a host parses as an IPv4
address makes no difference. -/
theorem constructed_valid (ip : IpFromStr) :
    (∀ request, Constructed ip request →
      Rules ip request.targetHost request.targetPort request.udpProxyConfig ∧
      new ip request.targetHost request.targetPort request.udpProxyConfig = .ok request) ∧
    (∀ host port config, Rules ip (Str.trim host) port config →
      new ip host port config = .ok ⟨Str.trim host, port, config⟩) ∧
    ∀ ipv4 host port config,
      new { ip with ipv4 := ipv4 } host port config = new ip host port config := by
  refine ⟨fun request h => ?_, fun host port config h => ?_, new_ipv4 ip⟩
  · exact ⟨valid_iff_rules.mp h.valid, h.valid.new_eq⟩
  · exact new_eq_ok.mpr ⟨rfl, valid_iff_rules.mpr h⟩

end Masque.ConnectUdpRequest

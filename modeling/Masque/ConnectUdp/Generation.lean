import Masque.ConnectUdp.Faults

/-!
# Generating URIs

The length of a generated URI is known from the lengths of its parts, so `toUri` succeeds
exactly for valid authorities that leave the URI short enough. The limit on configurations
is not the one that matters: a longer one than 2115 bytes may be accepted in a request and
yet make every URI of it too long.
-/

namespace Masque.ConnectUdpRequest

open Outcome Utf8 Error Percent

variable {ip : IpFromStr}

/-! ## Lengths -/

/-- The length of an encoded value: one byte for an unreserved one and three for another. -/
def encodedLen (s : String) : ℕ :=
  Str.len s + 2 * (bytes s).countP fun b => !unreservedByte b

/-- The length of the URI generated for a request. -/
def uriLen (request : ConnectUdpRequest) (authority : String) : ℕ :=
  41 + Str.len authority + encodedLen request.targetHost +
    request.targetPort.toNat.repr.length +
    (request.udpProxyConfig.elim 0 fun config => 18 + encodedLen config)

theorem length_encodeByte (b : UInt8) :
    (encodeByte isUnreserved hexDigit b).length = if isUnreserved b then 1 else 3 := by
  rw [encodeByte]
  split_ifs <;> rfl

theorem len_encodeQueryValue (s : String) : Str.len (encodeQueryValue s) = encodedLen s := by
  rw [Str.len, bytes_encodeQueryValue, encodedLen, Str.len, ← isUnreserved_eq]
  induction bytes s with
  | nil => rfl
  | cons b bs ih =>
    rw [List.flatMap_cons, List.length_append, ih, length_encodeByte, List.countP_cons,
      List.length_cons]
    by_cases hb : isUnreserved b = true
    · simp [hb]
      omega
    · simp [hb]
      omega

theorem encodedLen_le (s : String) : encodedLen s ≤ 3 * Str.len s := by
  have hcount := (bytes s).countP_le_length (p := fun b => !unreservedByte b)
  change _ ≤ Str.len s at hcount
  rw [encodedLen]
  omega

theorem len_repr (n : ℕ) : Str.len n.repr = n.repr.length := by
  refine (length_encode_of_lt fun c hc => ?_).trans String.length_toList
  rw [Nat.toList_repr] at hc
  exact lt_of_isDigit (Nat.isDigit_of_mem_toDigits (by decide) (by decide) hc)

theorem length_port_repr (port : UInt16) : port.toNat.repr.length ≤ 5 := by
  have hlt := port.toNat_lt
  rw [Nat.length_repr_le_iff (by decide)]
  omega

/-! ## The outcome of `toUri` -/

/-- The URI of a request. -/
def generatedUri (request : ConnectUdpRequest) (authority : String) : String :=
  "https://" ++ (authority ++ "/" ++ ("masque" ++ "?" ++ Str.join (queryPairs request) '&'))

/-- The text that `to_uri` puts together. -/
def uriText (request : ConnectUdpRequest) (authority : String) : String :=
  let uri := "https://" ++ authority ++ "/masque?target_host=" ++
    encodeQueryValue request.targetHost ++ "&target_port=" ++ request.targetPort.toNat.repr
  match request.udpProxyConfig with
  | some config => uri ++ "&udp_proxy_config=" ++ encodeQueryValue config
  | none => uri

theorem uriText_eq (request : ConnectUdpRequest) (authority : String) :
    uriText request authority = generatedUri request authority := by
  apply String.toList_inj.mp
  obtain ⟨host, port, config⟩ := request
  cases config <;> simp [uriText, generatedUri, queryPairs, Str.join]

theorem len_generatedUri (request : ConnectUdpRequest) (authority : String) :
    Str.len (generatedUri request authority) = uriLen request authority := by
  have hscheme : Str.len "https://" = 8 := rfl
  have hhost : Str.len "/masque?target_host=" = 20 := rfl
  have hport : Str.len "&target_port=" = 13 := rfl
  have hconfig : Str.len "&udp_proxy_config=" = 18 := rfl
  rw [← uriText_eq]
  obtain ⟨host, port, config⟩ := request
  cases config with
  | none =>
    simp only [uriText, Str.len_append, len_encodeQueryValue, len_repr, hscheme, hhost, hport,
      uriLen, Option.elim_none]
    omega
  | some config =>
    simp only [uriText, Str.len_append, len_encodeQueryValue, len_repr, hscheme, hhost, hport,
      hconfig, uriLen, Option.elim_some]
    omega

theorem toUri_eq (request : ConnectUdpRequest) (authority : String) :
    toUri ip request authority = (do
      validateProxyAuthority ip authority
      if 8192 < uriLen request authority then invalid "uri" "generated URI is too long"
      else .ok (generatedUri request authority)) := by
  rw [← len_generatedUri, ← uriText_eq]
  rfl

theorem toUri_of_hostPort (hip : ip.Ipv6Alphabet) {authority : String}
    (h : HostPort ip authority) (request : ConnectUdpRequest) :
    toUri ip request authority =
      if 8192 < uriLen request authority then invalid "uri" "generated URI is too long"
      else .ok (generatedUri request authority) := by
  rw [toUri_eq, validateProxyAuthority, (validateHostPort_eq_ok hip).mpr h, ok_bind]

theorem blames_toUri (hip : ip.Ipv6Alphabet) {authority : String} (h : ¬HostPort ip authority)
    (request : ConnectUdpRequest) :
    Blames requestField "proxy_authority" (toUri ip request authority) := by
  rw [toUri_eq]
  refine Blames.bind ((validateHostPort_within "proxy_authority" authority).blames ?_) _
  intro u hok
  exact h ((validateHostPort_eq_ok hip).mp hok)

/-! ## The longest URIs -/

/-- A valid request and authority leave a configuration its 18 bytes and thrice its length. -/
theorem uriLen_le {request : ConnectUdpRequest} {authority : String}
    (hvalid : Valid ip request) (hauthority : HostPort ip authority) :
    uriLen request authority ≤ 1829 +
      request.udpProxyConfig.elim 0 fun config => 18 + 3 * Str.len config := by
  have hlen := hauthority.1
  have hhost := hvalid.host.length
  have hhost3 := encodedLen_le request.targetHost
  have hport := length_port_repr request.targetPort
  obtain ⟨host, port, config⟩ := request
  unfold uriLen
  cases config with
  | none =>
    simp only [Option.elim_none]
    dsimp only at hhost hhost3 hport
    omega
  | some config =>
    have hconfig := encodedLen_le config
    simp only [Option.elim_some]
    dsimp only at hhost hhost3 hport
    omega

/-- A text that takes three times its length when encoded. -/
def exclamations (n : ℕ) : String := String.ofList (List.replicate n '!')

theorem bytes_exclamations (n : ℕ) : bytes (exclamations n) = List.replicate n (ascii '!') := by
  rw [bytes, exclamations, String.toList_ofList, encode_replicate (by decide)]

theorem len_exclamations (n : ℕ) : Str.len (exclamations n) = n := by
  rw [Str.len, bytes_exclamations, List.length_replicate]

theorem encodedLen_exclamations (n : ℕ) : encodedLen (exclamations n) = 3 * n := by
  have hcount : (bytes (exclamations n)).countP (fun b => !unreservedByte b) = n := by
    rw [bytes_exclamations, List.countP_replicate]
    exact if_pos (by decide)
  rw [encodedLen, len_exclamations, hcount]
  omega

theorem printable_exclamations (n : ℕ) : Printable (exclamations n) := by
  intro b hb
  rw [bytes_exclamations] at hb
  rw [List.eq_of_mem_replicate hb]
  decide

/-- A request whose every value is as long as it can be, but for the configuration. -/
def longest (n : ℕ) : ConnectUdpRequest := ⟨exclamations 253, 65535, some (exclamations n)⟩

/-- The longest authority. -/
def longestAuthority : String := exclamations 1018 ++ ":" ++ "65535"

theorem regName_exclamations (n : ℕ) : RegName (exclamations n) := by
  intro c hc
  rw [exclamations, String.toList_ofList] at hc
  rw [List.eq_of_mem_replicate hc]
  decide

theorem exclamations_ne (n : ℕ) : exclamations (n + 1) ≠ "" := by
  intro h
  have hlen := congrArg Str.len h
  rw [len_exclamations] at hlen
  exact absurd hlen (Nat.succ_ne_zero n)

theorem rules_longest {n : ℕ} (hn : n ≤ 4096) :
    Rules ip (longest n).targetHost (longest n).targetPort (longest n).udpProxyConfig := by
  have hspace : ∀ c ∈ (exclamations 253).toList, Str.isWhitespace c = false := by
    intro c hc
    rw [exclamations, String.toList_ofList] at hc
    rw [List.eq_of_mem_replicate hc]
    decide
  refine ⟨⟨exclamations_ne 252, ?_, fun c hc => hspace c (List.mem_of_head? hc),
    fun c hc => hspace c (List.mem_of_getLast? hc), printable_exclamations 253,
    .inr (regName_iff.mp (regName_exclamations 253))⟩, port_ne_zero_iff.mp ?_, ?_⟩
  · exact (len_exclamations 253).le
  · show (65535 : UInt16) ≠ 0
    decide
  · intro text htext
    obtain rfl := Option.some.inj htext
    rw [len_exclamations]
    exact ⟨hn, printable_exclamations n⟩

theorem port_65535 : Port "65535" 65535 :=
  port_repr (by decide : (65535 : UInt16) ≠ 0)

theorem len_longestAuthority : Str.len longestAuthority = 1024 := by
  rw [longestAuthority, Str.len_append, Str.len_append, len_exclamations]
  rfl

theorem hostPort_longestAuthority : HostPort ip longestAuthority :=
  ⟨len_longestAuthority.le, exclamations 1018, "65535", 65535, rfl, port_65535,
    .inr ⟨exclamations_ne 1017, regName_exclamations 1018⟩⟩

theorem uriLen_longest (n : ℕ) : uriLen (longest n) longestAuthority = 1847 + 3 * n := by
  have hport : (65535 : UInt16).toNat.repr.length = 5 := by decide
  simp only [uriLen, longest, len_longestAuthority, encodedLen_exclamations, Option.elim_some,
    hport]
  omega

/-- Generation succeeds exactly for valid authorities that leave the URI short enough, and
else blames the one or the other; all requests with configurations of up to `n` bytes can be
generated for all authorities exactly when `n` is 2115 at most. -/
theorem toUri_exact (ip : IpFromStr) (hip : ip.Ipv6Alphabet) :
    (∀ request authority uri, toUri ip request authority = .ok uri ↔
      HostPort ip authority ∧ uriLen request authority ≤ 8192 ∧
        uri = generatedUri request authority) ∧
    (∀ request authority, toUri ip request authority ≠ .panic ∧
      ((∃ message, toUri ip request authority = invalid "proxy_authority" message) ↔
        ¬HostPort ip authority) ∧
      ((∃ message, toUri ip request authority = invalid "uri" message) ↔
        HostPort ip authority ∧ 8192 < uriLen request authority)) ∧
    ∀ n ≤ 4096,
      (∀ request authority, Constructed ip request → HostPort ip authority →
        (∀ config ∈ request.udpProxyConfig, Str.len config ≤ n) →
        ∃ uri, toUri ip request authority = .ok uri) ↔ n ≤ 2115 := by
  refine ⟨fun request authority uri => ?_, fun request authority => ?_, fun n hn => ?_⟩
  · by_cases hhost : HostPort ip authority
    · rw [toUri_of_hostPort hip hhost, and_iff_right hhost]
      split_ifs with hlong
      · exact iff_of_false nofun fun h => absurd h.1 (Nat.not_le.mpr hlong)
      · have hlen : uriLen request authority ≤ 8192 := Nat.not_lt.mp hlong
        rw [ok.injEq, and_iff_right hlen, eq_comm]
    · obtain ⟨message, hmessage⟩ := blames_iff.mp (blames_toUri hip hhost request)
      rw [hmessage]
      exact iff_of_false nofun fun h => hhost h.1
  · rw [← blames_iff, ← blames_iff]
    by_cases hhost : HostPort ip authority
    · rw [toUri_of_hostPort hip hhost]
      split_ifs with hlong
      · have hblames : Blames requestField "uri"
            (invalid "uri" "generated URI is too long" : Result String) := blames_invalid _ _
        refine ⟨err_ne_panic _, iff_of_false (fun h => ?_) (not_not.mpr hhost),
          iff_of_true hblames ⟨hhost, hlong⟩⟩
        exact absurd (h.eq hblames) (by decide)
      · exact ⟨ok_ne_panic _, iff_of_false (not_blames_ok _) (not_not.mpr hhost),
          iff_of_false (not_blames_ok _) fun h => hlong h.2⟩
    · have hblames := blames_toUri hip hhost request
      refine ⟨fun hpanic => ?_, iff_of_true hblames hhost, iff_of_false (fun h => ?_) ?_⟩
      · obtain ⟨message, hmessage⟩ := blames_iff.mp hblames
        rw [hpanic] at hmessage
        cases hmessage
      · exact absurd (h.eq hblames) (by decide)
      · exact fun h => hhost h.1
  · constructor
    · intro hall
      by_contra hlong
      have hconstructed : Constructed ip (longest n) :=
        .inl ⟨_, _, _, (valid_iff_rules.mpr (rules_longest hn)).new_eq⟩
      obtain ⟨uri, huri⟩ := hall (longest n) longestAuthority hconstructed
        hostPort_longestAuthority fun config hconfig => by
          obtain rfl := Option.some.inj hconfig
          exact (len_exclamations n).le
      have htoo : 8192 < uriLen (longest n) longestAuthority := by
        rw [uriLen_longest]
        omega
      rw [toUri_of_hostPort hip hostPort_longestAuthority, if_pos htoo] at huri
      cases huri
    · intro hshort request authority hconstructed hhost hconfig
      have hle := uriLen_le hconstructed.valid hhost
      refine ⟨generatedUri request authority, ?_⟩
      rw [toUri_of_hostPort hip hhost, if_neg]
      cases hc : request.udpProxyConfig with
      | none =>
        rw [hc, Option.elim_none] at hle
        omega
      | some config =>
        have hlen := hconfig config hc
        rw [hc, Option.elim_some] at hle
        omega

/-- A client behind the loopback proxy can name any host. -/
theorem toUri_exact_loopback :
    toUri .loopback ⟨"a!", 53, none⟩ "[::1]:443" =
      .ok "https://[::1]:443/masque?target_host=a%21&target_port=53" := by
  refine ((toUri_exact .loopback IpFromStr.loopback_alphabet).1 _ _ _).mpr ⟨?_, by decide, ?_⟩
  · exact (validateHostPort_eq_ok IpFromStr.loopback_alphabet).mp
      (by decide +kernel : validateHostPort .loopback "authority" "[::1]:443" = .ok ())
  · decide +kernel

end Masque.ConnectUdpRequest

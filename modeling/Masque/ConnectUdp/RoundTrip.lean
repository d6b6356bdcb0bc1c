import Masque.ConnectUdp.Validity

/-!
# The round trip of a request

Every request that a constructor returns is valid, and the URI generated for a valid
request is parsed back as that request: neither the authority nor a value can add, drop or
change a part of the URI.
-/

namespace Masque.ConnectUdpRequest

open Outcome Utf8

variable {ip : IpFromStr} {request : ConnectUdpRequest}

/-! ## The generated query -/

/-- The parameters of a generated URI. -/
def queryPairs (request : ConnectUdpRequest) : List String :=
  ("target_host" ++ "=" ++ encodeQueryValue request.targetHost) ::
    ("target_port" ++ "=" ++ request.targetPort.toNat.repr) ::
      request.udpProxyConfig.toList.map fun config =>
        "udp_proxy_config" ++ "=" ++ encodeQueryValue config

theorem toUri_eq_ok {authority uri : String} (h : toUri ip request authority = .ok uri) :
    validateHostPort ip "proxy_authority" authority = .ok () ∧ Str.len uri ≤ 8192 ∧
      uri = "https://" ++ (authority ++ "/" ++
        ("masque" ++ "?" ++ Str.join (queryPairs request) '&')) := by
  unfold toUri maxUriLen at h
  obtain ⟨u, hauthority, h₁⟩ := bind_eq_ok.mp h
  dsimp only at h₁
  split_ifs at h₁ with hlong
  · cases h₁
  · obtain rfl := ok.inj h₁
    refine ⟨hauthority, by omega, String.toList_inj.mp ?_⟩
    obtain ⟨host, port, config⟩ := request
    cases config <;> simp [queryPairs, Str.join]

theorem notMem_pair {key value : String} {c : Char} (hkey : c ∉ (key ++ "=").toList)
    (hvalue : c ∉ value.toList) : c ∉ (key ++ "=" ++ value).toList := by
  rw [String.toList_append, List.mem_append, not_or]
  exact ⟨hkey, hvalue⟩

/-- A port is displayed as digits. -/
theorem port_repr {port : UInt16} (h : port ≠ 0) : Port port.toNat.repr port := by
  have hdigits : ∀ c ∈ port.toNat.repr.toList, c.isDigit = true := by
    intro c hc
    rw [Nat.toList_repr] at hc
    exact Nat.isDigit_of_mem_toDigits (by decide) (by decide) hc
  have hne : port.toNat.repr ≠ "" := by
    intro hnil
    have := congrArg String.toList hnil
    rw [Nat.toList_repr] at this
    exact Nat.toDigits_ne_nil this
  exact (parseU16_eq_some_iff_port hdigits hne).mp ⟨Str.parseU16_repr port, h⟩

/-- The keys of query parameters. -/
def queryKeys : List String := ["target_host", "target_port", "udp_proxy_config"]

/-- A character that no key, no digit and no encoded value holds is in no parameter. -/
theorem notMem_queryPairs (hport : request.targetPort ≠ 0) {c : Char} (hc : c.toNat < 128)
    (hencoded : ¬IsEncoded (ascii c)) (hdigit : c.isDigit = false)
    (hkeys : ∀ key ∈ queryKeys, c ∉ (key ++ "=").toList) :
    ∀ pair ∈ queryPairs request, c ∉ pair.toList := by
  intro pair hpair
  rcases List.mem_cons.mp hpair with rfl | hpair
  · exact notMem_pair (hkeys _ (by simp [queryKeys])) (notMem_encodeQueryValue hc hencoded _)
  rcases List.mem_cons.mp hpair with rfl | hpair
  · exact notMem_pair (hkeys _ (by simp [queryKeys])) ((port_repr hport).notMem hdigit)
  · obtain ⟨config, -, rfl⟩ := List.mem_map.mp hpair
    exact notMem_pair (hkeys _ (by simp [queryKeys])) (notMem_encodeQueryValue hc hencoded _)

theorem split_queryPairs (hport : request.targetPort ≠ 0) :
    Str.split (Str.join (queryPairs request) '&') '&' = queryPairs request := by
  have hkeys : ∀ key ∈ queryKeys, '&' ∉ (key ++ "=").toList := by simp [queryKeys]
  exact Str.split_join (List.cons_ne_nil _ _)
    (notMem_queryPairs hport (by decide) (by decide) (by decide) hkeys)

/-- The query holds no fragment mark. -/
theorem notMem_join_queryPairs (hport : request.targetPort ≠ 0) :
    '#' ∉ (Str.join (queryPairs request) '&').toList := by
  have hkeys : ∀ key ∈ queryKeys, '#' ∉ (key ++ "=").toList := by simp [queryKeys]
  have hpairs : ∀ pair ∈ queryPairs request, '#' ∉ pair.toList :=
    notMem_queryPairs hport (by decide) (by decide) (by decide) hkeys
  rw [Str.join, String.toList_ofList, (Str.perm_intercalate '&' _).mem_iff, List.mem_append,
    List.mem_flatten]
  rintro (⟨l, hl, hmem⟩ | hmem)
  · obtain ⟨pair, hpair, rfl⟩ := List.mem_map.mp hl
    exact hpairs pair hpair hmem
  · exact absurd (List.eq_of_mem_replicate hmem) (by decide)

theorem decodes_encodeQueryValue (input : String) :
    Decodes (bytes (encodeQueryValue input)) (bytes input) :=
  decodeQueryValue_eq_ok.mp (decodeQueryValue_encodeQueryValue input)

theorem ne_of_mem_queryPairs {pair : String} (h : pair ∈ queryPairs request) : pair ≠ "" := by
  rcases List.mem_cons.mp h with rfl | h
  · exact pair_ne _ _
  rcases List.mem_cons.mp h with rfl | h
  · exact pair_ne _ _
  · obtain ⟨config, -, rfl⟩ := List.mem_map.mp h
    exact pair_ne _ _

/-- The generated query is the query of the request. -/
theorem query_queryPairs (h : Valid ip request) : Query ip (queryPairs request) request := by
  have hne : (queryPairs request).filter (· ≠ "") = queryPairs request := by
    rw [List.filter_eq_self]
    intro pair hpair
    exact decide_eq_true (ne_of_mem_queryPairs hpair)
  refine ⟨_, _, _, by rw [hne]; exact .refl _, ?_, ?_, ?_⟩
  · exact ⟨request.targetHost, ⟨_, rfl, by decide, decodes_encodeQueryValue _⟩,
      h.host.trimmed.symm, validateTargetHost_eq_ok.mpr ⟨h.host.trimmed.symm, h.host⟩⟩
  · have hport := port_repr h.port
    refine ⟨request.targetPort.toNat.repr, ⟨_, rfl, by decide, ?_⟩, hport⟩
    refine Percent.scans_of_notMem fun hmem => ?_
    exact hport.notMem (by decide) ((ascii_mem_encode (by decide)).mp hmem)
  · cases hconfig : request.udpProxyConfig with
    | none => exact .inl ⟨rfl, rfl⟩
    | some config =>
      refine .inr ⟨_, config, rfl, ⟨⟨_, rfl, by decide, decodes_encodeQueryValue _⟩, ?_⟩, rfl⟩
      exact validateUdpProxyConfig_eq_ok.mpr ⟨rfl, h.config config hconfig⟩

theorem keys_queryPairs (request : ConnectUdpRequest) :
    (queryPairs request).map (fun pair => (Str.splitOnce pair '=').map Prod.fst) =
      some "target_host" :: some "target_port" ::
        (if request.udpProxyConfig.isSome then [some "udp_proxy_config"] else []) := by
  have hkey {key : String} (value : String) (h : '=' ∉ key.toList) :
      (Str.splitOnce (key ++ "=" ++ value) '=').map Prod.fst = some key := by
    rw [splitOnce_parameter h]
    rfl
  obtain ⟨host, port, config⟩ := request
  rw [queryPairs, List.map_cons, List.map_cons, hkey _ (by decide), hkey _ (by decide)]
  cases config with
  | none => rfl
  | some config =>
    rw [Option.toList_some, List.map_singleton, List.map_singleton, hkey _ (by decide)]
    rfl

theorem scheme_https : Scheme "https://" := beq_self_eq_true _

theorem notMem_authority (hip : ip.Ipv6Alphabet) {authority : String} {c : Char}
    (h : HostPort ip authority) (hc : isAuthorityChar c = false) : c ∉ authority.toList := by
  intro hmem
  rw [h.isAuthorityChar hip c hmem] at hc
  cases hc

/-- The path needs no normalization. -/
theorem normalizes_masque : Normalizes (bytes "masque") (bytes "masque") :=
  Percent.scans_of_notMem (by decide)

/-- A generated URI has the authority, the path and the parameters it was generated from,
and is parsed back as the request: no accepted value can add, drop or change a part. -/
theorem toUri_roundTrip (ip : IpFromStr) (hip : ip.Ipv6Alphabet) (request : ConnectUdpRequest)
    (hrequest : Constructed ip request) (authority uri : String)
    (h : toUri ip request authority = .ok uri) :
    fromUri ip uri = .ok request ∧ '#' ∉ uri.toList ∧
    ∃ afterScheme pathAndQuery query, uri = "https://" ++ afterScheme ∧
      Str.splitOnce afterScheme '/' = some (authority, pathAndQuery) ∧
      Str.splitOnce pathAndQuery '?' = some ("masque", query) ∧
      (Str.split query '&').map (fun pair => (Str.splitOnce pair '=').map Prod.fst) =
        some "target_host" :: some "target_port" ::
          (if request.udpProxyConfig.isSome then [some "udp_proxy_config"] else []) := by
  have hvalid := hrequest.valid
  obtain ⟨hauthority, hlen, rfl⟩ := toUri_eq_ok h
  have hhostport := (validateHostPort_eq_ok hip).mp hauthority
  have hslash : '/' ∉ authority.toList := notMem_authority hip hhostport (by decide)
  have hfragment : '#' ∉ ("https://" ++ (authority ++ "/" ++
      ("masque" ++ "?" ++ Str.join (queryPairs request) '&'))).toList := by
    have hquery := notMem_join_queryPairs hvalid.port
    have hmark : '#' ∉ authority.toList := notMem_authority hip hhostport (by decide)
    simp [hquery, hmark]
  refine ⟨fromUri_complete hip ⟨hlen, hfragment, "https://", authority, "masque",
    "?" ++ Str.join (queryPairs request) '&', Str.join (queryPairs request) '&', ?_, .inr rfl,
    scheme_https, hslash, (validateHostPort_eq_ok hip).mpr hhostport, by decide,
    normalizes_masque, ?_⟩, hfragment, _, "masque" ++ "?" ++ Str.join (queryPairs request) '&',
    Str.join (queryPairs request) '&', rfl, ?_, splitOnce_question (by decide), ?_⟩
  · simp only [String.append_assoc]
  · rw [split_queryPairs hvalid.port]
    exact query_queryPairs hvalid
  · exact Str.splitOnce_eq_some.mpr ⟨by simp, hslash⟩
  · rw [split_queryPairs hvalid.port]
    exact keys_queryPairs request

/-- A host and a configuration full of delimiters survive. -/
theorem toUri_roundTrip_loopback :
    fromUri .loopback ("https://[::1]:443/masque?target_host=a%26b&target_port=53" ++
      "&udp_proxy_config=%C3%A9%26%23") = .ok ⟨"a&b", 53, some "é&#"⟩ :=
  (toUri_roundTrip .loopback IpFromStr.loopback_alphabet _
    (.inl ⟨" a&b ", 53, some "é&#", by decide +kernel⟩) "[::1]:443" _ (by decide +kernel)).1

end Masque.ConnectUdpRequest

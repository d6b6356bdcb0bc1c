import Masque.ConnectUdp.Authority
import Masque.ConnectUdp.RoundTrip
import Masque.Library.Blame

/-!
# What a refused request is blamed for

`fromUri` names the field it stopped at. Its checks run in a fixed order, so each refused
URI has one fault: the first one in the order of the checks, and within the query the first
one in the order of the parameters.
-/

namespace Masque.ConnectUdpRequest

open Outcome Utf8 Error

variable {ip : IpFromStr}

/-! ## The checks and their fields -/

theorem within_invalid {α : Type} (field message : String) :
    Within requestField {field} (invalid field message : Result α) :=
  .err rfl rfl

theorem within_ofOption {α : Type} (field message : String) (x : Option α) :
    Within requestField {field} (ofOption (.invalidConnectUdpRequest field message) x) := by
  have hfield : requestField (.invalidConnectUdpRequest field message) = some field := rfl
  exact .ofOption hfield (Set.mem_singleton field) x

theorem blames_invalid {α : Type} (field message : String) :
    Blames requestField field (invalid field message : Result α) :=
  ⟨_, rfl, rfl⟩

theorem blames_iff {α : Type} {field : String} {x : Result α} :
    Blames requestField field x ↔ ∃ message, x = invalid field message := by
  constructor
  · intro h
    obtain ⟨e, rfl, he⟩ := h
    cases e <;> cases he
    exact ⟨_, rfl⟩
  · intro h
    obtain ⟨message, rfl⟩ := h
    exact blames_invalid field message

theorem validateIpv6Literal_within (field s : String) :
    Within requestField {field} (validateIpv6Literal ip field s) := by
  rw [validateIpv6Literal]
  split_ifs
  · exact .ok ()
  · exact within_invalid _ _

theorem validateHost_within (field host : String) :
    Within requestField {field} (validateHost ip field host) := by
  by_cases hbrackets : (Str.startsWith host '[' && Str.endsWith host ']') = true
  · obtain ⟨hstart, hend⟩ := Bool.and_eq_true_iff.mp hbrackets
    obtain ⟨x, hx⟩ := slice_host hstart hend
    rw [validateHost, if_pos hbrackets, hx, ok_bind]
    exact validateIpv6Literal_within field x
  · rw [validateHost_of_not_brackets hbrackets]
    split_ifs
    · exact within_invalid _ _
    · exact .ok ()

theorem authorityPort_within (field authority : String) :
    Within requestField {field} (authorityPort ip field authority) := by
  rw [authorityPort]
  cases hsplit : Str.rsplitOnce authority ':' with
  | none => split_ifs <;> exact within_invalid _ _
  | some parts =>
    obtain ⟨host, port⟩ := parts
    dsimp only
    by_cases hstart : Str.startsWith authority '[' = true
    · rw [if_pos hstart]
      by_cases hend : Str.endsWith host ']' = true
      · obtain ⟨x, hx⟩ := slice_host (startsWith_of_rsplitOnce hstart hsplit) hend
        rw [hend, Bool.not_true, if_neg Bool.false_ne_true, hx, ok_bind]
        exact (validateIpv6Literal_within field x).bind fun _ => .ok port
      · rw [if_pos (by simpa using hend)]
        exact within_invalid _ _
    · rw [if_neg hstart]
      split_ifs
      · exact within_invalid _ _
      · exact (validateHost_within field host).bind fun _ => .ok port

theorem validateHostPort_within (field authority : String) :
    Within requestField {field} (validateHostPort ip field authority) := by
  rw [validateHostPort]
  split_ifs
  · exact within_invalid _ _
  · exact within_invalid _ _
  · exact within_invalid _ _
  refine (authorityPort_within field authority).bind fun port => ?_
  split_ifs
  · exact within_invalid _ _
  · exact within_invalid _ _
  refine (within_ofOption field _ _).bind fun n => ?_
  split_ifs
  · exact within_invalid _ _
  · exact .ok ()

theorem validateTargetHost_within (host : String) :
    Within requestField {"target_host"} (validateTargetHost ip host) := by
  unfold validateTargetHost
  dsimp only
  split_ifs
  · exact within_invalid _ _
  · exact within_invalid _ _
  · exact within_invalid _ _
  · exact (validateHost_within "target_host" _).bind fun _ => .ok _

theorem validateTargetPort_within (port : UInt16) :
    Within requestField {"target_port"} (validateTargetPort port) := by
  rw [validateTargetPort]
  split_ifs
  · exact within_invalid _ _
  · exact .ok ()

theorem parseTargetPort_within (value : String) :
    Within requestField {"target_port"} (parseTargetPort value) := by
  rw [parseTargetPort]
  split_ifs
  · exact within_invalid _ _
  · exact within_ofOption _ _ _

theorem validateUdpProxyConfig_within (config : String) :
    Within requestField {"udp_proxy_config"} (validateUdpProxyConfig config) := by
  rw [validateUdpProxyConfig]
  split_ifs
  · exact within_invalid _ _
  · exact within_invalid _ _
  · exact .ok config

theorem validateScheme_within (uri : String) :
    Within requestField {"scheme"} (validateScheme uri) := by
  unfold validateScheme
  dsimp only
  split_ifs
  · exact within_invalid _ _
  · exact .ok ()

theorem decodePercent_within {emit : UInt8 → List UInt8 → ℕ → Result (List UInt8)}
    {image : UInt8 → UInt8 → UInt8 → List UInt8} (hemit : Percent.Emits emit image)
    (field incomplete malformed notUtf8 value : String) :
    Within requestField {field}
      (decodePercent emit field incomplete malformed notUtf8 value) := by
  have hreturns : (∃ out, Percent.scan hexValue image
      (Error.invalidConnectUdpRequest field incomplete)
      (Error.invalidConnectUdpRequest field malformed) (bytes value) = .ok out) ∨ _ :=
    Percent.scan_returns (bytes value)
  rw [decodePercent_eq_loop hemit, decodePercentLoop_eq hemit]
  refine Within.bind ?_ fun out => within_ofOption _ _ _
  obtain ⟨out, hout⟩ | herr | herr := hreturns
  · rw [hout]
    exact .ok out
  · rw [herr]
    exact .err rfl rfl
  · rw [herr]
    exact .err rfl rfl

theorem decodeQueryValue_within (value : String) :
    Within requestField {"query"} (decodeQueryValue value) :=
  decodePercent_within emits_decoded _ _ _ _ _

theorem normalizePathSegment_within (segment : String) :
    Within requestField {"path"} (normalizePathSegment segment) :=
  decodePercent_within emits_normalized _ _ _ _ _

/-! ## The parts of a query -/

/-- Why a part of a query is refused behind the parameters seen so far. -/
inductive PairFault (ip : IpFromStr) (params : Params) (pair : String) : String → Prop
  | noEquals (h : '=' ∉ pair.toList) : PairFault ip params pair "query"
  | coding {key raw : String} (hpair : pair = key ++ "=" ++ raw) (hkey : '=' ∉ key.toList)
      (h : ∀ value, ¬Decodes (bytes raw) (bytes value)) : PairFault ip params pair "query"
  | unknown {key value : String} (hparam : Parameter pair key value) (h : key ∉ queryKeys) :
      PairFault ip params pair "query"
  | host {value : String} (hparam : Parameter pair "target_host" value)
      (h : params.targetHost ≠ none ∨ ¬TargetHost ip (Str.trim value)) :
      PairFault ip params pair "target_host"
  | port {value : String} (hparam : Parameter pair "target_port" value)
      (h : params.targetPort ≠ none ∨ ∀ port, ¬Port value port) :
      PairFault ip params pair "target_port"
  | config {value : String} (hparam : Parameter pair "udp_proxy_config" value)
      (h : params.udpProxyConfig ≠ none ∨ ¬UdpProxyConfig value) :
      PairFault ip params pair "udp_proxy_config"

variable {params : Params} {pair : String}

theorem blames_validateTargetHost {value : String} (h : ¬TargetHost ip (Str.trim value)) :
    Blames requestField "target_host" (validateTargetHost ip value) := by
  refine (validateTargetHost_within value).blames fun t ht => ?_
  obtain ⟨rfl, hvalid⟩ := validateTargetHost_eq_ok.mp ht
  exact h hvalid

theorem blames_validateUdpProxyConfig {value : String} (h : ¬UdpProxyConfig value) :
    Blames requestField "udp_proxy_config" (validateUdpProxyConfig value) := by
  refine (validateUdpProxyConfig_within value).blames fun t ht => ?_
  obtain ⟨rfl, hvalid⟩ := validateUdpProxyConfig_eq_ok.mp ht
  exact h hvalid

/-- The two port checks blame one field. -/
theorem blames_targetPort {α : Type} {value : String} (h : ∀ port, ¬Port value port)
    (f : UInt16 → Result α) : Blames requestField "target_port" (do
      let port ← parseTargetPort value
      validateTargetPort port
      f port) := by
  obtain ⟨port, hport⟩ | ⟨field, hfield, hblames⟩ := parseTargetPort_within value
  · have hzero : Blames requestField "target_port" (validateTargetPort port) := by
      refine (validateTargetPort_within port).blames fun u hu => ?_
      exact h port (parseTargetPort_eq_ok.mp ⟨hport, validateTargetPort_eq_ok.mp hu⟩)
    rw [hport, ok_bind]
    exact hzero.bind _
  · obtain rfl := Set.mem_singleton_iff.mp hfield
    exact hblames.bind _

theorem PairFault.blames {field : String} (hne : pair ≠ "") (h : PairFault ip params pair field) :
    Blames requestField field (readPair ip params pair) := by
  cases h with
  | noEquals h =>
    rw [readPair, if_neg hne, Str.splitOnce_eq_none.mpr h]
    exact blames_invalid _ _
  | @coding key raw hpair hkey h =>
    have hdecode : Blames requestField "query" (decodeQueryValue raw) :=
      (decodeQueryValue_within raw).blames fun value hvalue =>
        h value (decodeQueryValue_eq_ok.mp hvalue)
    rw [hpair, readPair, if_neg (pair_ne key raw), splitOnce_parameter hkey, ofOption_some,
      ok_bind]
    refine Blames.bind (hdecode.mapErr fun e he => ?_) _
    cases e <;> cases he
    rfl
  | @unknown key value hparam h =>
    have hkeys : key ≠ "target_host" ∧ key ≠ "target_port" ∧ key ≠ "udp_proxy_config" := by
      simpa [queryKeys] using h
    rw [hparam.readPair_eq, setParam, if_neg hkeys.1, if_neg hkeys.2.1, if_neg hkeys.2.2]
    exact blames_invalid _ _
  | host hparam h =>
    rw [hparam.readPair_eq, setParam, if_pos rfl]
    split_ifs with hseen
    · exact blames_invalid _ _
    · exact (blames_validateTargetHost (h.resolve_left (by simpa using hseen))).bind _
  | port hparam h =>
    rw [hparam.readPair_eq, setParam, if_neg (by decide), if_pos rfl]
    split_ifs with hseen
    · exact blames_invalid _ _
    · exact blames_targetPort (h.resolve_left (by simpa using hseen)) _
  | config hparam h =>
    rw [hparam.readPair_eq, setParam, if_neg (by decide), if_neg (by decide), if_pos rfl]
    split_ifs with hseen
    · exact blames_invalid _ _
    · exact (blames_validateUdpProxyConfig (h.resolve_left (by simpa using hseen))).bind _

/-- A part that adds no parameter has a fault. -/
theorem exists_pairFault (h : ∀ next, ¬Adds ip params pair next) :
    ∃ field, PairFault ip params pair field := by
  by_cases hequals : '=' ∈ pair.toList
  · cases hsplit : Str.splitOnce pair '=' with
    | none => exact absurd hequals (Str.splitOnce_eq_none.mp hsplit)
    | some parts =>
      obtain ⟨key, raw⟩ := parts
      obtain ⟨hlist, hkey⟩ := Str.splitOnce_eq_some.mp hsplit
      have hpair : pair = key ++ "=" ++ raw := String.toList_inj.mp (by rw [hlist]; simp)
      by_cases hcoding : ∃ value, Decodes (bytes raw) (bytes value)
      · obtain ⟨value, hvalue⟩ := hcoding
        have hparam : Parameter pair key value := ⟨raw, hpair, hkey, hvalue⟩
        by_cases hhost : key = "target_host"
        · subst hhost
          refine ⟨_, .host hparam ?_⟩
          by_contra hnot
          obtain ⟨hnew, hvalid⟩ := not_or.mp hnot
          exact h _ (.host (not_not.mp hnew) ⟨value, hparam, rfl,
            validateTargetHost_eq_ok.mpr ⟨rfl, not_not.mp hvalid⟩⟩)
        by_cases hport : key = "target_port"
        · subst hport
          refine ⟨_, .port hparam ?_⟩
          by_contra hnot
          obtain ⟨hnew, hvalid⟩ := not_or.mp hnot
          obtain ⟨port, hport⟩ := not_forall_not.mp hvalid
          exact h _ (.port (not_not.mp hnew) ⟨value, hparam, hport⟩)
        by_cases hconfig : key = "udp_proxy_config"
        · subst hconfig
          refine ⟨_, .config hparam ?_⟩
          by_contra hnot
          obtain ⟨hnew, hvalid⟩ := not_or.mp hnot
          exact h _ (.config (not_not.mp hnew) ⟨hparam,
            validateUdpProxyConfig_eq_ok.mpr ⟨rfl, not_not.mp hvalid⟩⟩)
        · exact ⟨_, .unknown hparam (by simp [queryKeys, hhost, hport, hconfig])⟩
      · exact ⟨_, .coding hpair hkey (not_exists.mp hcoding)⟩
  · exact ⟨_, .noEquals hequals⟩

/-! ## Queries -/

/-- What `from_uri` does behind the path. -/
def readQuery (ip : IpFromStr) (pairs : List String) : Result ConnectUdpRequest := do
  let params ← pairs.foldlM (readPair ip) Params.empty
  let targetHost ← ofOption
    (.invalidConnectUdpRequest "target_host" "missing query parameter 'target_host'")
    params.targetHost
  let targetPort ← ofOption
    (.invalidConnectUdpRequest "target_port" "missing query parameter 'target_port'")
    params.targetPort
  return ⟨targetHost, targetPort, params.udpProxyConfig⟩

/-- Why a query is refused: its first part that adds no parameter, or a parameter that is
missing at its end. -/
inductive QueryFault (ip : IpFromStr) (pairs : List String) : String → Prop
  | pair {front rest : List String} {pair field : String} {params : Params}
      (hpairs : pairs = front ++ pair :: rest) (hne : pair ≠ "")
      (hfront : Reaches ip (front.filter (· ≠ "")) .empty params)
      (h : PairFault ip params pair field) : QueryFault ip pairs field
  | noHost {params : Params} (h : Reaches ip (pairs.filter (· ≠ "")) .empty params)
      (hhost : params.targetHost = none) : QueryFault ip pairs "target_host"
  | noPort {params : Params} (h : Reaches ip (pairs.filter (· ≠ "")) .empty params)
      (hhost : params.targetHost ≠ none) (hport : params.targetPort = none) :
      QueryFault ip pairs "target_port"

theorem QueryFault.blames {pairs : List String} {field : String}
    (h : QueryFault ip pairs field) : Blames requestField field (readQuery ip pairs) := by
  cases h with
  | pair hpairs hne hfront h =>
    subst hpairs
    exact ((h.blames hne).foldlM (foldlM_readPair_eq_ok.mpr hfront) _).bind _
  | noHost h hhost =>
    rw [readQuery, foldlM_readPair_eq_ok.mpr h, ok_bind, hhost]
    exact blames_invalid _ _
  | noPort h hhost hport =>
    obtain ⟨host, hhost⟩ := Option.ne_none_iff_exists'.mp hhost
    rw [readQuery, foldlM_readPair_eq_ok.mpr h, ok_bind, hhost, hport]
    exact blames_invalid _ _

/-- A query holds a request or has a fault. -/
theorem query_or_fault (ip : IpFromStr) (pairs : List String) :
    (∃ request, Query ip pairs request) ∨ ∃ field, QueryFault ip pairs field := by
  obtain ⟨params, hloop⟩ | ⟨front, pair, rest, params, rfl, hfront, hpair⟩ :=
    foldlM_cases (readPair ip) Params.empty pairs
  · have hreaches := foldlM_readPair_eq_ok.mp hloop
    obtain ⟨host, port, config⟩ := params
    cases host with
    | none => exact .inr ⟨_, .noHost hreaches rfl⟩
    | some host =>
      cases port with
      | none => exact .inr ⟨_, .noPort hreaches (Option.some_ne_none host) rfl⟩
      | some port => exact .inl ⟨_, query_iff.mp hloop⟩
  · have hne : pair ≠ "" := by
      intro hempty
      exact hpair params (if_pos hempty)
    obtain ⟨field, hfault⟩ := exists_pairFault fun next hadds =>
      hpair next ((readPair_eq_ok hne).mpr hadds)
    exact .inr ⟨field, .pair rfl hne (foldlM_readPair_eq_ok.mp hfront) hfault⟩

/-! ## The arguments of `new` -/

/-- Why the arguments of `new` are refused: the first one that is not valid. -/
inductive ArgumentFault (ip : IpFromStr) (host : String) (port : UInt16) (config : Option String) :
    String → Prop
  | host (h : ¬TargetHost ip (Str.trim host)) : ArgumentFault ip host port config "target_host"
  | port (hhost : TargetHost ip (Str.trim host)) (h : port = 0) :
      ArgumentFault ip host port config "target_port"
  | config {text : String} (hhost : TargetHost ip (Str.trim host)) (hport : port ≠ 0)
      (htext : config = some text) (h : ¬UdpProxyConfig text) :
      ArgumentFault ip host port config "udp_proxy_config"

section Arguments

variable {host : String} {port : UInt16} {config : Option String} {field : String}

theorem ArgumentFault.blames (h : ArgumentFault ip host port config field) :
    Blames requestField field (new ip host port config) := by
  cases h with
  | host h => exact (blames_validateTargetHost h).bind _
  | port hhost h =>
    rw [new, validateTargetHost_eq_ok.mpr ⟨rfl, hhost⟩, ok_bind, validateTargetPort, if_pos h]
    exact blames_invalid _ _
  | config hhost hport htext h =>
    obtain ⟨e, he, hfield⟩ := blames_validateUdpProxyConfig h
    rw [new, validateTargetHost_eq_ok.mpr ⟨rfl, hhost⟩, ok_bind,
      validateTargetPort_eq_ok.mpr hport, ok_bind, htext]
    dsimp only
    rw [he]
    exact ⟨e, rfl, hfield⟩

/-- `new` makes a valid request or blames an argument that is not valid. -/
theorem new_faults : (∃ request, new ip host port config = .ok request ∧ Valid ip request) ∨
    ∃ field message, ArgumentFault ip host port config field ∧
      new ip host port config = invalid field message := by
  have hrefused {field : String} (h : ArgumentFault ip host port config field) :
      ∃ field message, ArgumentFault ip host port config field ∧
        new ip host port config = invalid field message := by
    obtain ⟨message, hmessage⟩ := blames_iff.mp h.blames
    exact ⟨field, message, h, hmessage⟩
  by_cases hhost : TargetHost ip (Str.trim host)
  · by_cases hport : port = 0
    · exact .inr (hrefused (.port hhost hport))
    · by_cases hconfig : ∀ text ∈ config, UdpProxyConfig text
      · have hvalid : Valid ip ⟨Str.trim host, port, config⟩ := ⟨hhost, hport, hconfig⟩
        exact .inl ⟨_, new_eq_ok.mpr ⟨rfl, hvalid⟩, hvalid⟩
      · obtain ⟨text, htext, hinvalid⟩ := not_forall₂.mp hconfig
        exact .inr (hrefused (.config hhost hport htext hinvalid))
  · exact .inr (hrefused (.host hhost))

end Arguments

/-! ## URIs -/

/-- What stands behind the scheme of a URI that is not too long and has no fragment. -/
def AfterScheme (uri rest : String) : Prop :=
  Str.len uri ≤ 8192 ∧ '#' ∉ uri.toList ∧ ∃ scheme, uri = scheme ++ rest ∧ Scheme scheme

/-- What stands behind a valid authority and its slash. -/
def AfterAuthority (ip : IpFromStr) (uri rest : String) : Prop :=
  ∃ authority, AfterScheme uri (authority ++ "/" ++ rest) ∧ '/' ∉ authority.toList ∧
    HostPort ip authority

/-- The query of a URI with the right path. -/
def AfterPath (ip : IpFromStr) (uri query : String) : Prop :=
  ∃ path suffix, AfterAuthority ip uri (path ++ suffix) ∧ QuerySuffix suffix query ∧
    '?' ∉ path.toList ∧ Normalizes (bytes path) (bytes "masque")

/-- Why a URI is refused: the first check that it does not pass. -/
inductive Fault (ip : IpFromStr) (uri : String) : String → Prop
  | uri (hlong : 8192 < Str.len uri) : Fault ip uri "uri"
  | fragment (hlen : Str.len uri ≤ 8192) (h : '#' ∈ uri.toList) : Fault ip uri "fragment"
  | scheme (hlen : Str.len uri ≤ 8192) (hfragment : '#' ∉ uri.toList)
      (h : ∀ scheme rest, uri = scheme ++ rest → ¬Scheme scheme) : Fault ip uri "scheme"
  | noPath {rest : String} (hfront : AfterScheme uri rest) (h : '/' ∉ rest.toList) :
      Fault ip uri "path"
  | authority {authority rest : String} (hfront : AfterScheme uri (authority ++ "/" ++ rest))
      (hslash : '/' ∉ authority.toList) (h : ¬HostPort ip authority) : Fault ip uri "authority"
  | path {path suffix query : String} (hfront : AfterAuthority ip uri (path ++ suffix))
      (hsuffix : QuerySuffix suffix query) (hpath : '?' ∉ path.toList)
      (h : ¬Normalizes (bytes path) (bytes "masque")) : Fault ip uri "path"
  | query {query field : String} (hfront : AfterPath ip uri query)
      (h : QueryFault ip (Str.split query '&') field) : Fault ip uri field

/-- What `from_uri` does behind the authority. -/
def readPath (ip : IpFromStr) (pathAndQuery : String) : Result ConnectUdpRequest := do
  let (path, query) := (Str.splitOnce pathAndQuery '?').getD (pathAndQuery, "")
  let path ← normalizePathSegment path
  if path ≠ "masque" then invalid "path" "URI path must be '/masque'"
  else readQuery ip (Str.split query '&')

/-- What `from_uri` does behind the scheme. -/
def readAuthority (ip : IpFromStr) (afterScheme : String) : Result ConnectUdpRequest := do
  let (authority, pathAndQuery) ← ofOption
    (.invalidConnectUdpRequest "path" "URI must contain '/masque' path")
    (Str.splitOnce afterScheme '/')
  if authority = "" then invalid "authority" "URI authority must not be empty"
  else if Str.contains authority '@' then
    invalid "authority" "URI authority must not contain userinfo"
  else do
    validateAuthority ip authority
    readPath ip pathAndQuery

/-- `fromUri` in its stages. -/
theorem fromUri_eq (ip : IpFromStr) (uri : String) :
    fromUri ip uri =
      if 8192 < Str.len uri then invalid "uri" "URI is too long"
      else if Str.contains uri '#' then invalid "fragment" "URI must not contain a fragment"
      else (do
        validateScheme uri
        let afterScheme ← Str.sliceFrom uri (Str.len "https://")
        readAuthority ip afterScheme) :=
  rfl

theorem AfterScheme.fromUri_eq {uri rest : String} (h : AfterScheme uri rest) :
    fromUri ip uri = readAuthority ip rest := by
  obtain ⟨hlen, hfragment, scheme, rfl, hscheme⟩ := h
  have hmark : ¬Str.contains (scheme ++ rest) '#' = true := by
    rwa [contains_eq_true]
  rw [ConnectUdpRequest.fromUri_eq, if_neg (by omega), if_neg hmark,
    validateScheme_eq_ok.mpr ⟨scheme, rest, rfl, hscheme⟩, ok_bind, ← hscheme.len,
    Str.sliceFrom_append, ok_bind]

theorem splitOnce_slash {authority rest : String} (h : '/' ∉ authority.toList) :
    Str.splitOnce (authority ++ "/" ++ rest) '/' = some (authority, rest) :=
  Str.splitOnce_eq_some.mpr ⟨by simp, h⟩

theorem HostPort.readAuthority_eq (hip : ip.Ipv6Alphabet) {authority rest : String}
    (h : HostPort ip authority) (hslash : '/' ∉ authority.toList) :
    readAuthority ip (authority ++ "/" ++ rest) = readPath ip rest := by
  have hempty : authority ≠ "" := by
    intro hempty
    obtain ⟨hlen, -⟩ := hostPort_iff.mp h
    rw [hempty] at hlen
    exact absurd hlen (by decide)
  have huserinfo : ¬Str.contains authority '@' = true := by
    rw [contains_eq_true]
    exact notMem_authority hip h (by decide)
  rw [readAuthority, splitOnce_slash hslash, ofOption_some, ok_bind]
  dsimp only
  rw [if_neg hempty, if_neg huserinfo, validateAuthority, (validateHostPort_eq_ok hip).mpr h,
    ok_bind]

theorem blames_readAuthority (hip : ip.Ipv6Alphabet) {authority rest : String}
    (h : ¬HostPort ip authority) (hslash : '/' ∉ authority.toList) :
    Blames requestField "authority" (readAuthority ip (authority ++ "/" ++ rest)) := by
  rw [readAuthority, splitOnce_slash hslash, ofOption_some, ok_bind]
  dsimp only
  split_ifs
  · exact blames_invalid _ _
  · exact blames_invalid _ _
  · refine Blames.bind ((validateHostPort_within "authority" authority).blames ?_) _
    intro u hok
    exact h ((validateHostPort_eq_ok hip).mp hok)

theorem readPath_eq {path suffix query : String} (hpath : '?' ∉ path.toList)
    (hsuffix : QuerySuffix suffix query) (hnormal : Normalizes (bytes path) (bytes "masque")) :
    readPath ip (path ++ suffix) = readQuery ip (Str.split query '&') := by
  rw [readPath, getD_splitOnce hpath hsuffix]
  dsimp only
  rw [normalizePathSegment_eq_ok.mpr hnormal, ok_bind, if_neg (not_not.mpr rfl)]

theorem blames_readPath {path suffix query : String} (hpath : '?' ∉ path.toList)
    (hsuffix : QuerySuffix suffix query) (h : ¬Normalizes (bytes path) (bytes "masque")) :
    Blames requestField "path" (readPath ip (path ++ suffix)) := by
  rw [readPath, getD_splitOnce hpath hsuffix]
  dsimp only
  obtain ⟨normal, hnormal⟩ | ⟨field, hfield, hblames⟩ := normalizePathSegment_within path
  · have hne : normal ≠ "masque" := by
      intro hmasque
      rw [hmasque] at hnormal
      exact h (normalizePathSegment_eq_ok.mp hnormal)
    rw [hnormal, ok_bind, if_pos hne]
    exact blames_invalid _ _
  · obtain rfl := Set.mem_singleton_iff.mp hfield
    exact hblames.bind _

theorem AfterAuthority.fromUri_eq (hip : ip.Ipv6Alphabet) {uri rest : String}
    (h : AfterAuthority ip uri rest) : fromUri ip uri = readPath ip rest := by
  obtain ⟨authority, hfront, hslash, hhost⟩ := h
  rw [hfront.fromUri_eq, hhost.readAuthority_eq hip hslash]

theorem AfterPath.fromUri_eq (hip : ip.Ipv6Alphabet) {uri query : String}
    (h : AfterPath ip uri query) : fromUri ip uri = readQuery ip (Str.split query '&') := by
  obtain ⟨path, suffix, hfront, hsuffix, hpath, hnormal⟩ := h
  rw [hfront.fromUri_eq hip, readPath_eq hpath hsuffix hnormal]

/-- A request is blamed for its fault. -/
theorem Fault.blames (hip : ip.Ipv6Alphabet) {uri field : String} (h : Fault ip uri field) :
    Blames requestField field (fromUri ip uri) := by
  cases h with
  | uri hlong =>
    rw [fromUri_eq, if_pos hlong]
    exact blames_invalid _ _
  | fragment hlen h =>
    rw [fromUri_eq, if_neg (by omega), if_pos (contains_eq_true.mpr h)]
    exact blames_invalid _ _
  | scheme hlen hfragment h =>
    have hmark : ¬Str.contains uri '#' = true := by
      rwa [contains_eq_true]
    rw [fromUri_eq, if_neg (by omega), if_neg hmark]
    refine Blames.bind ((validateScheme_within uri).blames fun u hok => ?_) _
    obtain ⟨scheme, rest, huri, hscheme⟩ := validateScheme_eq_ok.mp hok
    exact h scheme rest huri hscheme
  | noPath hfront h =>
    rw [hfront.fromUri_eq, readAuthority, Str.splitOnce_eq_none.mpr h]
    exact blames_invalid _ _
  | authority hfront hslash h =>
    rw [hfront.fromUri_eq]
    exact blames_readAuthority hip h hslash
  | path hfront hsuffix hpath h =>
    rw [hfront.fromUri_eq hip]
    exact blames_readPath hpath hsuffix h
  | query hfront h =>
    rw [hfront.fromUri_eq hip]
    exact h.blames

/-- Every URI is one of the grammar or has a fault. -/
theorem uri_or_fault (hip : ip.Ipv6Alphabet) (uri : String) :
    (∃ request, Uri ip uri request) ∨ ∃ field, Fault ip uri field := by
  by_cases hlong : 8192 < Str.len uri
  · exact .inr ⟨_, .uri hlong⟩
  have hlen : Str.len uri ≤ 8192 := by omega
  by_cases hfragment : '#' ∈ uri.toList
  · exact .inr ⟨_, .fragment hlen hfragment⟩
  by_cases hscheme : ∃ scheme rest, uri = scheme ++ rest ∧ Scheme scheme
  · obtain ⟨scheme, rest, huri, hscheme⟩ := hscheme
    have hfront : AfterScheme uri rest := ⟨hlen, hfragment, scheme, huri, hscheme⟩
    cases hsplit : Str.splitOnce rest '/' with
    | none => exact .inr ⟨_, .noPath hfront (Str.splitOnce_eq_none.mp hsplit)⟩
    | some parts =>
      obtain ⟨authority, pathAndQuery⟩ := parts
      obtain ⟨hlist, hslash⟩ := Str.splitOnce_eq_some.mp hsplit
      obtain rfl : rest = authority ++ "/" ++ pathAndQuery :=
        String.toList_inj.mp (by rw [hlist]; simp)
      by_cases hhost : HostPort ip authority
      · obtain ⟨path, suffix, query, -, rfl, hsuffix, hpath⟩ := exists_querySuffix pathAndQuery
        have hauthority : AfterAuthority ip uri (path ++ suffix) :=
          ⟨authority, hfront, hslash, hhost⟩
        by_cases hnormal : Normalizes (bytes path) (bytes "masque")
        · obtain ⟨request, hquery⟩ | ⟨field, hfault⟩ :=
            query_or_fault ip (Str.split query '&')
          · refine .inl ⟨request, hlen, hfragment, scheme, authority, path, suffix, query, ?_,
              hsuffix, hscheme, hslash, (validateHostPort_eq_ok hip).mpr hhost, hpath, hnormal,
              hquery⟩
            rw [huri]
            simp only [String.append_assoc]
          · exact .inr ⟨field, .query ⟨path, suffix, hauthority, hsuffix, hpath, hnormal⟩ hfault⟩
        · exact .inr ⟨_, .path hauthority hsuffix hpath hnormal⟩
      · exact .inr ⟨_, .authority hfront hslash hhost⟩
  · refine .inr ⟨_, .scheme hlen hfragment fun scheme rest huri hs => hscheme ?_⟩
    exact ⟨scheme, rest, huri, hs⟩

/-! ## No index is out of bounds -/

theorem setParam_total (params : Params) (key value : String) :
    setParam ip params key value ≠ .panic := by
  rw [setParam]
  split_ifs
  · exact err_ne_panic _
  · exact bind_ne_panic (validateTargetHost_within value).ne_panic fun _ _ => ok_ne_panic _
  · exact err_ne_panic _
  · refine bind_ne_panic (parseTargetPort_within value).ne_panic fun port _ => ?_
    exact bind_ne_panic (validateTargetPort_within port).ne_panic fun _ _ => ok_ne_panic _
  · exact err_ne_panic _
  · exact bind_ne_panic (validateUdpProxyConfig_within value).ne_panic fun _ _ => ok_ne_panic _
  · exact err_ne_panic _

theorem readPair_total (params : Params) (pair : String) : readPair ip params pair ≠ .panic := by
  rw [readPair]
  split_ifs
  · exact ok_ne_panic params
  · refine bind_ne_panic (ofOption_ne_panic _ _) fun part _ => ?_
    refine bind_ne_panic (mapErr_ne_panic (decodeQueryValue_total part.2) _) fun value _ => ?_
    exact setParam_total params part.1 value

theorem readQuery_total (pairs : List String) : readQuery ip pairs ≠ .panic := by
  rw [readQuery]
  refine bind_ne_panic (foldlM_ne_panic readPair_total _ pairs) fun params _ => ?_
  refine bind_ne_panic (ofOption_ne_panic _ _) fun host _ => ?_
  exact bind_ne_panic (ofOption_ne_panic _ _) fun _ _ => ok_ne_panic _

theorem readPath_total (pathAndQuery : String) : readPath ip pathAndQuery ≠ .panic := by
  rw [readPath]
  refine bind_ne_panic (normalizePathSegment_total _) fun path _ => ?_
  split_ifs
  · exact err_ne_panic _
  · exact readQuery_total _

theorem readAuthority_total (afterScheme : String) : readAuthority ip afterScheme ≠ .panic := by
  rw [readAuthority]
  refine bind_ne_panic (ofOption_ne_panic _ _) fun parts _ => ?_
  dsimp only
  split_ifs
  · exact err_ne_panic _
  · exact err_ne_panic _
  · exact bind_ne_panic (validateHostPort_total _ _) fun _ _ => readPath_total _

/-- The scheme ends at a character boundary, whatever stands behind it. -/
theorem fromUri_total (uri : String) : fromUri ip uri ≠ .panic := by
  rw [fromUri_eq]
  split_ifs
  · exact err_ne_panic _
  · exact err_ne_panic _
  refine bind_ne_panic (validateScheme_within uri).ne_panic fun u hok => ?_
  obtain ⟨scheme, rest, rfl, hscheme⟩ := validateScheme_eq_ok.mp hok
  rw [← hscheme.len, Str.sliceFrom_append, ok_bind]
  exact readAuthority_total rest

theorem new_total (host : String) (port : UInt16) (config : Option String) :
    new ip host port config ≠ .panic := by
  rw [new]
  refine bind_ne_panic (validateTargetHost_within host).ne_panic fun host' _ => ?_
  refine bind_ne_panic (validateTargetPort_within port).ne_panic fun _ _ => ?_
  cases config with
  | none => exact ok_ne_panic _
  | some text =>
    refine bind_ne_panic ?_ fun _ _ => ok_ne_panic _
    exact bind_ne_panic (validateUdpProxyConfig_within text).ne_panic fun _ _ => ok_ne_panic _

theorem toUri_total (request : ConnectUdpRequest) (authority : String) :
    toUri ip request authority ≠ .panic := by
  rw [toUri]
  refine bind_ne_panic (validateHostPort_total _ _) fun _ _ => ?_
  dsimp only
  split_ifs
  · exact err_ne_panic _
  · exact ok_ne_panic _

/-! ## The faults of URIs -/

/-- `fromUri` returns on every input: it makes the request of the URI, or refuses the URI and
names the field of its fault, which is the first in the order of the checks. -/
theorem fromUri_faults (ip : IpFromStr) (hip : ip.Ipv6Alphabet) (uri : String) :
    ((∃ request, Uri ip uri request ∧ fromUri ip uri = .ok request) ∨
      ∃ field message, Fault ip uri field ∧ fromUri ip uri = invalid field message) ∧
    ∀ field, (∃ message, fromUri ip uri = invalid field message) ↔ Fault ip uri field := by
  have hcases : (∃ request, Uri ip uri request ∧ fromUri ip uri = .ok request) ∨
      ∃ field, Fault ip uri field := by
    obtain ⟨request, huri⟩ | hfault := uri_or_fault hip uri
    · exact .inl ⟨request, huri, fromUri_complete hip huri⟩
    · exact .inr hfault
  refine ⟨?_, fun field => blames_iff.symm.trans ?_⟩
  · obtain hok | ⟨field, hfault⟩ := hcases
    · exact .inl hok
    · obtain ⟨message, hmessage⟩ := blames_iff.mp (hfault.blames hip)
      exact .inr ⟨field, message, hfault, hmessage⟩
  · refine blames_iff_of_cases (fun field h => h.blames hip) ?_ field
    exact hcases.imp_left fun h => ⟨h.choose, h.choose_spec.2⟩

/-- A second host is found before the port that is missing. -/
theorem fromUri_faults_duplicate : ∃ message,
    fromUri .loopback "https://[::1]:443/masque?target_host=a&target_host=b" =
      invalid "target_host" message := by
  have hauthority : validateHostPort .loopback "authority" "[::1]:443" = .ok () := by
    decide +kernel
  have hhost := (validateHostPort_eq_ok IpFromStr.loopback_alphabet).mp hauthority
  have hsplit : Str.split "target_host=a&target_host=b" '&' =
      ["target_host=a", "target_host=b"] := by decide +kernel
  have hseen : ["target_host=a"].foldlM (readPair .loopback) Params.empty =
      .ok ⟨some "a", none, none⟩ := by decide +kernel
  have hparam : Parameter "target_host=b" "target_host" "b" :=
    ⟨"b", rfl, by decide, Percent.scans_of_notMem (by decide)⟩
  have hpair : PairFault .loopback ⟨some "a", none, none⟩ "target_host=b" "target_host" :=
    .host hparam (.inl (Option.some_ne_none "a"))
  have hquery : QueryFault .loopback (Str.split "target_host=a&target_host=b" '&')
      "target_host" := by
    rw [hsplit]
    exact @QueryFault.pair _ _ ["target_host=a"] [] _ _ _ rfl (by decide)
      (foldlM_readPair_eq_ok.mp hseen) hpair
  refine ((fromUri_faults .loopback IpFromStr.loopback_alphabet _).2 "target_host").mpr
    (.query ⟨"masque", "?target_host=a&target_host=b", ⟨"[::1]:443", ⟨by decide, by decide,
      "https://", rfl, scheme_https⟩, by decide, hhost⟩, .inr rfl, by decide,
      normalizes_masque⟩ hquery)

end Masque.ConnectUdpRequest

import Masque.Error
import Masque.Library.Percent
import Masque.Library.Str

/-!
# CONNECT-UDP requests

The request type of `connect_udp.rs` and its URI template: the two constructors, the
printer and the field checks. What the standard library's address parsers accept is a
parameter.
-/

namespace Masque

open Outcome Utf8

/-- The texts that `Ipv4Addr::from_str` and `Ipv6Addr::from_str` accept. -/
structure IpFromStr where
  ipv4 : String → Bool
  ipv6 : String → Bool

def maxTargetHostLen : ℕ := 253

def maxUdpProxyConfigLen : ℕ := 4096

def maxUriLen : ℕ := 8192

def maxProxyAuthorityLen : ℕ := 1024

/-- A CONNECT-UDP request. -/
structure ConnectUdpRequest where
  targetHost : String
  targetPort : UInt16
  udpProxyConfig : Option String
  deriving DecidableEq, Repr

namespace ConnectUdpRequest

/-- `Err(Error::InvalidConnectUdpRequest { field, message })`. -/
def invalid {α : Type} (field message : String) : Result α :=
  .err (.invalidConnectUdpRequest field message)

/-! ## Percent-coding -/

def isUnreserved (b : UInt8) : Bool :=
  isAlphanumeric b || [ascii '-', ascii '.', ascii '_', ascii '~'].contains b

def hexValue (b : UInt8) : Option UInt8 :=
  if ascii '0' ≤ b ∧ b ≤ ascii '9' then some (b - ascii '0')
  else if ascii 'A' ≤ b ∧ b ≤ ascii 'F' then some (b - ascii 'A' + 10)
  else if ascii 'a' ≤ b ∧ b ≤ ascii 'f' then some (b - ascii 'a' + 10)
  else none

/-- An upper-case hexadecimal digit. -/
def hexDigit (n : UInt8) : UInt8 :=
  if n < 10 then ascii '0' + n else ascii 'A' + (n - 10)

def encodeQueryValue (input : String) : String :=
  String.ofList (((bytes input).flatMap (Percent.encodeByte isUnreserved hexDigit)).map
    fun b => Char.ofNat b.toNat)

/-- The body shared by `decode_query_value` and `normalize_path_segment`, which differ in
what a triple is replaced by and in their errors. -/
def decodePercent (emit : UInt8 → List UInt8 → ℕ → Result (List UInt8))
    (field incomplete malformed notUtf8 : String) (value : String) : Result String :=
  if !(bytes value).any (· == ascii '%') then .ok value
  else do
    let out ← Percent.scanFrom hexValue emit (.invalidConnectUdpRequest field incomplete)
      (.invalidConnectUdpRequest field malformed) (bytes value) 0 []
    ofOption (.invalidConnectUdpRequest field notUtf8) (decode out)

def decodeQueryValue (value : String) : Result String :=
  decodePercent (fun decoded _ _ => .ok [decoded]) "query"
    "has an incomplete percent-encoding sequence"
    "has an invalid percent-encoding sequence"
    "is not valid UTF-8" value

def normalizePathSegment (segment : String) : Result String :=
  decodePercent
    (fun decoded bytes i =>
      if isUnreserved decoded then .ok [decoded] else slice bytes i (i + 3)) "path"
    "path has an incomplete percent-encoding sequence"
    "path has an invalid percent-encoding sequence"
    "path is not valid UTF-8" segment

/-! ## Field checks -/

def hasControlCharacter (s : String) : Bool :=
  (bytes s).any fun b => b < 0x20 || b == 0x7F

def isValidRegNameChar (c : Char) : Bool :=
  c.isAlphanum || "-._~!$&'()*+,;=".toList.contains c

def validateScheme (uri : String) : Result Unit :=
  let isHttps := Str.len "https://" ≤ Str.len uri &&
    Str.eqIgnoreAsciiCase ((bytes uri).take (Str.len "https://")) (bytes "https://")
  if !isHttps then invalid "scheme" "URI scheme must be 'https'" else .ok ()

section Hosts

variable (ip : IpFromStr)

def validateIpv6Literal (field s : String) : Result Unit :=
  if ip.ipv6 s then .ok () else invalid field s!"'{s}' is not a valid IPv6 address"

def validateHost (field host : String) : Result Unit :=
  if Str.startsWith host '[' && Str.endsWith host ']' then do
    let inner ← Str.slice host 1 (Str.len host - 1)
    validateIpv6Literal ip field inner
  else if ((bytes host).all fun b => isDigit b || b == ascii '.') && ip.ipv4 host then .ok ()
  else if !host.toList.all isValidRegNameChar then
    invalid field s!"{field} contains invalid characters"
  else .ok ()

/-- The port text of an authority whose host is valid. -/
def authorityPort (field authority : String) : Result String :=
  if Str.startsWith authority '[' then
    match Str.rsplitOnce authority ':' with
    | none => invalid field "IPv6 authority must be '[ipv6]:port'"
    | some (host, port) =>
      if !Str.endsWith host ']' then invalid field "IPv6 authority must end with ']'"
      else do
        let inner ← Str.slice host 1 (Str.len host - 1)
        validateIpv6Literal ip field inner
        return port
  else
    match Str.rsplitOnce authority ':' with
    | none => invalid field s!"{field} must be 'host:port'"
    | some (host, port) =>
      if host = "" then invalid field s!"{field} host must not be empty"
      else do
        validateHost ip field host
        return port

def validateHostPort (field authority : String) : Result Unit :=
  if authority = "" then invalid field "must not be empty"
  else if maxProxyAuthorityLen < Str.len authority then invalid field s!"{field} is too long"
  else if hasControlCharacter authority then
    invalid field s!"{field} contains control characters"
  else do
    let portStr ← authorityPort ip field authority
    if portStr = "" then invalid field s!"{field} port must not be empty"
    else if !(bytes portStr).all isDigit then
      invalid field s!"{field} port '{portStr}' is not numeric"
    else do
      let port ← ofOption
        (.invalidConnectUdpRequest field s!"{field} port '{portStr}' is out of range")
        (Str.parseU16 portStr)
      if port = 0 then invalid field s!"{field} port must not be zero" else .ok ()

def validateProxyAuthority (authority : String) : Result Unit :=
  validateHostPort ip "proxy_authority" authority

def validateAuthority (authority : String) : Result Unit :=
  validateHostPort ip "authority" authority

def validateTargetHost (host : String) : Result String :=
  let trimmed := Str.trim host
  if trimmed = "" then invalid "target_host" "must not be empty"
  else if maxTargetHostLen < Str.len trimmed then
    invalid "target_host" "target_host is too long"
  else if hasControlCharacter trimmed then
    invalid "target_host" "target_host contains control characters"
  else do
    validateHost ip "target_host" trimmed
    return trimmed

end Hosts

def validateTargetPort (port : UInt16) : Result Unit :=
  if port = 0 then invalid "target_port" "must not be zero" else .ok ()

def validateUdpProxyConfig (config : String) : Result String :=
  if maxUdpProxyConfigLen < Str.len config then
    invalid "udp_proxy_config" "udp_proxy_config is too long"
  else if hasControlCharacter config then
    invalid "udp_proxy_config" "udp_proxy_config contains control characters"
  else .ok config

def parseTargetPort (value : String) : Result UInt16 :=
  if !(bytes value).all isDigit then
    invalid "target_port" s!"target_port '{value}' is not a valid port number"
  else
    ofOption (.invalidConnectUdpRequest "target_port" s!"target_port '{value}' is out of range")
      (Str.parseU16 value)

/-! ## Requests -/

section Requests

variable (ip : IpFromStr)

def new (targetHost : String) (targetPort : UInt16) (udpProxyConfig : Option String) :
    Result ConnectUdpRequest := do
  let targetHost ← validateTargetHost ip targetHost
  validateTargetPort targetPort
  let udpProxyConfig ← match udpProxyConfig with
    | none => .ok none
    | some config => some <$> validateUdpProxyConfig config
  return ⟨targetHost, targetPort, udpProxyConfig⟩

/-- The parameters that the loop of `from_uri` has seen. -/
structure Params where
  targetHost : Option String
  targetPort : Option UInt16
  udpProxyConfig : Option String
  deriving DecidableEq, Repr

def Params.empty : Params := ⟨none, none, none⟩

/-- The arms of the loop's `match key`, on the decoded value. -/
def setParam (params : Params) (key value : String) : Result Params :=
  if key = "target_host" then
    if params.targetHost.isSome then
      invalid "target_host" "duplicate query parameter 'target_host'"
    else do
      let host ← validateTargetHost ip value
      return { params with targetHost := some host }
  else if key = "target_port" then
    if params.targetPort.isSome then
      invalid "target_port" "duplicate query parameter 'target_port'"
    else do
      let port ← parseTargetPort value
      validateTargetPort port
      return { params with targetPort := some port }
  else if key = "udp_proxy_config" then
    if params.udpProxyConfig.isSome then
      invalid "udp_proxy_config" "duplicate query parameter 'udp_proxy_config'"
    else do
      let config ← validateUdpProxyConfig value
      return { params with udpProxyConfig := some config }
  else invalid "query" s!"unknown query parameter '{key}'"

/-- One round of the loop of `from_uri`. -/
def readPair (params : Params) (pair : String) : Result Params :=
  if pair = "" then .ok params
  else do
    let (key, value) ← ofOption
      (.invalidConnectUdpRequest "query" s!"query parameter '{pair}' is missing '='")
      (Str.splitOnce pair '=')
    let value ← (decodeQueryValue value).mapErr fun e => match e with
      | .invalidConnectUdpRequest _ message =>
        .invalidConnectUdpRequest "query" s!"query parameter '{key}' {message}"
      | other => other
    setParam ip params key value

def fromUri (uri : String) : Result ConnectUdpRequest :=
  if maxUriLen < Str.len uri then invalid "uri" "URI is too long"
  else if Str.contains uri '#' then invalid "fragment" "URI must not contain a fragment"
  else do
    validateScheme uri
    let afterScheme ← Str.sliceFrom uri (Str.len "https://")
    let (authority, pathAndQuery) ← ofOption
      (.invalidConnectUdpRequest "path" "URI must contain '/masque' path")
      (Str.splitOnce afterScheme '/')
    if authority = "" then invalid "authority" "URI authority must not be empty"
    else if Str.contains authority '@' then
      invalid "authority" "URI authority must not contain userinfo"
    else do
      validateAuthority ip authority
      let (path, query) := (Str.splitOnce pathAndQuery '?').getD (pathAndQuery, "")
      let path ← normalizePathSegment path
      if path ≠ "masque" then invalid "path" "URI path must be '/masque'"
      else do
        let params ← (Str.split query '&').foldlM (readPair ip) Params.empty
        let targetHost ← ofOption
          (.invalidConnectUdpRequest "target_host" "missing query parameter 'target_host'")
          params.targetHost
        let targetPort ← ofOption
          (.invalidConnectUdpRequest "target_port" "missing query parameter 'target_port'")
          params.targetPort
        return ⟨targetHost, targetPort, params.udpProxyConfig⟩

def toUri (request : ConnectUdpRequest) (proxyAuthority : String) : Result String := do
  validateProxyAuthority ip proxyAuthority
  let host := encodeQueryValue request.targetHost
  let port := request.targetPort.toNat.repr
  let uri := "https://" ++ proxyAuthority ++ "/masque?target_host=" ++ host ++
    "&target_port=" ++ port
  let uri := match request.udpProxyConfig with
    | some config => uri ++ "&udp_proxy_config=" ++ encodeQueryValue config
    | none => uri
  if maxUriLen < Str.len uri then invalid "uri" "generated URI is too long" else .ok uri

end Requests

end ConnectUdpRequest

end Masque

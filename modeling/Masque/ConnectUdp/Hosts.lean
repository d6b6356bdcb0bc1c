import Masque.ConnectUdp

/-!
# Hosts and authorities

What the host and authority checks accept. Both are sets of texts over a small alphabet:
none of the characters that delimit the parts of a URI is in it, given that the standard
library accepts no other IPv6 text.
-/

namespace Masque

open Outcome Utf8

/-- The characters of an IPv6 address. -/
def isIpv6Char (c : Char) : Bool :=
  c.isDigit || ('a' ≤ c && c ≤ 'f') || ('A' ≤ c && c ≤ 'F') || c == ':' || c == '.'

/-- `Ipv6Addr::from_str` accepts nothing but hexadecimal digits, colons and dots. -/
def IpFromStr.Ipv6Alphabet (ip : IpFromStr) : Prop :=
  ∀ s, ip.ipv6 s = true → ∀ c ∈ s.toList, isIpv6Char c = true

/-- Parsers that know the loopback addresses only. -/
def IpFromStr.loopback : IpFromStr := ⟨(· == "127.0.0.1"), (· == "::1")⟩

theorem IpFromStr.loopback_alphabet : loopback.Ipv6Alphabet := by
  intro s hs
  rw [beq_iff_eq.mp hs]
  simp [isIpv6Char]

namespace ConnectUdpRequest

/-- An IPv6 address in brackets. -/
def Bracketed (ip : IpFromStr) (host : String) : Prop :=
  ∃ x, host = "[" ++ x ++ "]" ∧ ip.ipv6 x = true

/-- A registered name, which IPv4 addresses are as well. -/
def RegName (host : String) : Prop :=
  ∀ c ∈ host.toList, isValidRegNameChar c = true

/-- A decimal port number, possibly with leading zeros. -/
def Port (s : String) (n : UInt16) : Prop :=
  s ≠ "" ∧ (∀ c ∈ s.toList, c.isDigit = true) ∧
    Nat.ofDigitChars 10 s.toList 0 = n.toNat ∧ n ≠ 0

/-- `host:port` with a bracketed or a registered host. -/
def HostPort (ip : IpFromStr) (authority : String) : Prop :=
  Str.len authority ≤ 1024 ∧
    ∃ host port n, authority = host ++ ":" ++ port ∧ Port port n ∧
      (Bracketed ip host ∨ host ≠ "" ∧ RegName host)

/-! ## Characters -/

theorem lt_of_isAlphanum {c : Char} (h : c.isAlphanum = true) : c.toNat < 128 := by
  simp only [Char.isAlphanum, Char.isAlpha, Char.isUpper, Char.isLower, Char.isDigit,
    Bool.or_eq_true, Bool.and_eq_true, decide_eq_true_eq, UInt32.le_iff_toNat_le, ge_iff_le] at h
  change ((65 ≤ c.toNat ∧ c.toNat ≤ 90) ∨ (97 ≤ c.toNat ∧ c.toNat ≤ 122)) ∨
    (48 ≤ c.toNat ∧ c.toNat ≤ 57) at h
  omega

theorem lt_of_isValidRegNameChar {c : Char} (h : isValidRegNameChar c = true) :
    c.toNat < 128 := by
  rcases Bool.or_eq_true_iff.mp h with h | h
  · exact lt_of_isAlphanum h
  · have hall : ∀ c ∈ "-._~!$&'()*+,;=".toList, c.toNat < 128 := by simp
    exact hall c (List.contains_iff_mem.mp h)

theorem lt_of_isIpv6Char {c : Char} (h : isIpv6Char c = true) : c.toNat < 128 := by
  simp only [isIpv6Char, Bool.or_eq_true, Bool.and_eq_true, decide_eq_true_eq, beq_iff_eq,
    Char.le_def, UInt32.le_iff_toNat_le] at h
  rcases h with (((h | h) | h) | rfl) | rfl
  · exact lt_of_isDigit h
  · change 97 ≤ c.toNat ∧ c.toNat ≤ 102 at h
    omega
  · change 65 ≤ c.toNat ∧ c.toNat ≤ 70 at h
    omega
  all_goals decide

/-- The characters of an authority. -/
def isAuthorityChar (c : Char) : Bool :=
  isValidRegNameChar c || ['[', ']', ':'].contains c

theorem lt_of_isAuthorityChar {c : Char} (h : isAuthorityChar c = true) : c.toNat < 128 := by
  rcases Bool.or_eq_true_iff.mp h with h | h
  · exact lt_of_isValidRegNameChar h
  · have hall : ∀ c ∈ ['[', ']', ':'], c.toNat < 128 := by simp
    exact hall c (List.contains_iff_mem.mp h)

theorem isAuthorityChar_of_isIpv6Char {c : Char} (h : isIpv6Char c = true) :
    isAuthorityChar c = true :=
  forall_ascii (p := fun c => isIpv6Char c = true → isAuthorityChar c = true)
    (by decide +kernel) (lt_of_isIpv6Char h) h

theorem isValidRegNameChar_of_isDigit {c : Char} (h : c.isDigit = true) :
    isValidRegNameChar c = true := by
  rw [isValidRegNameChar, Char.isAlphanum, h, Bool.or_true, Bool.true_or]

/-- The unreserved characters of a URI. -/
def Unreserved (c : Char) : Prop :=
  c.isAlpha = true ∨ c.isDigit = true ∨ c ∈ "-._~".toList

instance : DecidablePred Unreserved := fun c =>
  inferInstanceAs (Decidable (c.isAlpha = true ∨ c.isDigit = true ∨ c ∈ "-._~".toList))

/-- The characters of a URI that may delimit the parts of a component. -/
def SubDelim (c : Char) : Prop :=
  c ∈ "!$&'()*+,;=".toList

/-- The characters of a registered name are the unreserved ones and the sub-delimiters. -/
theorem isValidRegNameChar_iff {c : Char} :
    isValidRegNameChar c = true ↔ Unreserved c ∨ SubDelim c := by
  have hchars : "-._~!$&'()*+,;=".toList = "-._~".toList ++ "!$&'()*+,;=".toList := by
    decide +kernel
  rw [isValidRegNameChar, Char.isAlphanum, hchars, Bool.or_eq_true, Bool.or_eq_true,
    List.contains_iff_mem, List.mem_append, Unreserved, SubDelim]
  tauto

theorem regName_iff {host : String} :
    RegName host ↔ ∀ c ∈ host.toList, Unreserved c ∨ SubDelim c :=
  forall₂_congr fun _ _ => isValidRegNameChar_iff

/-- A control character. -/
def IsControl (c : Char) : Prop := c.toNat < 0x20 ∨ c.toNat = 0x7F

/-- No character of an authority is a control character. -/
theorem not_isControl_of_isAuthorityChar {c : Char} (h : isAuthorityChar c = true) :
    ¬IsControl c :=
  forall_ascii (p := fun c => isAuthorityChar c = true → ¬(c.toNat < 0x20 ∨ c.toNat = 0x7F))
    (by decide +kernel) (lt_of_isAuthorityChar h) h

theorem hasControlCharacter_eq_true {s : String} :
    hasControlCharacter s = true ↔ ∃ c ∈ s.toList, IsControl c := by
  have hiff : (∃ b ∈ bytes s, (b < 0x20 || b == 0x7F) = true) ↔
      ∃ c ∈ s.toList, c.toNat < 128 ∧ (ascii c < 0x20 || ascii c == 0x7F) = true :=
    exists_mem_encode (by decide)
  have hcontrol {c : Char} (hc : c.toNat < 128) :
      (ascii c < 0x20 || ascii c == 0x7F) = true ↔ IsControl c :=
    forall_ascii (p := fun c => (ascii c < 0x20 || ascii c == 0x7F) = true ↔
      (c.toNat < 0x20 ∨ c.toNat = 0x7F)) (by decide +kernel) hc
  rw [hasControlCharacter, List.any_eq_true]
  refine hiff.trans ?_
  constructor
  · rintro ⟨c, hc, hlt, h⟩
    exact ⟨c, hc, (hcontrol hlt).mp h⟩
  · rintro ⟨c, hc, h⟩
    have hlt : c.toNat < 128 := by
      rcases h with h | h <;> omega
    exact ⟨c, hc, hlt, (hcontrol hlt).mpr h⟩

/-! ## Hosts -/

section Brackets

variable {host x : String}

theorem slice_brackets (x : String) :
    (Str.slice ("[" ++ x ++ "]") 1 (Str.len ("[" ++ x ++ "]") - 1) : Result String) = .ok x := by
  have hlen : Str.len ("[" ++ x ++ "]") - 1 = Str.len "[" + Str.len x := by
    rw [Str.len_append, Str.len_append]
    rfl
  rw [hlen]
  exact Str.slice_append "[" x "]"

theorem exists_brackets (hstart : Str.startsWith host '[' = true)
    (hend : Str.endsWith host ']' = true) : ∃ x, host = "[" ++ x ++ "]" := by
  have hhead : host.toList.head? = some '[' := beq_iff_eq.mp hstart
  have hlast : host.toList.getLast? = some ']' := beq_iff_eq.mp hend
  have hcons := List.cons_head?_tail hhead
  have htail : host.toList.tail ≠ [] := by
    intro hnil
    rw [← hcons, hnil] at hlast
    exact absurd hlast (by decide)
  have hback := List.dropLast_append_getLast htail
  have hclose : host.toList.tail.getLast htail = ']' := by
    rw [← hcons, List.getLast?_cons_of_ne_nil htail,
      List.getLast?_eq_getLast_of_ne_nil htail] at hlast
    exact Option.some.inj hlast
  rw [hclose] at hback
  have hlist : host.toList = '[' :: (host.toList.tail.dropLast ++ [']']) := by
    rw [hback, hcons]
  refine ⟨String.ofList host.toList.tail.dropLast, String.toList_inj.mp ?_⟩
  simpa using hlist

theorem startsWith_brackets (x : String) : Str.startsWith ("[" ++ x ++ "]") '[' = true := by
  simp [Str.startsWith]

theorem endsWith_brackets (x : String) : Str.endsWith ("[" ++ x ++ "]") ']' = true := by
  rw [Str.endsWith, String.toList_append, List.getLast?_append]
  simp

theorem brackets_inj {x y : String} (h : "[" ++ x ++ "]" = "[" ++ y ++ "]") : x = y := by
  rw [← String.toList_inj, String.toList_append, String.toList_append, String.toList_append,
    String.toList_append] at h
  exact String.toList_inj.mp (List.append_cancel_left (List.append_cancel_right h))

end Brackets

variable {ip : IpFromStr}

theorem validateIpv6Literal_eq_ok {field s : String} :
    validateIpv6Literal ip field s = .ok () ↔ ip.ipv6 s = true := by
  unfold validateIpv6Literal
  split_ifs with h
  · simp [h]
  · simp [invalid, h]

theorem bracketed_iff {x : String} : Bracketed ip ("[" ++ x ++ "]") ↔ ip.ipv6 x = true := by
  constructor
  · rintro ⟨y, hy, hip⟩
    exact brackets_inj hy ▸ hip
  · intro h
    exact ⟨x, rfl, h⟩

theorem not_regName_brackets (x : String) : ¬RegName ("[" ++ x ++ "]") := by
  intro h
  exact absurd (h '[' (by simp)) (by decide)

/-- Digits and dots are characters of registered names. -/
theorem regName_of_all_digits {host : String}
    (h : ((bytes host).all fun b => isDigit b || b == ascii '.') = true) : RegName host := by
  have hchars := (forall_mem_encode (p := fun b => (isDigit b || b == ascii '.') = true)
    (by decide)).mp (List.all_eq_true.mp h)
  intro c hc
  obtain ⟨hlt, hdigit⟩ := hchars c hc
  revert hdigit
  exact forall_ascii (p := fun c => (isDigit (ascii c) || ascii c == ascii '.') = true →
    isValidRegNameChar c = true) (by decide +kernel) hlt

/-- A host that is not in brackets is checked for its characters: the texts of IPv4
addresses pass anyway. -/
theorem validateHost_of_not_brackets {field host : String}
    (h : ¬(Str.startsWith host '[' && Str.endsWith host ']') = true) :
    validateHost ip field host =
      if !host.toList.all isValidRegNameChar then
        invalid field s!"{field} contains invalid characters"
      else .ok () := by
  rw [validateHost, if_neg h]
  split_ifs with hipv4 hname
  · obtain ⟨hdigits, -⟩ := Bool.and_eq_true_iff.mp hipv4
    have hall := List.all_eq_true.mpr (regName_of_all_digits hdigits)
    rw [hall] at hname
    cases hname
  · rfl
  · rfl
  · rfl

/-- A host is accepted as an IPv6 address in brackets or as a registered name. -/
theorem validateHost_eq_ok {field host : String} :
    validateHost ip field host = .ok () ↔ Bracketed ip host ∨ RegName host := by
  by_cases hbrackets : (Str.startsWith host '[' && Str.endsWith host ']') = true
  · obtain ⟨hstart, hend⟩ := Bool.and_eq_true_iff.mp hbrackets
    obtain ⟨x, rfl⟩ := exists_brackets hstart hend
    rw [validateHost, if_pos hbrackets, slice_brackets, ok_bind, validateIpv6Literal_eq_ok,
      bracketed_iff]
    exact (or_iff_left (not_regName_brackets x)).symm
  · have hnot : ¬Bracketed ip host := by
      rintro ⟨x, rfl, -⟩
      rw [startsWith_brackets, endsWith_brackets] at hbrackets
      exact hbrackets rfl
    rw [validateHost_of_not_brackets hbrackets, or_iff_right hnot]
    split_ifs with hname
    · refine iff_of_false nofun fun h => ?_
      rw [Bool.not_eq_true', ← Bool.not_eq_true, List.all_eq_true] at hname
      exact hname h
    · rw [Bool.not_eq_true', Bool.not_eq_false, List.all_eq_true] at hname
      exact iff_of_true rfl hname

/-- Which texts are IPv4 addresses makes no difference to the host check. -/
theorem validateHost_ipv4 (ip : IpFromStr) (ipv4 : String → Bool) (field host : String) :
    validateHost { ip with ipv4 := ipv4 } field host = validateHost ip field host := by
  by_cases hbrackets : (Str.startsWith host '[' && Str.endsWith host ']') = true
  · rw [validateHost, validateHost, if_pos hbrackets, if_pos hbrackets]
    rfl
  · rw [validateHost_of_not_brackets hbrackets, validateHost_of_not_brackets hbrackets]

/-! ## Authorities -/

theorem toList_hostPort (host port : String) :
    (host ++ ":" ++ port).toList = host.toList ++ ':' :: port.toList := by
  simp

theorem rsplitOnce_hostPort {host port : String} (h : ':' ∉ port.toList) :
    Str.rsplitOnce (host ++ ":" ++ port) ':' = some (host, port) :=
  Str.rsplitOnce_eq_some.mpr ⟨toList_hostPort host port, h⟩

/-- An authority opens a bracket exactly when its host does. -/
theorem startsWith_hostPort (host port : String) :
    Str.startsWith (host ++ ":" ++ port) '[' = Str.startsWith host '[' := by
  unfold Str.startsWith
  rw [toList_hostPort]
  cases host.toList <;> rfl

theorem RegName.not_startsWith {host : String} (h : RegName host) :
    Str.startsWith host '[' = false := by
  rw [Str.startsWith, beq_eq_false_iff_ne]
  intro hhead
  exact absurd (h '[' (List.mem_of_head? hhead)) (by decide)

/-- The port of an authority stands behind its last colon. -/
theorem authorityPort_eq_ok {field authority port : String} :
    authorityPort ip field authority = .ok port ↔
      ∃ host, authority = host ++ ":" ++ port ∧ ':' ∉ port.toList ∧
        (Bracketed ip host ∨ host ≠ "" ∧ RegName host) := by
  unfold authorityPort
  constructor
  · intro h
    cases hsplit : Str.rsplitOnce authority ':' with
    | none =>
      rw [hsplit] at h
      split_ifs at h <;> cases h
    | some parts =>
      obtain ⟨host, port'⟩ := parts
      obtain ⟨hlist, hcolon⟩ := Str.rsplitOnce_eq_some.mp hsplit
      rw [← toList_hostPort, String.toList_inj] at hlist
      rw [hsplit] at h
      dsimp only at h
      split_ifs at h with hstart hend hempty
      · cases h
      -- The host opens the bracket that the authority opens, and closes it as well.
      · rw [hlist, startsWith_hostPort] at hstart
        obtain ⟨x, rfl⟩ := exists_brackets hstart (by simpa using hend)
        rw [slice_brackets, ok_bind] at h
        obtain ⟨u, hx, h⟩ := bind_eq_ok.mp h
        obtain rfl := ok.inj h
        exact ⟨_, hlist, hcolon, .inl (bracketed_iff.mpr (validateIpv6Literal_eq_ok.mp hx))⟩
      · cases h
      · obtain ⟨u, hhost, h⟩ := bind_eq_ok.mp h
        obtain rfl := ok.inj h
        refine ⟨host, hlist, hcolon, ?_⟩
        exact (validateHost_eq_ok.mp hhost).imp_right fun hname => ⟨hempty, hname⟩
  · rintro ⟨host, rfl, hcolon, hhost⟩
    rw [rsplitOnce_hostPort hcolon, startsWith_hostPort]
    dsimp only
    rcases hhost with ⟨x, rfl, hx⟩ | ⟨hne, hname⟩
    · rw [if_pos (startsWith_brackets x), endsWith_brackets, Bool.not_true,
        if_neg Bool.false_ne_true, slice_brackets, ok_bind, validateIpv6Literal_eq_ok.mpr hx]
      rfl
    · rw [hname.not_startsWith, if_neg Bool.false_ne_true, if_neg hne,
        validateHost_eq_ok.mpr (.inr hname)]
      rfl

/-- A port number holds nothing but digits. -/
theorem Port.notMem {s : String} {n : UInt16} (h : Port s n) {c : Char}
    (hc : c.isDigit = false) : c ∉ s.toList := by
  intro hmem
  rw [h.2.1 c hmem] at hc
  cases hc

/-- A text is parsed as a port exactly when it is the numeral of one. -/
theorem parseU16_eq_some_iff_port {s : String} {n : UInt16}
    (hdigits : ∀ c ∈ s.toList, c.isDigit = true) (hs : s ≠ "") :
    Str.parseU16 s = some n ∧ n ≠ 0 ↔ Port s n := by
  have hnil : s.toList ≠ [] := fun h => hs (String.toList_eq_nil_iff.mp h)
  rw [Str.parseU16_eq_some hdigits]
  constructor
  · rintro ⟨⟨-, hvalue⟩, hn⟩
    exact ⟨hs, hdigits, hvalue, hn⟩
  · rintro ⟨-, -, hvalue, hn⟩
    exact ⟨⟨hnil, hvalue⟩, hn⟩

theorem HostPort.isAuthorityChar (hip : ip.Ipv6Alphabet) {authority : String}
    (h : HostPort ip authority) :
    ∀ c ∈ authority.toList, isAuthorityChar c = true := by
  obtain ⟨-, host, port, n, rfl, hport, hhost⟩ := h
  have hname {c : Char} (hc : isValidRegNameChar c = true) :
      ConnectUdpRequest.isAuthorityChar c = true := by
    rw [ConnectUdpRequest.isAuthorityChar, hc, Bool.true_or]
  intro c hc
  rw [toList_hostPort, List.mem_append, List.mem_cons] at hc
  rcases hc with hc | rfl | hc
  · rcases hhost with ⟨x, rfl, hx⟩ | ⟨-, hreg⟩
    · rw [String.toList_append, String.toList_append, List.mem_append, List.mem_append] at hc
      rcases hc with (hc | hc) | hc
      · obtain rfl : c = '[' := by simpa using hc
        decide
      · exact isAuthorityChar_of_isIpv6Char (hip x hx c hc)
      · obtain rfl : c = ']' := by simpa using hc
        decide
    · exact hname (hreg c hc)
  · decide
  · exact hname (isValidRegNameChar_of_isDigit (hport.2.1 c hc))

/-- The authority check accepts exactly the authorities, whatever field it is made for. -/
theorem validateHostPort_eq_ok (hip : ip.Ipv6Alphabet) {field authority : String} :
    validateHostPort ip field authority = .ok () ↔ HostPort ip authority := by
  constructor
  · intro h
    unfold validateHostPort maxProxyAuthorityLen at h
    split_ifs at h with hempty hlong hcontrol
    · cases h
    · cases h
    · cases h
    obtain ⟨port, hport, hrest⟩ := bind_eq_ok.mp h
    obtain ⟨host, rfl, -, hhost⟩ := authorityPort_eq_ok.mp hport
    split_ifs at hrest with hne hdigits
    · cases hrest
    · cases hrest
    obtain ⟨n, hparse, hrest⟩ := bind_eq_ok.mp hrest
    split_ifs at hrest with hzero
    · cases hrest
    · rw [Bool.not_eq_true', Bool.not_eq_false, all_isDigit_bytes] at hdigits
      exact ⟨by omega, host, port, n, rfl,
        (parseU16_eq_some_iff_port hdigits hne).mp ⟨ofOption_eq_ok.mp hparse, hzero⟩, hhost⟩
  · intro h
    have hchars := h.isAuthorityChar hip
    obtain ⟨hlen, host, port, n, rfl, hport, hhost⟩ := h
    have hne : host ++ ":" ++ port ≠ "" := by
      intro hnil
      have := congrArg String.toList hnil
      rw [toList_hostPort] at this
      simp at this
    have hcontrol : hasControlCharacter (host ++ ":" ++ port) = false := by
      rw [← Bool.not_eq_true, hasControlCharacter_eq_true]
      rintro ⟨c, hc, hcontrol⟩
      exact not_isControl_of_isAuthorityChar (hchars c hc) hcontrol
    have hpart : authorityPort ip field (host ++ ":" ++ port) = .ok port :=
      authorityPort_eq_ok.mpr ⟨host, rfl, hport.notMem (by decide), hhost⟩
    have hdigits := all_isDigit_bytes.mpr hport.2.1
    obtain ⟨hparse, hzero⟩ := (parseU16_eq_some_iff_port hport.2.1 hport.1).mpr hport
    unfold validateHostPort maxProxyAuthorityLen
    rw [if_neg hne, if_neg (by omega), hcontrol, if_neg Bool.false_ne_true, hpart, ok_bind,
      if_neg hport.1, hdigits, Bool.not_true, if_neg Bool.false_ne_true, hparse,
      ofOption_some, ok_bind, if_neg hzero]

/-! ## Fields of a request -/

/-- What a request holds as its target host. -/
structure TargetHost (ip : IpFromStr) (host : String) : Prop where
  trimmed : Str.trim host = host
  nonempty : host ≠ ""
  length : Str.len host ≤ 253
  printable : hasControlCharacter host = false
  host : Bracketed ip host ∨ RegName host

/-- What a request holds as its configuration. -/
structure UdpProxyConfig (config : String) : Prop where
  length : Str.len config ≤ 4096
  printable : hasControlCharacter config = false

/-- A target host is accepted when it is valid after trimming, and is returned trimmed. -/
theorem validateTargetHost_eq_ok {host t : String} :
    validateTargetHost ip host = .ok t ↔ t = Str.trim host ∧ TargetHost ip t := by
  unfold validateTargetHost maxTargetHostLen
  dsimp only
  constructor
  · intro h
    split_ifs at h with hempty hlong hcontrol
    · cases h
    · cases h
    · cases h
    obtain ⟨u, hhost, h⟩ := bind_eq_ok.mp h
    obtain rfl : Str.trim host = t := ok.inj h
    exact ⟨rfl, Str.trim_trim host, hempty, by omega, by simpa using hcontrol,
      validateHost_eq_ok.mp hhost⟩
  · rintro ⟨rfl, h⟩
    have hlen := h.length
    rw [if_neg h.nonempty, if_neg (by omega), h.printable, if_neg Bool.false_ne_true,
      validateHost_eq_ok.mpr h.host]
    rfl

theorem validateTargetPort_eq_ok {port : UInt16} :
    validateTargetPort port = .ok () ↔ port ≠ 0 := by
  unfold validateTargetPort
  split_ifs with h <;> simp [invalid, h]

theorem validateUdpProxyConfig_eq_ok {config t : String} :
    validateUdpProxyConfig config = .ok t ↔ t = config ∧ UdpProxyConfig t := by
  unfold validateUdpProxyConfig maxUdpProxyConfigLen
  constructor
  · intro h
    split_ifs at h with hlong hcontrol
    · cases h
    · cases h
    obtain rfl := ok.inj h
    exact ⟨rfl, by omega, by simpa using hcontrol⟩
  · rintro ⟨rfl, h⟩
    have hlen := h.length
    rw [if_neg (by omega), h.printable, if_neg Bool.false_ne_true]

/-- A port parameter is accepted exactly when it is the numeral of a port. -/
theorem parseTargetPort_eq_ok {value : String} {port : UInt16} :
    (parseTargetPort value = .ok port ∧ port ≠ 0) ↔ Port value port := by
  unfold parseTargetPort
  constructor
  · rintro ⟨h, hzero⟩
    split_ifs at h with hdigits
    · cases h
    · rw [Bool.not_eq_true', Bool.not_eq_false, all_isDigit_bytes] at hdigits
      have hparse := ofOption_eq_ok.mp h
      have hne : value ≠ "" := by
        rintro rfl
        cases hparse
      exact (parseU16_eq_some_iff_port hdigits hne).mp ⟨hparse, hzero⟩
  · intro h
    obtain ⟨hparse, hzero⟩ := (parseU16_eq_some_iff_port h.2.1 h.1).mpr h
    rw [all_isDigit_bytes.mpr h.2.1, Bool.not_true, if_neg Bool.false_ne_true, hparse]
    exact ⟨rfl, hzero⟩

end ConnectUdpRequest

end Masque

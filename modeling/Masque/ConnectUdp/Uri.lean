import Masque.ConnectUdp.Query

/-!
# The URI grammar

`fromUri` accepts exactly the URIs of the grammar, and the order of the query parameters
does not matter to it.
-/

namespace Masque.ConnectUdpRequest

open Outcome Utf8

/-- `https://` up to ASCII case. -/
def Scheme (scheme : String) : Prop :=
  Str.eqIgnoreAsciiCase (bytes scheme) (bytes "https://") = true

/-- What stands behind the path: nothing, or a question mark and the query. -/
def QuerySuffix (suffix query : String) : Prop :=
  (suffix = "" ∧ query = "") ∨ suffix = "?" ++ query

/-- The URIs of CONNECT-UDP requests. -/
def Uri (ip : IpFromStr) (uri : String) (request : ConnectUdpRequest) : Prop :=
  Str.len uri ≤ 8192 ∧ '#' ∉ uri.toList ∧
    ∃ scheme authority path suffix query,
      uri = scheme ++ authority ++ "/" ++ path ++ suffix ∧ QuerySuffix suffix query ∧
      Scheme scheme ∧
      '/' ∉ authority.toList ∧ validateHostPort ip "authority" authority = .ok () ∧
      '?' ∉ path.toList ∧ Normalizes (bytes path) (bytes "masque") ∧
      Query ip (Str.split query '&') request

/-! ## The scheme -/

/-- The letters, colons and slashes of the scheme are ASCII and no question marks. -/
theorem of_mem_lowercase_scheme : ∀ b : UInt8,
    Str.eqIgnoreAsciiCase.toAsciiLowercase b ∈
      (bytes "https://").map Str.eqIgnoreAsciiCase.toAsciiLowercase →
    b.toNat < 128 ∧ b ≠ ascii '?' := by
  decide +kernel

theorem of_mem_scheme {bs : List UInt8} (hbs : Str.eqIgnoreAsciiCase bs (bytes "https://") = true) :
    ∀ b ∈ bs, b.toNat < 128 ∧ b ≠ ascii '?' := by
  intro b hb
  apply of_mem_lowercase_scheme
  rw [← beq_iff_eq.mp hbs]
  exact List.mem_map_of_mem hb

theorem Scheme.len {scheme : String} (h : Scheme scheme) :
    Str.len scheme = Str.len "https://" := by
  have := congrArg List.length (beq_iff_eq.mp h)
  rwa [List.length_map, List.length_map] at this

theorem Scheme.notMem {scheme : String} (h : Scheme scheme) : '?' ∉ scheme.toList := by
  intro hmem
  have hbyte := (ascii_mem_encode (by decide)).mpr hmem
  exact (of_mem_scheme h _ hbyte).2 rfl

/-- The scheme check accepts the texts that begin with the scheme. -/
theorem validateScheme_eq_ok {uri : String} :
    validateScheme uri = .ok () ↔ ∃ scheme rest, uri = scheme ++ rest ∧ Scheme scheme := by
  unfold validateScheme
  constructor
  · intro h
    dsimp only at h
    split_ifs at h with hscheme
    · cases h
    · rw [Bool.not_eq_true', Bool.not_eq_false, Bool.and_eq_true] at hscheme
      obtain ⟨ds, es, hlist, hds, -⟩ := exists_ascii_prefix
        (List.take_append_drop (Str.len "https://") (bytes uri)).symm
        (fun b hb => (of_mem_scheme hscheme.2 b hb).1)
      refine ⟨String.ofList ds, String.ofList es, ?_, ?_⟩
      · rw [← String.ofList_append, ← hlist, String.ofList_toList]
      · rw [Scheme, bytes, String.toList_ofList, hds]
        exact hscheme.2
  · rintro ⟨scheme, rest, rfl, hscheme⟩
    have htake : (bytes (scheme ++ rest)).take (Str.len "https://") = bytes scheme := by
      rw [bytes_append, ← hscheme.len]
      exact List.take_left
    have hle : Str.len "https://" ≤ Str.len (scheme ++ rest) := by
      rw [Str.len_append, hscheme.len]
      omega
    rw [htake, if_neg]
    rw [Bool.not_eq_true', Bool.not_eq_false, Bool.and_eq_true]
    exact ⟨decide_eq_true hle, hscheme⟩

/-! ## Path and query -/

theorem exists_querySuffix (pathAndQuery : String) :
    ∃ path suffix query,
      (Str.splitOnce pathAndQuery '?').getD (pathAndQuery, "") = (path, query) ∧
      pathAndQuery = path ++ suffix ∧ QuerySuffix suffix query ∧ '?' ∉ path.toList := by
  cases hsplit : Str.splitOnce pathAndQuery '?' with
  | none =>
    refine ⟨pathAndQuery, "", "", rfl, (String.append_empty).symm, .inl ⟨rfl, rfl⟩, ?_⟩
    exact Str.splitOnce_eq_none.mp hsplit
  | some parts =>
    obtain ⟨path, query⟩ := parts
    obtain ⟨hlist, hpath⟩ := Str.splitOnce_eq_some.mp hsplit
    refine ⟨path, "?" ++ query, query, rfl, String.toList_inj.mp ?_, .inr rfl, hpath⟩
    rw [hlist]
    simp

theorem getD_splitOnce {path suffix query : String} (hpath : '?' ∉ path.toList)
    (hsuffix : QuerySuffix suffix query) :
    (Str.splitOnce (path ++ suffix) '?').getD (path ++ suffix, "") = (path, query) := by
  rcases hsuffix with ⟨rfl, rfl⟩ | rfl
  · rw [String.append_empty, Str.splitOnce_eq_none.mpr hpath]
    rfl
  · have hsplit : Str.splitOnce (path ++ ("?" ++ query)) '?' = some (path, query) :=
      Str.splitOnce_eq_some.mpr ⟨by simp, hpath⟩
    rw [hsplit]
    rfl

/-! ## URIs -/

variable {ip : IpFromStr}

theorem contains_eq_true {s : String} {c : Char} : Str.contains s c = true ↔ c ∈ s.toList :=
  List.contains_iff_mem

/-- An accepted URI is one of the grammar. -/
theorem fromUri_sound {uri : String} {request : ConnectUdpRequest}
    (h : fromUri ip uri = .ok request) : Uri ip uri request := by
  unfold fromUri maxUriLen at h
  split_ifs at h with hlong hfragment
  · cases h
  · cases h
  obtain ⟨u, hvalid, h₁⟩ := bind_eq_ok.mp h
  obtain ⟨scheme, rest, rfl, hscheme⟩ := validateScheme_eq_ok.mp hvalid
  rw [← hscheme.len, Str.sliceFrom_append, ok_bind] at h₁
  obtain ⟨⟨authority, pathAndQuery⟩, hsplit, h₂⟩ := bind_eq_ok.mp h₁
  obtain ⟨hrest, hslash⟩ := Str.splitOnce_eq_some.mp (ofOption_eq_ok.mp hsplit)
  dsimp only at h₂
  split_ifs at h₂ with hempty huserinfo
  · cases h₂
  · cases h₂
  obtain ⟨u', hauthority, h₃⟩ := bind_eq_ok.mp h₂
  obtain ⟨path, suffix, query, hget, rfl, hsuffix, hpath⟩ := exists_querySuffix pathAndQuery
  rw [hget] at h₃
  obtain ⟨normal, hnormal, h₄⟩ := bind_eq_ok.mp h₃
  split_ifs at h₄ with hmasque
  · cases h₄
  · obtain rfl := not_not.mp hmasque
    obtain ⟨⟨host, port, config⟩, hloop, h₅⟩ := bind_eq_ok.mp h₄
    obtain ⟨host', hhost, h₆⟩ := bind_eq_ok.mp h₅
    obtain ⟨port', hport, h₇⟩ := bind_eq_ok.mp h₆
    obtain rfl := ok.inj h₇
    obtain rfl : host = some host' := ofOption_eq_ok.mp hhost
    obtain rfl : port = some port' := ofOption_eq_ok.mp hport
    refine ⟨by omega, fun h => hfragment (contains_eq_true.mpr h), scheme, authority, path,
      suffix, query, ?_, hsuffix, hscheme, hslash, hauthority, hpath,
      normalizePathSegment_eq_ok.mp hnormal, query_iff.mp hloop⟩
    rw [← String.toList_inj, String.toList_append, hrest]
    simp

/-- A URI of the grammar is accepted. -/
theorem fromUri_complete (hip : ip.Ipv6Alphabet) {uri : String} {request : ConnectUdpRequest}
    (h : Uri ip uri request) : fromUri ip uri = .ok request := by
  obtain ⟨hlen, hfragment, scheme, authority, path, suffix, query, rfl, hsuffix, hscheme,
    hslash, hauthority, hpath, hnormal, hquery⟩ := h
  have hchars := ((validateHostPort_eq_ok hip).mp hauthority).isAuthorityChar hip
  have hempty : authority ≠ "" := by
    rintro rfl
    cases hauthority
  -- The checks in front of the authority check refuse nothing that it accepts.
  have huserinfo : Str.contains authority '@' = false := by
    rw [← Bool.not_eq_true, contains_eq_true]
    intro hmem
    exact absurd (hchars _ hmem) (by decide)
  have hfrag : Str.contains (scheme ++ authority ++ "/" ++ path ++ suffix) '#' = false := by
    rw [← Bool.not_eq_true, contains_eq_true]
    exact hfragment
  have hassoc : scheme ++ authority ++ "/" ++ path ++ suffix =
      scheme ++ (authority ++ "/" ++ (path ++ suffix)) := by
    simp only [String.append_assoc]
  have hsplit : Str.splitOnce (authority ++ "/" ++ (path ++ suffix)) '/' =
      some (authority, path ++ suffix) :=
    Str.splitOnce_eq_some.mpr ⟨by simp, hslash⟩
  unfold fromUri maxUriLen
  rw [if_neg (by omega), hfrag, if_neg Bool.false_ne_true, hassoc,
    validateScheme_eq_ok.mpr ⟨scheme, _, rfl, hscheme⟩, ok_bind, ← hscheme.len,
    Str.sliceFrom_append, ok_bind, hsplit, ofOption_some, ok_bind]
  dsimp only
  rw [if_neg hempty, huserinfo, if_neg Bool.false_ne_true, validateAuthority, hauthority,
    ok_bind, getD_splitOnce hpath hsuffix]
  dsimp only
  rw [normalizePathSegment_eq_ok.mpr hnormal, ok_bind, if_neg (not_not.mpr rfl),
    query_iff.mpr hquery]
  rfl

theorem fromUri_eq_ok (hip : ip.Ipv6Alphabet) {uri : String} {request : ConnectUdpRequest} :
    fromUri ip uri = .ok request ↔ Uri ip uri request :=
  ⟨fromUri_sound, fromUri_complete hip⟩

/-! ## The order of the parameters -/

theorem splitOnce_question {base query : String} (h : '?' ∉ base.toList) :
    Str.splitOnce (base ++ "?" ++ query) '?' = some (base, query) :=
  Str.splitOnce_eq_some.mpr ⟨by simp, h⟩

/-- Parameters in another order make the same request. -/
theorem Uri.reorder (hip : ip.Ipv6Alphabet) {base query query' : String}
    {request : ConnectUdpRequest} (hbase : '?' ∉ base.toList)
    (hperm : (Str.split query '&').Perm (Str.split query' '&'))
    (h : Uri ip (base ++ "?" ++ query) request) :
    Uri ip (base ++ "?" ++ query') request := by
  obtain ⟨hlen, hfragment, scheme, authority, path, suffix, q, huri, hsuffix, hscheme, hslash,
    hauthority, hpath, hnormal, hquery⟩ := h
  have hchars := ((validateHostPort_eq_ok hip).mp hauthority).isAuthorityChar hip
  have hfront : '?' ∉ (scheme ++ authority ++ "/" ++ path).toList := by
    simp only [String.toList_append, List.mem_append]
    rintro (((hmem | hmem) | hmem) | hmem)
    · exact hscheme.notMem hmem
    · exact absurd (hchars _ hmem) (by decide)
    · exact absurd hmem (by decide)
    · exact hpath hmem
  have hmark : '?' ∈ (base ++ "?" ++ query).toList := by simp
  have hparts : Str.splitOnce (base ++ "?" ++ query) '?' = some (base, query) :=
    splitOnce_question hbase
  -- The grammar's question mark is the first one, so it stands behind the same base.
  rcases hsuffix with ⟨rfl, rfl⟩ | rfl
  · rw [huri, String.append_empty] at hmark
    exact absurd hmark hfront
  · rw [huri, ← String.append_assoc, splitOnce_question hfront] at hparts
    obtain ⟨rfl, rfl⟩ := Prod.mk.inj (Option.some.inj hparts)
    have hquerychars := Str.perm_of_perm_split hperm
    refine ⟨?_, ?_, scheme, authority, path, "?" ++ query', query', ?_, .inr rfl, hscheme,
      hslash, hauthority, hpath, hnormal, hquery.perm hperm⟩
    · rw [Str.len_append, ← Str.len_eq_of_perm hquerychars, ← Str.len_append]
      exact hlen
    · rw [String.toList_append, List.mem_append, ← hquerychars.mem_iff, ← List.mem_append,
        ← String.toList_append]
      exact hfragment
    · rw [String.append_assoc]

/-- `fromUri` accepts exactly the URIs of the grammar, and reordering the parameters changes
nothing. -/
theorem fromUri_grammar (ip : IpFromStr) (hip : ip.Ipv6Alphabet) :
    (∀ uri request, fromUri ip uri = .ok request ↔ Uri ip uri request) ∧
    ∀ base query query' request, '?' ∉ base.toList →
      (Str.split query '&').Perm (Str.split query' '&') →
      (fromUri ip (base ++ "?" ++ query) = .ok request ↔
        fromUri ip (base ++ "?" ++ query') = .ok request) := by
  refine ⟨fun uri request => fromUri_eq_ok hip, ?_⟩
  intro base query query' request hbase hperm
  rw [fromUri_eq_ok hip, fromUri_eq_ok hip]
  exact ⟨Uri.reorder hip hbase hperm, Uri.reorder hip hbase hperm.symm⟩

theorem fromUri_grammar_loopback :
    Uri .loopback "HTTPS://[::1]:443/%6dasque?target_port=0053&&target_host=a%26b"
      ⟨"a&b", 53, none⟩ :=
  ((fromUri_grammar .loopback IpFromStr.loopback_alphabet).1 _ _).mp (by decide +kernel)

end Masque.ConnectUdpRequest

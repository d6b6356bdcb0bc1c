import Masque.ConnectUdp.Hosts

/-!
# The authority check

The two branches of `authorityPort` and those of `validateHost` behind it let no text slip
between them: the check returns on every input, and accepts exactly a host, a colon and a
port number, none of whose characters delimits a part of a URI.
-/

namespace Masque.ConnectUdpRequest

open Outcome Utf8

variable {ip : IpFromStr}

/-! ## No slice panics -/

theorem validateIpv6Literal_total (field s : String) :
    validateIpv6Literal ip field s ≠ .panic := by
  unfold validateIpv6Literal
  split_ifs
  · exact ok_ne_panic ()
  · exact err_ne_panic _

/-- The brackets of a host are cut off at character boundaries, also those of `[]`. -/
theorem slice_host {host : String} (hstart : Str.startsWith host '[' = true)
    (hend : Str.endsWith host ']' = true) :
    ∃ x, (Str.slice host 1 (Str.len host - 1) : Result String) = .ok x := by
  obtain ⟨x, rfl⟩ := exists_brackets hstart hend
  exact ⟨x, slice_brackets x⟩

theorem validateHost_total (field host : String) : validateHost ip field host ≠ .panic := by
  by_cases hbrackets : (Str.startsWith host '[' && Str.endsWith host ']') = true
  · obtain ⟨hstart, hend⟩ := Bool.and_eq_true_iff.mp hbrackets
    obtain ⟨x, hx⟩ := slice_host hstart hend
    rw [validateHost, if_pos hbrackets, hx, ok_bind]
    exact validateIpv6Literal_total field x
  · rw [validateHost_of_not_brackets hbrackets]
    split_ifs
    · exact err_ne_panic _
    · exact ok_ne_panic ()

/-- What stands before the last colon of a bracketed authority begins with the bracket. -/
theorem startsWith_of_rsplitOnce {authority host port : String}
    (hstart : Str.startsWith authority '[' = true)
    (hsplit : Str.rsplitOnce authority ':' = some (host, port)) :
    Str.startsWith host '[' = true := by
  obtain ⟨hlist, -⟩ := Str.rsplitOnce_eq_some.mp hsplit
  rw [← toList_hostPort, String.toList_inj] at hlist
  rw [← startsWith_hostPort host port, ← hlist]
  exact hstart

theorem authorityPort_total (field authority : String) :
    authorityPort ip field authority ≠ .panic := by
  unfold authorityPort
  cases hsplit : Str.rsplitOnce authority ':' with
  | none => split_ifs <;> exact err_ne_panic _
  | some parts =>
    obtain ⟨host, port⟩ := parts
    dsimp only
    by_cases hstart : Str.startsWith authority '[' = true
    · rw [if_pos hstart]
      by_cases hend : Str.endsWith host ']' = true
      · obtain ⟨x, hx⟩ := slice_host (startsWith_of_rsplitOnce hstart hsplit) hend
        rw [hend, Bool.not_true, if_neg Bool.false_ne_true, hx, ok_bind]
        exact bind_ne_panic (validateIpv6Literal_total field x) fun _ _ => ok_ne_panic port
      · rw [if_pos (by simpa using hend)]
        exact err_ne_panic _
    · rw [if_neg hstart]
      split_ifs
      · exact err_ne_panic _
      · exact bind_ne_panic (validateHost_total field host) fun _ _ => ok_ne_panic port

theorem validateHostPort_total (field authority : String) :
    validateHostPort ip field authority ≠ .panic := by
  unfold validateHostPort
  split_ifs
  · exact err_ne_panic _
  · exact err_ne_panic _
  · exact err_ne_panic _
  refine bind_ne_panic (authorityPort_total field authority) fun port _ => ?_
  split_ifs
  · exact err_ne_panic _
  · exact err_ne_panic _
  refine bind_ne_panic (ofOption_ne_panic _ _) fun n _ => ?_
  split_ifs
  · exact err_ne_panic _
  · exact ok_ne_panic ()

/-! ## The accepted texts -/

/-- The port numbers of the check are the numerals of 1 to 65535. -/
theorem exists_port_iff {port : String} :
    (∃ n, Port port n) ↔ port ≠ "" ∧ (∀ c ∈ port.toList, c.isDigit = true) ∧
      1 ≤ Nat.ofDigitChars 10 port.toList 0 ∧ Nat.ofDigitChars 10 port.toList 0 ≤ 65535 := by
  constructor
  · rintro ⟨n, hne, hdigits, hvalue, hn⟩
    have hlt := n.toNat_lt
    have hpos : n.toNat ≠ 0 := fun h => hn (UInt16.toNat_inj.mp h)
    rw [hvalue]
    exact ⟨hne, hdigits, by omega, by omega⟩
  · rintro ⟨hne, hdigits, hpos, hle⟩
    have hvalue : (UInt16.ofNat (Nat.ofDigitChars 10 port.toList 0)).toNat =
        Nat.ofDigitChars 10 port.toList 0 := UInt16.toNat_ofNat_of_lt' (Nat.lt_succ_of_le hle)
    refine ⟨_, hne, hdigits, hvalue.symm, fun hzero => ?_⟩
    rw [hzero, UInt16.toNat_zero] at hvalue
    omega

/-- A text of these three parts is not empty. -/
theorem one_le_len_hostPort (host port : String) : 1 ≤ Str.len (host ++ ":" ++ port) := by
  have hcolon : Str.len ":" = 1 := rfl
  rw [Str.len_append, Str.len_append, hcolon]
  omega

/-- An authority by its characters. -/
theorem hostPort_iff {authority : String} :
    HostPort ip authority ↔ 1 ≤ Str.len authority ∧ Str.len authority ≤ 1024 ∧
      ∃ host port, authority = host ++ ":" ++ port ∧
        (port ≠ "" ∧ (∀ c ∈ port.toList, c.isDigit = true) ∧
          1 ≤ Nat.ofDigitChars 10 port.toList 0 ∧
          Nat.ofDigitChars 10 port.toList 0 ≤ 65535) ∧
        ((∃ x, host = "[" ++ x ++ "]" ∧ ip.ipv6 x = true) ∨
          host ≠ "" ∧ ∀ c ∈ host.toList, Unreserved c ∨ SubDelim c) := by
  constructor
  · rintro ⟨hlen, host, port, n, rfl, hport, hhost⟩
    refine ⟨one_le_len_hostPort host port, hlen, host, port, rfl,
      exists_port_iff.mp ⟨n, hport⟩, ?_⟩
    exact hhost.imp_right (And.imp_right regName_iff.mp)
  · rintro ⟨-, hlen, host, port, rfl, hport, hhost⟩
    obtain ⟨n, hport⟩ := exists_port_iff.mpr hport
    refine ⟨hlen, host, port, n, rfl, hport, ?_⟩
    exact hhost.imp_right (And.imp_right regName_iff.mpr)

/-- No character of an authority is a delimiter, space or a control character. -/
theorem plain_of_isAuthorityChar {c : Char} (h : isAuthorityChar c = true) :
    c ∉ ['/', '?', '#', '@', '%', '\\'] ∧ Str.isWhitespace c = false :=
  forall_ascii (p := fun c => isAuthorityChar c = true →
    c ∉ ['/', '?', '#', '@', '%', '\\'] ∧ Str.isWhitespace c = false) (by decide +kernel)
    (lt_of_isAuthorityChar h) h

/-- The authority check returns on every input and accepts exactly the authorities, which
hold no character that structures a URI. -/
theorem validateHostPort_authority (ip : IpFromStr) (hip : ip.Ipv6Alphabet)
    (field authority : String) :
    (validateHostPort ip field authority = .ok () ↔
      1 ≤ Str.len authority ∧ Str.len authority ≤ 1024 ∧
        ∃ host port, authority = host ++ ":" ++ port ∧
          (port ≠ "" ∧ (∀ c ∈ port.toList, c.isDigit = true) ∧
            1 ≤ Nat.ofDigitChars 10 port.toList 0 ∧
            Nat.ofDigitChars 10 port.toList 0 ≤ 65535) ∧
          ((∃ x, host = "[" ++ x ++ "]" ∧ ip.ipv6 x = true) ∨
            host ≠ "" ∧ ∀ c ∈ host.toList, Unreserved c ∨ SubDelim c)) ∧
    validateHostPort ip field authority ≠ .panic ∧
    (validateHostPort ip field authority = .ok () → ∀ c ∈ authority.toList,
      c ∉ ['/', '?', '#', '@', '%', '\\'] ∧ Str.isWhitespace c = false ∧ ¬IsControl c ∧
        c.toNat < 128) := by
  refine ⟨(validateHostPort_eq_ok hip).trans hostPort_iff,
    validateHostPort_total field authority, fun h c hc => ?_⟩
  have hchar := ((validateHostPort_eq_ok hip).mp h).isAuthorityChar hip c hc
  obtain ⟨hdelimiter, hspace⟩ := plain_of_isAuthorityChar hchar
  exact ⟨hdelimiter, hspace, not_isControl_of_isAuthorityChar hchar,
    lt_of_isAuthorityChar hchar⟩

/-- Leading zeros are part of a port, however many. -/
theorem validateHostPort_authority_loopback :
    validateHostPort .loopback "authority" "[::1]:000443" = .ok () :=
  (validateHostPort_authority .loopback IpFromStr.loopback_alphabet "authority" _).1.mpr
    ⟨by decide, by decide, "[::1]", "000443", rfl, by simp [Nat.ofDigitChars],
      .inl ⟨"::1", rfl, rfl⟩⟩

end Masque.ConnectUdpRequest

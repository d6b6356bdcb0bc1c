import Masque.CapsuleProtocol.Grammar

/-!
# Acceptance of header values

The parameter loop accepts exactly the sequences of parameters, so the header parser
accepts exactly the Boolean Items of the grammar between spaces, and each of its errors
names the part of the grammar that is missing.
-/

namespace Masque.CapsuleProtocol

open Outcome Scan Utf8

/-! ## Parameters -/

/-- What may follow a key. -/
def Value (value : List UInt8) : Prop :=
  value = [] ∨ ∃ item, BareItem item ∧ value = ascii '=' :: item

/-- `;`, spaces, a key and possibly a value. -/
def Parameter (tok : List UInt8) : Prop :=
  ∃ n key value, Key key ∧ Value value ∧
    tok = ascii ';' :: (List.replicate n (ascii ' ') ++ (key ++ value))

inductive Parameters : List UInt8 → Prop
  | nil : Parameters []
  | cons {tok rest : List UInt8} (h : Parameter tok) (hrest : Parameters rest) :
      Parameters (tok ++ rest)

theorem Parameters.atParameter {input : List UInt8} (h : Parameters input) :
    AtParameter input := by
  cases h with
  | nil => exact fun c hc => nomatch hc
  | cons h _ =>
    obtain ⟨n, key, value, -, -, rfl⟩ := h
    intro c hc
    exact (Option.some.inj hc).symm

theorem Key.stops_space {key : List UInt8} (h : Key key) (rest : List UInt8) :
    Stops (· == ascii ' ') (key ++ rest) := by
  obtain ⟨first, cs, rfl, hfirst, -⟩ := h
  intro c hc
  obtain rfl := Option.some.inj hc
  rw [beq_eq_false_iff_ne]
  rintro rfl
  exact absurd hfirst (by decide)

theorem skipSp_eq (input : List UInt8) :
    skipSp input = .ok (input.dropWhile (· == ascii ' ')) := by
  have hscan := scanWhile_append (· == ascii ' ') [] input
  rw [List.nil_append, List.nil_append, List.length_nil] at hscan
  have hsplit := sliceFrom_append (ε := Unit) (input.takeWhile (· == ascii ' '))
    (input.dropWhile (· == ascii ' ')) rfl
  rw [List.takeWhile_append_dropWhile] at hsplit
  rw [skipSp, hscan, hsplit]

/-- The spaces in front of a key. -/
theorem exists_spaces (input : List UInt8) :
    ∃ n, input = List.replicate n (ascii ' ') ++ input.dropWhile (· == ascii ' ') := by
  have hspace : ∀ c ∈ input.takeWhile (· == ascii ' '), c = ascii ' ' := by
    intro c hc
    simpa using List.mem_takeWhile_imp hc
  refine ⟨(input.takeWhile (· == ascii ' ')).length, ?_⟩
  rw [← List.eq_replicate_of_mem hspace, List.takeWhile_append_dropWhile]

theorem parseParameter_sound {input rest : List UInt8} (h : parseParameter input = .ok rest) :
    ∃ tok, Parameter tok ∧ tok ++ rest = input := by
  cases input with
  | nil => cases h
  | cons first cs =>
    unfold parseParameter at h
    rw [index_cons_zero, ok_bind] at h
    split_ifs at h with hsemi
    rw [sliceFrom_cons_one, ok_bind, skipSp_eq, ok_bind] at h
    obtain ⟨⟨key, more⟩, hread, h⟩ := bind_eq_ok.mp h
    dsimp only at h
    obtain ⟨n, hspaces⟩ := exists_spaces cs
    obtain ⟨hkey, hmore⟩ := parseKey_reads.sound hread
    split_ifs at h with hempty heq
    -- The key has a value behind an equals sign, or stands alone.
    · obtain ⟨value, hvalue, h⟩ := bind_eq_ok.mp h
      obtain ⟨⟨item, rest'⟩, hread', h⟩ := bind_eq_ok.mp h
      obtain rfl : rest' = rest := ok.inj h
      obtain ⟨hitem, hitemrest⟩ := parseBareItem_reads.sound hread'
      cases more with
      | nil => cases heq
      | cons c more =>
        obtain rfl : c = ascii '=' := Option.some.inj heq
        rw [sliceFrom_cons_one] at hvalue
        obtain rfl := ok.inj hvalue
        refine ⟨_, ⟨n, key, ascii '=' :: item, hkey, .inr ⟨item, hitem, rfl⟩, rfl⟩, ?_⟩
        rw [hspaces, ← hmore, ← hitemrest, not_not.mp hsemi]
        simp
    · obtain rfl := ok.inj h
      refine ⟨_, ⟨n, key, [], hkey, .inl rfl, rfl⟩, ?_⟩
      rw [hspaces, ← hmore, not_not.mp hsemi]
      simp

theorem parseParameter_complete {tok rest : List UInt8} (h : Parameter tok)
    (hrest : AtParameter rest) : parseParameter (tok ++ rest) = .ok rest := by
  obtain ⟨n, key, value, hkey, hvalue, rfl⟩ := h
  have hspaces : (List.replicate n (ascii ' ') ++ (key ++ value) ++ rest).dropWhile
      (· == ascii ' ') = key ++ (value ++ rest) := by
    rw [List.append_assoc, List.append_assoc]
    refine dropWhile_append_of_stops (fun c hc => ?_) (hkey.stops_space _)
    rw [List.eq_of_mem_replicate hc, beq_self_eq_true]
  have hend : AtValue (value ++ rest) := by
    rcases hvalue with rfl | ⟨item, -, rfl⟩
    · exact fun c hc => .inr (hrest c hc)
    · exact fun c hc => .inl (Option.some.inj hc).symm
  have hne : key.isEmpty = false := by
    obtain ⟨first, cs, rfl, -⟩ := hkey
    rfl
  unfold parseParameter
  rw [List.cons_append, index_cons_zero, ok_bind, if_neg (not_not.mpr rfl),
    sliceFrom_cons_one, ok_bind, skipSp_eq, ok_bind, hspaces,
    parseKey_reads.complete hkey hend, ok_bind]
  dsimp only
  rw [hne, if_neg Bool.false_ne_true]
  rcases hvalue with rfl | ⟨item, hitem, rfl⟩
  · rw [List.nil_append, if_neg]
    · rfl
    · intro h
      rw [← List.head?_eq_getElem?] at h
      exact absurd (hrest _ h) (by decide)
  · have heq : (ascii '=' :: (item ++ rest))[0]? = some (ascii '=') := rfl
    rw [List.cons_append, if_pos heq, sliceFrom_cons_one, ok_bind,
      parseBareItem_reads.complete hitem hrest]
    rfl

theorem parseParameter_total (c : UInt8) (cs : List UInt8) :
    parseParameter (c :: cs) ≠ .panic := by
  -- Neither sub-parser panics, not even on an empty rest.
  have hkey (input : List UInt8) : parseKey input ≠ .panic := by
    cases input with
    | nil => exact nofun
    | cons d ds => exact parseKey_reads.total d ds
  have hitem (input : List UInt8) : parseBareItem input ≠ .panic := by
    cases input with
    | nil => exact nofun
    | cons d ds => exact parseBareItem_reads.total d ds
  unfold parseParameter
  rw [index_cons_zero, ok_bind]
  split_ifs
  · exact nofun
  · rw [sliceFrom_cons_one, ok_bind, skipSp_eq, ok_bind]
    refine bind_ne_panic (hkey _) ?_
    rintro ⟨key, more⟩ -
    dsimp only
    split_ifs with hempty heq
    · exact nofun
    · cases more with
      | nil => cases heq
      | cons d more =>
        rw [sliceFrom_cons_one, ok_bind]
        exact bind_ne_panic (hitem more) fun _ _ => nofun
    · exact nofun

theorem parseParameters_cons (c : UInt8) (cs : List UInt8) :
    parseParameters (c :: cs) = (parseParameter (c :: cs) >>= parseParameters) := by
  rw [parseParameters, if_neg (by simp)]
  split <;> simp [*]

/-- The parameter loop accepts exactly the sequences of parameters. -/
theorem parseParameters_eq_ok {input : List UInt8} :
    parseParameters input = .ok () ↔ Parameters input := by
  constructor
  · intro h
    induction hn : input.length using Nat.strong_induction_on generalizing input with
    | _ n ih =>
      cases input with
      | nil => exact .nil
      | cons c cs =>
        rw [parseParameters_cons] at h
        obtain ⟨rest, hparam, h⟩ := bind_eq_ok.mp h
        obtain ⟨tok, htok, hinput⟩ := parseParameter_sound hparam
        rw [← hinput]
        exact .cons htok (ih _ (hn ▸ length_of_parseParameter hparam) h rfl)
  · intro h
    induction h with
    | nil => simp [parseParameters]
    | @cons tok rest htok hrest ih =>
      have hparam := parseParameter_complete htok hrest.atParameter
      obtain ⟨n, key, value, -, -, rfl⟩ := htok
      rw [List.cons_append, parseParameters_cons, ← List.cons_append, hparam]
      exact ih

theorem parseParameters_total (input : List UInt8) : parseParameters input ≠ .panic := by
  induction hn : input.length using Nat.strong_induction_on generalizing input with
  | _ n ih =>
    cases input with
    | nil => simp [parseParameters]
    | cons c cs =>
      rw [parseParameters_cons]
      refine bind_ne_panic (parseParameter_total c cs) ?_
      intro rest hparam
      exact ih _ (hn ▸ length_of_parseParameter hparam) rest rfl

/-! ## Spaces around the value -/

/-- A nonempty text that does not end in a space. -/
def Closed (tok : List UInt8) : Prop :=
  ∃ c, tok.getLast? = some c ∧ c ≠ ascii ' '

theorem Closed.append_left {tok : List UInt8} (h : Closed tok) (pre : List UInt8) :
    Closed (pre ++ tok) := by
  obtain ⟨c, hlast, hc⟩ := h
  refine ⟨c, ?_, hc⟩
  rw [List.getLast?_append, hlast, Option.some_or]

theorem closed_of_notMem {tok : List UInt8} (hne : tok ≠ []) (h : ascii ' ' ∉ tok) :
    Closed tok := by
  refine ⟨tok.getLast hne, List.getLast?_eq_getLast_of_ne_nil hne, ?_⟩
  intro hc
  exact h (hc ▸ List.getLast_mem hne)

theorem Digits.closed {lo hi : ℕ} {digits : List UInt8} (h : Digits (lo + 1) hi digits) :
    Closed digits := by
  obtain ⟨hall, hlo, -⟩ := h
  refine closed_of_notMem (by rintro rfl; simp at hlo) fun hmem => ?_
  exact absurd (hall _ hmem) (by decide)

theorem closed_of_run {lead p : UInt8 → Bool} {tok : List UInt8} (h : Run lead p tok)
    (hlead : lead (ascii ' ') = false) (hp : p (ascii ' ') = false) : Closed tok := by
  obtain ⟨first, cs, rfl, hfirst, hcs⟩ := h
  refine closed_of_notMem (List.cons_ne_nil _ _) fun hmem => ?_
  rcases List.mem_cons.mp hmem with rfl | hmem
  · rw [hlead] at hfirst
    cases hfirst
  · have := hcs _ hmem
    rw [hp] at this
    cases this

theorem BareItem.closed {item : List UInt8} (h : BareItem item) : Closed item := by
  cases h with
  | integer h =>
    obtain ⟨sign, digits, -, hdigits, rfl⟩ := h
    exact hdigits.closed.append_left sign
  | decimal h =>
    obtain ⟨sign, digits, frac, -, -, hfrac, rfl⟩ := h
    rw [List.append_cons]
    exact hfrac.closed.append_left _
  | string h =>
    obtain ⟨units, -, rfl⟩ := h
    exact Closed.append_left ⟨_, rfl, by decide⟩ _
  | token h => exact closed_of_run h (by decide) (by decide)
  | binary h =>
    obtain ⟨content, -, rfl⟩ := h
    exact Closed.append_left ⟨_, rfl, by decide⟩ _
  | boolean h =>
    obtain ⟨flag, rfl⟩ := h
    refine ⟨flagDigit flag, rfl, ?_⟩
    cases flag <;> decide

theorem Parameter.closed {tok : List UInt8} (h : Parameter tok) : Closed tok := by
  obtain ⟨n, key, value, hkey, hvalue, rfl⟩ := h
  rw [← List.cons_append, ← List.append_assoc]
  rcases hvalue with rfl | ⟨item, hitem, rfl⟩
  · rw [List.append_nil]
    exact (closed_of_run hkey (by decide) (by decide)).append_left _
  · rw [List.append_cons]
    exact hitem.closed.append_left _

theorem Parameters.closed {input : List UInt8} (h : Parameters input) :
    input = [] ∨ Closed input := by
  induction h with
  | nil => exact .inl rfl
  | cons htok _ ih =>
    right
    rcases ih with rfl | hclosed
    · rw [List.append_nil]
      exact htok.closed
    · exact hclosed.append_left _

/-- The value that is left when the spaces around it are gone. -/
theorem trims_bytes (value : String) :
    Trims (· == ascii ' ') (bytes value) (bytes (trimSp value)) := by
  obtain ⟨⟨front, back, hsplit, hfront, hback⟩, hhead, hlast⟩ :=
    trims_trim (p := (· == ' ')) value.toList
  have hspace : (' ').toNat < 128 := by decide
  have hspaces {cs : List Char} (h : ∀ c ∈ cs, (c == ' ') = true) :
      ∀ b ∈ encode cs, (b == ascii ' ') = true := by
    intro b hb
    rw [List.eq_replicate_of_mem (fun c hc => beq_iff_eq.mp (h c hc)),
      encode_replicate hspace] at hb
    rw [List.eq_of_mem_replicate hb, beq_self_eq_true]
  unfold trimSp bytes
  rw [String.toList_ofList]
  refine ⟨⟨encode front, encode back, ?_, hspaces hfront, hspaces hback⟩, ?_, ?_⟩
  · rw [← encode_append, ← encode_append, ← hsplit]
  · intro b hb
    rw [beq_eq_false_iff_ne]
    rintro rfl
    exact absurd (hhead _ ((head?_encode hspace).mp hb)) (by decide)
  · intro b hb
    rw [List.head?_reverse] at hb
    rw [beq_eq_false_iff_ne]
    rintro rfl
    refine absurd (hlast ' ' ?_) (by decide)
    rw [List.head?_reverse]
    exact (getLast?_encode hspace).mp hb

/-! ## The header value -/

@[simp] theorem flagDigit_inj {a b : Bool} : flagDigit a = flagDigit b ↔ a = b := by
  cases a <;> cases b <;> decide

/-- The value begins with `?0` or `?1`. -/
def IsFlag (t : List UInt8) : Prop :=
  ∃ flag rest, t = ascii '?' :: flagDigit flag :: rest

section Header

variable {value : String}

theorem parse_of_empty (h : bytes (trimSp value) = []) :
    parseCapsuleProtocol value = .err .empty := by
  unfold parseCapsuleProtocol
  simp [h]

theorem parse_of_not_flag (hne : bytes (trimSp value) ≠ [])
    (h : ¬IsFlag (bytes (trimSp value))) : parseCapsuleProtocol value = .err .notBoolean := by
  unfold parseCapsuleProtocol
  dsimp only
  rcases hbytes : bytes (trimSp value) with _ | ⟨first, _ | ⟨second, rest⟩⟩
  · exact absurd hbytes hne
  · rfl
  · rw [hbytes] at h
    by_cases hfirst : first = ascii '?'
    · have h1 : second ≠ ascii '1' := by
        rintro rfl
        exact h ⟨true, rest, by rw [hfirst]; rfl⟩
      have h0 : second ≠ ascii '0' := by
        rintro rfl
        exact h ⟨false, rest, by rw [hfirst]; rfl⟩
      simp [hfirst, h1, h0]
    · simp [hfirst]

theorem parse_of_flag {flag : Bool} {rest : List UInt8}
    (h : bytes (trimSp value) = ascii '?' :: flagDigit flag :: rest) :
    parseCapsuleProtocol value =
      if rest.isEmpty then .ok flag
      else if rest.head? ≠ some (ascii ';') then .err .malformed
      else (parseParameters rest).mapErr (fun _ => .invalidParameter) >>= fun _ => .ok flag := by
  have hrest : (sliceFrom (ascii '?' :: flagDigit flag :: rest) 2 :
      Outcome CapsuleProtocolError _) = .ok rest :=
    sliceFrom_append [ascii '?', flagDigit flag] rest rfl
  unfold parseCapsuleProtocol
  dsimp only
  rw [h, index_cons_succ, index_cons_zero, ok_bind, if_neg (by simp), if_neg (by simp)]
  cases flag with
  | true =>
    rw [if_pos (by rfl), ok_bind, hrest, ok_bind]
    cases rest <;> simp
  | false =>
    rw [if_neg (by decide), if_pos (by rfl), ok_bind, hrest, ok_bind]
    cases rest <;> simp

/-- The outcome for a flag: what follows it is a sequence of parameters or an error. -/
theorem parse_of_flag_cases {flag : Bool} {rest : List UInt8}
    (h : bytes (trimSp value) = ascii '?' :: flagDigit flag :: rest) :
    (Parameters rest ∧ parseCapsuleProtocol value = .ok flag) ∨
    (rest ≠ [] ∧ rest.head? ≠ some (ascii ';') ∧ ¬Parameters rest ∧
      parseCapsuleProtocol value = .err .malformed) ∨
    (rest.head? = some (ascii ';') ∧ ¬Parameters rest ∧
      parseCapsuleProtocol value = .err .invalidParameter) := by
  rw [parse_of_flag h]
  cases rest with
  | nil => exact .inl ⟨.nil, rfl⟩
  | cons c cs =>
    rw [if_neg (by simp)]
    by_cases hsemi : (c :: cs).head? = some (ascii ';')
    · rw [if_neg (not_not.mpr hsemi)]
      cases hparams : parseParameters (c :: cs) with
      | ok u => exact .inl ⟨parseParameters_eq_ok.mp hparams, rfl⟩
      | err e =>
        refine .inr (.inr ⟨hsemi, fun hp => ?_, rfl⟩)
        rw [parseParameters_eq_ok.mpr hp] at hparams
        cases hparams
      | panic => exact absurd hparams (parseParameters_total _)
    · rw [if_pos hsemi]
      refine .inr (.inl ⟨List.cons_ne_nil _ _, hsemi, fun hp => hsemi ?_, rfl⟩)
      rw [List.head?_cons, hp.atParameter c rfl]

end Header

/-- A flag with its parameters stands between spaces exactly as the trimmed value. -/
theorem exists_spaces_iff {value : String} {flag : Bool} {params : List UInt8}
    (h : Parameters params) :
    (∃ m n, bytes value = List.replicate m (ascii ' ') ++
        (ascii '?' :: flagDigit flag :: params) ++ List.replicate n (ascii ' ')) ↔
      bytes (trimSp value) = ascii '?' :: flagDigit flag :: params := by
  have htrim := trim_eq_iff.mpr (trims_bytes value)
  constructor
  · rintro ⟨m, n, hvalue⟩
    rw [← htrim, trim_eq_iff]
    refine ⟨⟨_, _, hvalue, ?_, ?_⟩, ?_, ?_⟩
    · intro c hc
      rw [List.eq_of_mem_replicate hc, beq_self_eq_true]
    · intro c hc
      rw [List.eq_of_mem_replicate hc, beq_self_eq_true]
    · intro c hc
      obtain rfl := Option.some.inj hc
      decide
    -- No space is trimmed from the end: parameters do not end in one.
    · have hclosed : Closed (ascii '?' :: flagDigit flag :: params) := by
        rcases h.closed with rfl | hclosed
        · exact (BareItem.boolean ⟨flag, rfl⟩).closed
        · exact hclosed.append_left [ascii '?', flagDigit flag]
      obtain ⟨d, hlast, hd⟩ := hclosed
      intro c hc
      rw [List.head?_reverse, hlast] at hc
      rw [← Option.some.inj hc, beq_eq_false_iff_ne]
      exact hd
  · intro hvalue
    obtain ⟨⟨front, back, hsplit, hfront, hback⟩, -, -⟩ := trims_bytes value
    refine ⟨front.length, back.length, ?_⟩
    rw [← List.eq_replicate_of_mem (fun c hc => beq_iff_eq.mp (hfront c hc)),
      ← List.eq_replicate_of_mem (fun c hc => beq_iff_eq.mp (hback c hc)), ← hvalue]
    exact hsplit

/-- Only spaces are left empty. -/
theorem exists_replicate_iff {value : String} :
    (∃ n, bytes value = List.replicate n (ascii ' ')) ↔ bytes (trimSp value) = [] := by
  constructor
  · rintro ⟨n, hvalue⟩
    rw [← trim_eq_iff.mpr (trims_bytes value), trim_eq_iff]
    refine ⟨⟨_, [], by simpa using hvalue, ?_, nofun⟩, nofun, nofun⟩
    intro c hc
    rw [List.eq_of_mem_replicate hc, beq_self_eq_true]
  · intro hvalue
    obtain ⟨⟨front, back, hsplit, hfront, hback⟩, -, -⟩ := trims_bytes value
    refine ⟨(front ++ back).length, ?_⟩
    rw [hsplit, hvalue, List.append_nil]
    refine List.eq_replicate_of_mem fun c hc => ?_
    rcases List.mem_append.mp hc with hc | hc
    · exact beq_iff_eq.mp (hfront c hc)
    · exact beq_iff_eq.mp (hback c hc)

/-- A header value is accepted exactly as a Boolean Item with parameters between spaces;
otherwise the error names what is missing, and no value makes the parser panic. -/
theorem parseCapsuleProtocol_grammar (value : String) :
    (∀ flag, parseCapsuleProtocol value = .ok flag ↔
      ∃ m n params, Parameters params ∧
        bytes value = List.replicate m (ascii ' ') ++
          (ascii '?' :: flagDigit flag :: params) ++ List.replicate n (ascii ' ')) ∧
    (parseCapsuleProtocol value = .err .empty ↔
      ∃ n, bytes value = List.replicate n (ascii ' ')) ∧
    (parseCapsuleProtocol value = .err .notBoolean ↔
      ∃ t, Trims (· == ascii ' ') (bytes value) t ∧ t ≠ [] ∧ ¬IsFlag t) ∧
    (parseCapsuleProtocol value = .err .malformed ↔
      ∃ flag rest, Trims (· == ascii ' ') (bytes value) (ascii '?' :: flagDigit flag :: rest) ∧
        rest ≠ [] ∧ rest.head? ≠ some (ascii ';')) ∧
    (parseCapsuleProtocol value = .err .invalidParameter ↔
      ∃ flag rest, Trims (· == ascii ' ') (bytes value) (ascii '?' :: flagDigit flag :: rest) ∧
        rest.head? = some (ascii ';') ∧ ¬Parameters rest) ∧
    parseCapsuleProtocol value ≠ .panic := by
  have htrims {t : List UInt8} : Trims (· == ascii ' ') (bytes value) t ↔
      bytes (trimSp value) = t := by
    rw [← trim_eq_iff, trim_eq_iff.mpr (trims_bytes value)]
  have haccept (flag : Bool) : (∃ m n params, Parameters params ∧
      bytes value = List.replicate m (ascii ' ') ++
        (ascii '?' :: flagDigit flag :: params) ++ List.replicate n (ascii ' ')) ↔
      ∃ params, Parameters params ∧
        bytes (trimSp value) = ascii '?' :: flagDigit flag :: params := by
    constructor
    · rintro ⟨m, n, params, hparams, hvalue⟩
      exact ⟨params, hparams, (exists_spaces_iff hparams).mp ⟨m, n, hvalue⟩⟩
    · rintro ⟨params, hparams, hvalue⟩
      obtain ⟨m, n, hvalue⟩ := (exists_spaces_iff hparams).mpr hvalue
      exact ⟨m, n, params, hparams, hvalue⟩
  simp only [haccept, exists_replicate_iff, htrims]
  by_cases hempty : bytes (trimSp value) = []
  · simp [parse_of_empty hempty, hempty]
  -- The five outcomes exclude each other, so one equation settles all of the statements.
  by_cases hflag : IsFlag (bytes (trimSp value))
  · have ⟨flag, rest, hvalue⟩ := hflag
    rw [hvalue] at hflag
    rcases parse_of_flag_cases hvalue with ⟨hparams, hparse⟩ |
      ⟨hne, hsemi, hparams, hparse⟩ | ⟨hsemi, hparams, hparse⟩
    · have hsemi : rest ≠ [] → rest.head? = some (ascii ';') := by
        intro hne
        obtain ⟨c, cs, rfl⟩ := List.exists_cons_of_ne_nil hne
        rw [List.head?_cons, hparams.atParameter c rfl]
      simpa [hparse, hvalue] using ⟨hparams, hflag, hsemi, fun _ => hparams⟩
    · simpa [hparse, hvalue] using
        ⟨hparams, hflag, ⟨hne, hsemi⟩, fun h => absurd h hsemi⟩
    · simpa [hparse, hvalue] using ⟨hparams, hflag, fun _ => hsemi, hsemi, hparams⟩
  · have hnot (flag : Bool) (rest : List UInt8) :
        bytes (trimSp value) ≠ ascii '?' :: flagDigit flag :: rest :=
      fun h => hflag ⟨flag, rest, h⟩
    simp [parse_of_not_flag hempty hflag, hempty, hflag, hnot]

end Masque.CapsuleProtocol
